import Lcq.SlotKeeping
import Lcq.Supporters

/-!
# Acknowledgement bits

The bitmap a node signs into its frames is kept beside its case, and moved at
each place a frame is offered. Wherever it is read it says whose binding votes
the case has, no more and no less.
-/

namespace Acknowledgements

open Admission ByteFormat Contracts FileSystem JournalRecords JournalState LogJournal NodeLoop
  OrderedMap Program QuietParts RadioQueue Schedule SlotKeeping Supporters Transitions Undisturbed
  Utterances Wire

/-! ## One bit for each member -/

theorem bit_apart (a b : Fin 8) :
    (((1 : UInt8) <<< UInt8.ofNat a.1) &&& ((1 : UInt8) <<< UInt8.ofNat b.1) != 0) =
      decide (a = b) := by
  revert a b
  decide

theorem bit_and (i j : Nat) :
    (Heard.bit i &&& Heard.bit j != 0) = decide (i % 8 = j % 8) := by
  have apart := bit_apart ⟨i % 8, Nat.mod_lt _ (by decide)⟩ ⟨j % 8, Nat.mod_lt _ (by decide)⟩
  simpa [Heard.bit] using apart

/-- Setting a bit sets that bit and no other. -/
theorem contains_heardFrom (h : Heard) (i j : Nat) :
    (h.heardFrom i).contains j = (h.contains j || decide (i = j ∧ i < Heard.capacity)) := by
  unfold Heard.heardFrom
  by_cases room : i < Heard.capacity
  · rw [if_pos room]
    by_cases small : j < Heard.capacity
    · have inside : j / 8 < h.bytes.length := by
        rw [h.size]
        rw [Heard.capacity] at small
        omega
      have same : i = j ↔ i / 8 = j / 8 ∧ i % 8 = j % 8 := by omega
      simp only [Heard.contains, small, decide_true, Bool.true_and, room, and_true,
        List.getD_eq_getElem?_getD, List.getElem?_modify, List.getElem?_eq_getElem inside]
      by_cases byte : i / 8 = j / 8
      · simp [byte, or_and, bit_and, same]
      · simp [byte, same]
    · have apart : i ≠ j := by
        rintro rfl
        exact small room
      simp [Heard.contains, small, apart]
  · rw [if_neg room]
    simp [room]

/-! ## What the bits say -/

variable {P : Postcard} {C : Primitives} {station : Station C}

/-- A member's bit is set exactly if a vote of the member's has been counted. -/
def Told (d : Deliberation) : Prop :=
  ∀ member, d.heard.contains member = true ↔ member ∈ d.tally.trace.counted.map Prod.fst

/-- A frame has been offered, and its vote, if it was counted, is still to be told. -/
def Owed (learned : Admitted) (d : Deliberation) : Prop := Told (d.heardFrom learned)

/-- Neither the bits nor the votes counted have changed. -/
structure Silent (d e : Deliberation) : Prop where
  heard : e.heard = d.heard
  counted : e.tally.trace.counted = d.tally.trace.counted

theorem Told.silent {d e : Deliberation} (told : Told d) (silent : Silent d e) : Told e := by
  intro member
  rw [silent.heard, silent.counted]
  exact told member

theorem Owed.silent {learned : Admitted} {d e : Deliberation} (owed : Owed learned d)
    (silent : Silent d e) : Owed learned e := by
  refine Told.silent owed ?_
  unfold Deliberation.heardFrom
  split
  · exact silent
  · exact ⟨congrArg (Heard.heardFrom · _) silent.heard, silent.counted⟩

theorem bindingFrom_lt {frame : Bytes} {case : Case} {clock : Clock} {member : Nat}
    (binding : (admitFrame station frame case clock).1.bindingFrom = some member) :
    member < station.fleet.size := by
  by_cases known : ∃ envelope, Genuine station frame envelope
  · obtain ⟨envelope, genuine⟩ := known
    rw [admit_genuine genuine] at binding
    rcases offer_casts genuine case clock with ⟨none, -⟩ | ⟨o, some, -⟩
    · rw [none] at binding
      cases binding
    · rw [some] at binding
      cases binding
      exact genuine.author_lt
  · rw [admit_other (by simpa using known)] at binding
    cases binding

/-- Only what verified is counted. -/
theorem unverified_uncounted {frame : Bytes} {case : Case} {clock : Clock}
    (unverified : (admitFrame station frame case clock).1.verified = none) :
    (admitFrame station frame case clock).1.bindingFrom = none := by
  by_cases known : ∃ envelope, Genuine station frame envelope
  · obtain ⟨envelope, genuine⟩ := known
    rw [admit_genuine genuine] at unverified
    unfold offer at unverified
    dsimp only at unverified
    split at unverified
    · split at unverified
      · split at unverified <;> cases unverified
      · cases unverified
    · cases unverified
  · rw [admit_other (by simpa using known)]
    rfl

/-- An offer owes the bit of the vote it counts, and no other. -/
theorem Told.offered {d : Deliberation} (told : Told d) (frame : Bytes) (clock : Clock) :
    Owed (d.tally.offered station frame clock).1
      { d with tally := (d.tally.offered station frame clock).2 } := by
  have within : ∀ member,
      (admitFrame station frame d.tally.case clock).1.bindingFrom = some member →
        member < Heard.capacity :=
    fun member binding => Nat.lt_of_lt_of_le (bindingFrom_lt binding) station.sized
  intro other
  unfold Tally.offered Deliberation.heardFrom
  dsimp only
  cases binding : (admitFrame station frame d.tally.case clock).1.bindingFrom with
  | none =>
    dsimp only
    rw [binding]
    exact told other
  | some member =>
    dsimp only
    rw [binding]
    simp only [contains_heardFrom, within member binding, and_true, Bool.or_eq_true,
      decide_eq_true_eq, told other, List.map_append, List.mem_append, List.map_singleton,
      List.mem_singleton, @eq_comm _ member other]

/-! ## The parts that say nothing -/

instance : Slack Silent where
  ghost _ _ := ⟨rfl, rfl⟩
  slack _ _ _ _ _ _ := ⟨rfl, rfl⟩

theorem always_resend {I : Node → Prop}
    (stable : ∀ {n m : Node}, I n → Silent n.mind m.mind → I m) (t : Turn) (anchor : Nat) :
    Always I (resend t anchor) := by
  refine Always.reading fun n => ?_
  split
  · exact Always.pure _
  split
  · refine Always.bind (always_aside stable fun _ => ⟨rfl, rfl⟩) fun _ => ?_
    split
    · exact Always.pure _
    · exact Always.bind (always_aside stable fun _ => ⟨rfl, rfl⟩) fun _ =>
        always_aside stable fun _ => ⟨rfl, rfl⟩
  · exact Always.pure _

/-! ## The parts that offer frames -/

section telling

variable {t : Turn} {anchor : Nat} {n : Node}

theorem told_stable {n m : Node} (told : Told n.mind) (silent : Silent n.mind m.mind) :
    Told m.mind := told.silent silent

theorem owed_stable {learned : Admitted} {n m : Node} (owed : Owed learned n.mind)
    (silent : Silent n.mind m.mind) : Owed learned m.mind := owed.silent silent

/-- A part that says nothing, run to its end. -/
theorem told_behind {α : Type} {p : Prog Node Empty α} (always : Always (fun m => Told m.mind) p)
    (told : Told n.mind) : Yields p n fun _ m => Told m.mind :=
  (always.leads told).returned

theorem owed_behind {α : Type} {p : Prog Node Empty α} {learned : Admitted}
    (always : Always (fun m => Owed learned m.mind) p) (owed : Owed learned n.mind) :
    Yields p n fun _ m => Owed learned m.mind :=
  (always.leads owed).returned

theorem told_aside {f : Deliberation → Deliberation} (silent : ∀ d, Silent d (f d))
    (told : Told n.mind) : Yields (minding f) n fun _ m => Told m.mind :=
  told_behind (always_aside told_stable silent) told

theorem owed_aside {f : Deliberation → Deliberation} {learned : Admitted}
    (silent : ∀ d, Silent d (f d)) (owed : Owed learned n.mind) :
    Yields (minding f) n fun _ m => Owed learned m.mind :=
  owed_behind (always_aside owed_stable silent) owed

theorem yields_offering (told : Told n.mind) (frame : Bytes) (clock : Clock) :
    Yields (offering station frame clock) n fun learned m => Owed learned m.mind := by
  rintro _ _ ⟨⟩
  exact told.offered frame clock

/-- What was owed is paid. -/
theorem yields_crediting {learned : Admitted} (owed : Owed learned n.mind) :
    Yields (minding fun d => (d.heardFrom learned).acknowledgedBy station learned) n
      fun _ m => Told m.mind := by
  refine Yields.change ?_
  refine Told.silent owed ?_
  unfold Deliberation.acknowledgedBy
  split <;> exact ⟨rfl, rfl⟩

theorem silent_draining (d : Deliberation) (clock : Clock) :
    Silent d { d with tally := d.tally.draining clock } := by
  obtain ⟨lapsed, same⟩ := NodeSteps.draining_rest d.tally clock
  rw [same]
  exact ⟨rfl, rfl⟩

theorem yields_drain (told : Told n.mind) (early : List (Nat × Bytes)) :
    Yields (drain P station t early) n fun _ m => Told m.mind := by
  induction early generalizing n with
  | nil => exact Yields.pure told
  | cons p early ih =>
    refine Yields.bind (told_aside ?_ told) fun _ m told => ?_
    · intro d
      exact silent_draining d _
    exact Yields.bind (yields_offering told _ _) fun _ k owed =>
      Yields.bind (yields_crediting owed) fun _ l told =>
        Yields.bind (told_behind (always_witnessing told_stable _ _ _) told) fun _ u told =>
          ih told

theorem yields_closing (told : Told n.mind) :
    Yields (closing P station t) n fun _ m => Told m.mind := by
  refine Yields.reading ?_
  split
  · split
    · exact Yields.pure told
    · exact Yields.bind (told_aside (fun _ => ⟨rfl, rfl⟩) told) fun _ m told =>
        yields_drain told _
  · exact Yields.pure told

theorem yields_admitOwn (told : Told n.mind) (stage : Stage) (frame : Bytes) :
    Yields (admitOwn station t stage frame) n fun _ m => Told m.mind := by
  refine Yields.reading ?_
  split
  · exact Yields.bind (told_aside (fun _ => ⟨rfl, rfl⟩) told) fun _ m told =>
      Yields.bind (yields_offering told _ _) fun _ k owed => Yields.change owed
  · exact Yields.pure told

theorem yields_speak (told : Told n.mind) (stage : Stage) :
    Yields (speak P station t anchor stage) n fun _ m => Told m.mind := by
  refine Yields.reading ?_
  dsimp only
  split
  · exact Yields.pure told
  split
  · exact told_aside (fun _ => ⟨rfl, rfl⟩) told
  split
  · exact told_aside (fun _ => ⟨rfl, rfl⟩) told
  refine Yields.bind (told_behind (always_building told_stable _) told) fun out m told => ?_
  cases out with
  | error e => exact told_aside (fun _ => ⟨rfl, rfl⟩) told
  | ok frame =>
    refine Yields.bind (told_aside (fun _ => ⟨rfl, rfl⟩) told) fun _ m told =>
      Yields.bind (told_aside (fun _ => ⟨rfl, rfl⟩) told) fun _ m told =>
        Yields.bind (told_aside ?_ told) fun _ m told =>
          Yields.bind (told_behind ?_ told) fun _ m told =>
            Yields.bind (yields_admitOwn told stage frame) fun _ m told => ?_
    · intro d
      unfold Tally.ownMarked
      split <;> exact ⟨rfl, rfl⟩
    · unfold rememberOwn
      split
      · exact Always.pure _
      · exact always_rememberSeen told_stable _ _ _
    split
    · exact told_aside (fun _ => ⟨rfl, rfl⟩) told
    · exact Yields.pure told

theorem silent_hasReceived (d : Deliberation) (frame : Bytes) :
    Silent d { d with tally := d.tally.hasReceived station frame } := by
  obtain ⟨received, same⟩ := NodeSteps.hasReceived_rest station d.tally frame
  rw [same]
  exact ⟨rfl, rfl⟩

theorem silent_held (d : Deliberation) (learned : Admitted) (frame : Bytes) :
    Silent d { d with tally := d.tally.held learned frame } := by
  obtain ⟨early, taken, same⟩ := NodeSteps.held_rest d.tally learned frame
  rw [same]
  exact ⟨rfl, rfl⟩

theorem yields_await (told : Told n.mind) :
    Yields (await P station t) n fun _ m => Told m.mind := by
  unfold await
  split
  · exact Yields.pure told
  refine Yields.reading ?_
  split
  · exact Yields.pure told
  split
  · refine Yields.bind (told_aside (fun _ => ⟨rfl, rfl⟩) told) fun _ m told =>
      Yields.bind (told_behind (always_rememberSeen told_stable _ _ _) told) fun _ m told =>
        told_aside ?_ told
    intro d
    exact ⟨rfl, (silent_hasReceived d _).counted⟩
  split
  · exact Yields.pure told
  · refine Yields.bind (told_aside (fun _ => ⟨rfl, rfl⟩) told) fun _ m told =>
      Yields.bind (told_behind (always_rememberSeen told_stable _ _ _) told) fun _ m told =>
        Yields.bind (told_aside ?_ told) fun _ m told =>
          Yields.bind (yields_offering told _ _) fun learned m owed =>
            Yields.bind (owed_aside ?_ owed) fun _ m owed =>
              Yields.bind (yields_crediting owed) fun _ m told =>
                told_behind (always_witnessing told_stable _ _ _) told
    · intro d
      exact ⟨rfl, (silent_hasReceived d _).counted⟩
    · intro d
      exact silent_held d _ _

theorem silent_answering (d : Deliberation) (anchor : Nat) (journal : Journal)
    (learned : Admitted) (requester now : Nat) :
    Silent d (d.answering station anchor journal learned requester now) := by
  unfold Deliberation.answering
  split
  · exact ⟨rfl, rfl⟩
  · split
    · exact ⟨rfl, rfl⟩
    · dsimp only
      split <;> split <;> exact ⟨rfl, rfl⟩

theorem silent_compared (d : Deliberation) (anchor : Nat) (learned : Admitted) (frame : Bytes)
    (now : Nat → Nat) : Silent d (d.compared station anchor learned frame now) := by
  unfold Deliberation.compared
  split
  · exact ⟨rfl, rfl⟩
  · dsimp only
    split <;> exact ⟨rfl, rfl⟩

theorem yields_learn {frame : Bytes} {learned : Admitted} (owed : Owed learned n.mind)
    (unread : learned.verified = none → learned.bindingFrom = none) :
    Yields (learn P station t anchor frame learned) n fun _ m => Told m.mind := by
  unfold learn
  split
  · rename_i unverified
    have told : Told n.mind := by
      have owed := owed
      rw [Owed, Deliberation.heardFrom, unread unverified] at owed
      exact owed
    exact Yields.pure told
  · refine Yields.bind (owed_aside (fun _ => ⟨rfl, rfl⟩) owed) fun _ m owed =>
      Yields.bind (owed_behind (always_rememberSeen owed_stable _ _ _) owed) fun _ m owed =>
        Yields.bind (owed_aside ?_ owed) fun _ m owed =>
          Yields.reading ?_
    · intro d
      exact silent_held d _ _
    refine Yields.bind (owed_aside ?_ owed) fun _ k owed =>
      Yields.bind (owed_aside ?_ owed) fun _ k owed =>
        Yields.bind (yields_crediting owed) fun _ k told =>
          told_behind (always_witnessing told_stable _ _ _) told
    · intro d
      exact silent_answering d _ _ _ _ _
    · intro d
      exact silent_compared d _ _ _ _

theorem yields_hear (told : Told n.mind) :
    Yields (hear P station t anchor) n fun _ m => Told m.mind := by
  unfold hear
  split
  · exact told_behind (QuietParts.always_ending told_stable) told
  rename_i frame _
  refine Yields.reading ?_
  refine Yields.bind (told_aside ?_ told) fun _ m told => ?_
  · intro d
    exact silent_hasReceived d _
  split
  · exact Yields.pure told
  split
  · refine Yields.bind (told_aside (fun _ => ⟨rfl, rfl⟩) told) fun _ k told =>
      Yields.bind (told_behind (always_rememberSeen told_stable _ _ _) told) fun _ k told =>
        told_aside ?_ told
    intro d
    unfold Deliberation.openedAgain
    split <;> exact ⟨rfl, rfl⟩
  · have offering : Yields (offering station frame (t.clock .received)) m fun learned k =>
        Owed learned k.mind ∧ (learned.verified = none → learned.bindingFrom = none) := by
      rintro _ _ ⟨⟩
      refine ⟨told.offered frame _, ?_⟩
      rw [QuietParts.offered_fst]
      exact unverified_uncounted
    refine Yields.bind offering fun learned k owed =>
      Yields.bind (yields_learn owed.1 owed.2) fun _ l told =>
        told_behind (QuietParts.always_ending told_stable) told

theorem yields_turn (told : Told n.mind) :
    Yields (turn P station t) n fun _ m => Told m.mind := by
  refine Yields.bind (told_behind (always_openRound told_stable) told) fun _ m told =>
    Yields.reading ?_
  split
  · exact yields_await told
  · exact Yields.bind (yields_closing told) fun _ m told =>
      Yields.bind (yields_speak told _) fun _ m told =>
        Yields.bind (yields_speak told _) fun _ m told =>
          Yields.bind (yields_speak told _) fun _ m told =>
            Yields.bind (told_behind (always_askForRepair told_stable) told) fun _ m told =>
              Yields.bind (told_behind (always_resend told_stable _ _) told) fun _ m told =>
                yields_hear told

/-- What the parts of a turn keep holds where it comes to a place it sends from. -/
theorem yields_approach {R : Node → Prop}
    (shut : ∀ n, R n → Yields (closing P station t) n fun _ m => R m)
    (spoke : ∀ stage n, R n → Yields (speak P station t anchor stage) n fun _ m => R m)
    (asked : ∀ n, R n → Yields (askForRepair P station t anchor) n fun _ m => R m)
    (place : Sending) (held : R n) :
    Yields (approach P station t anchor place) n fun _ m => R m := by
  cases place with
  | opening => exact Yields.pure held
  | stage stage =>
    cases stage with
    | independent => exact shut n held
    | consultation => exact Yields.bind (shut n held) fun _ => spoke _
    | bindingSupport =>
      exact Yields.bind (shut n held) fun _ m held =>
        Yields.bind (spoke _ m held) fun _ => spoke _
  | request =>
    exact Yields.bind (shut n held) fun _ m held =>
      Yields.bind (spoke _ m held) fun _ m held =>
        Yields.bind (spoke _ m held) fun _ => spoke _
  | resend =>
    exact Yields.bind (shut n held) fun _ m held =>
      Yields.bind (spoke _ m held) fun _ m held =>
        Yields.bind (spoke _ m held) fun _ m held =>
          Yields.bind (spoke _ m held) fun _ => asked

theorem told_approach (told : Told n.mind) (place : Sending) :
    Yields (approach P station t anchor place) n fun _ m => Told m.mind :=
  yields_approach (fun _ told => yields_closing told) (fun stage _ told => yields_speak told stage)
    (fun _ told => told_behind (always_askForRepair told_stable) told) place told

end telling

/-! ## Whose votes a node has -/

/-- The node's case has a binding vote of the member. -/
def Holds (station : Station C) (n : Node) (member : Nat) : Prop :=
  member < station.fleet.size ∧
    ∃ o ∈ n.mind.tally.case.binding, o.author = station.memberId member

/-- The members a repair request would be sent for. -/
def missing (station : Station C) (d : Deliberation) : List Nat :=
  (List.range station.fleet.size).filter fun m =>
    decide (m ≠ station.options.index) && !d.heard.contains m

/-- The bits are those of the members whose votes the case has, and what is missing is the
other members'. -/
structure Truthful (station : Station C) (n : Node) : Prop where
  bits : ∀ member, n.mind.heard.contains member = true ↔ Holds station n member
  missing : ∀ member, member ∈ missing station n.mind ↔
    member < station.fleet.size ∧ member ≠ station.options.index ∧ ¬ Holds station n member

theorem memberId_inj {i j : Nat} (first : i < station.fleet.size) (second : j < station.fleet.size)
    (same : station.memberId i = station.memberId j) : i = j := by
  have within : i < station.fleet.ids.length := first
  have within' : j < station.fleet.ids.length := second
  simp only [Station.memberId, Fleet.id, List.getD_eq_getElem?_getD,
    List.getElem?_eq_getElem within, List.getElem?_eq_getElem within', Option.getD_some] at same
  exact (station.fleet.distinct.getElem_inj_iff).mp same

theorem truthful {n : Node} (told : Told n.mind) (counted : Counted station n.mind.tally) :
    Truthful station n := by
  have bits : ∀ member, n.mind.heard.contains member = true ↔ Holds station n member := by
    intro member
    rw [told member, List.mem_map]
    constructor
    · rintro ⟨p, listed, rfl⟩
      obtain ⟨o, inside, casts⟩ := forall₂_mem_left counted.casts listed
      exact ⟨casts.member_lt, o, inside, casts.author⟩
    · rintro ⟨small, o, inside, author⟩
      obtain ⟨p, listed, casts⟩ := forall₂_mem_right counted.casts inside
      exact ⟨p, listed, memberId_inj casts.member_lt small (casts.author.symm.trans author)⟩
  refine ⟨bits, fun member => ?_⟩
  rw [← bits member, Acknowledgements.missing, List.mem_filter, List.mem_range]
  simp

/-- A repair request is sent for what is missing. -/
theorem askForRepair_missing (t : Turn) (anchor : Nat) :
    askForRepair P station t anchor = (do
      let n ← Program.read
      let size := station.fleet.size
      match repairRound station.options size anchor (t.now .asking 0) with
      | none => pure ()
      | some round =>
        let due := requestDue station.options size anchor round
        if n.mind.tally.closed = true ∧ n.mind.nackedRounds ≤ round ∧ due ≤ t.now .asking 1 then do
          minding fun d => { d with nackedRounds := round + 1 }
          if missing station n.mind = [] then pure ()
          else do
            match ← building (buildNack P C station.fleet station.options station.keys
              (t.envs .asking 0) station.subject n.mind.heard n.mind.round) with
            | .error _ => pure ()
            | .ok frame => handing t .request frame anchor due (t.now .asking 2)
        else pure ()) := rfl

/-! ## What is signed -/

/-- All that has been sealed since was signed with these bits. -/
def Signs (heard : Heard) (d e : Desk) : Prop :=
  ∀ s ∈ e.sealed, s ∈ d.sealed ∨ ∃ envelope signature,
    encodeCompact ⟨envelope, signature⟩ = .ok s.plaintext ∧ envelope.heard = heard

theorem signs_onJournal {heard : Heard} {d : Desk} {α : Type}
    (p : Prog Running JournalError α) : Always (Signs heard d) (onJournal p) :=
  Always.beside _ fun _ _ held => held

theorem signs_sealing {heard : Heard} {d : Desk} {envelope : CompactEnvelope} {plaintext : Bytes}
    {signature : Signature} (encoded : encodeCompact ⟨envelope, signature⟩ = .ok plaintext)
    (bits : envelope.heard = heard) (keys : Provisioned) (author : UInt16) (sequence : UInt64) :
    Always (Signs heard d) (sealing C keys author sequence plaintext) := by
  refine Always.bind (Always.change ?_) fun _ => ?_
  · intro e held s sealed
    rcases List.mem_append.mp sealed with before | new
    · exact held s before
    · rw [List.mem_singleton.mp new]
      exact Or.inr ⟨envelope, signature, encoded, bits⟩
  · intro e held
    cases (sealFrame C keys.group author sequence plaintext).mapError BuildError.wire with
    | error error => exact held
    | ok frame => exact held

theorem signs_utter (env : Env) (stage verdict : UInt8) (heard : Heard) (round : RoundId)
    (d : Desk) : Always (Signs heard d) (utter P C station.fleet station.options station.keys env
      station.subject stage verdict heard round) := by
  refine Always.bind (signs_onJournal _) fun sequence => ?_
  dsimp only
  let envelope := ((CompactEnvelope.new C station.fleet.missionEpoch event revision
    station.subject.contentHash station.subject.startedAt.secs (authorOf station.options.index)
    stage verdict sequence).acknowledging heard).inRound round
  cases encoded : encodeCompact (envelope.sign C station.keys.signing
      station.subject.contentHash) with
  | error error =>
    intro e held
    simp only [bind_apply, Except.mapError, ofExcept_error, andThen_error]
    exact held
  | ok signed =>
    intro e held
    have sealing := (signs_sealing (C := C) encoded rfl station.keys
      (authorOf station.options.index) sequence).bind fun frame =>
        Always.pure (I := Signs heard d) (sequence, frame)
    simp only [bind_apply, Except.mapError, ofExcept_ok, andThen_ok]
    exact sealing e held

/-- What a node seals at a place of a turn. -/
def voicing (P : Postcard) (station : Station C) (t : Turn) (n : Node) : Sending → Desk
  | .stage stage =>
    (build P C station.fleet station.options station.keys (t.envs (.own stage)) stage
      station.subject n.mind.heard n.mind.round n.desk).2
  | .request =>
    (buildNack P C station.fleet station.options station.keys (t.envs .asking 0) station.subject
      n.mind.heard n.mind.round n.desk).2
  | _ => n.desk

theorem signs_build (envs : Nat → Env) (stage : Stage) (heard : Heard) (round : RoundId)
    (d : Desk) : Always (Signs heard d) (build P C station.fleet station.options station.keys envs
      stage station.subject heard round) := by
  have failing {α : Type} (e : BuildError) :
      Always (Signs heard d) (fail e : Prog Desk BuildError α) := fun _ held => held
  refine Always.reading fun e => ?_
  split
  · split
    · exact failing _
    · exact Always.pure _
  · refine Always.bind (signs_utter _ _ _ _ _ _) fun uttered => ?_
    split
    · exact failing _
    · split
      · exact Always.bind (signs_onJournal _) fun _ => Always.pure _
      · exact Always.pure _

theorem signs_self (heard : Heard) (d : Desk) : Signs heard d d := fun _ sealed => Or.inl sealed

theorem signs_voicing (t : Turn) (n : Node) (place : Sending) :
    Signs n.mind.heard n.desk (voicing P station t n place) := by
  cases place with
  | stage stage => exact signs_build _ stage _ _ _ _ (signs_self _ _)
  | request =>
    exact Always.bind (signs_utter _ _ _ _ _ _) (fun _ => Always.pure _) _ (signs_self _ _)
  | opening => exact signs_self _ _
  | resend => exact signs_self _ _

/-! ## Lives -/

/-- A life that is going on has its bits in order. -/
def Ordered (station : Station C) : Lives → Prop
  | .dead .. => True
  | .alive node => Told node.mind ∧ Counted station node.mind.tally

theorem told_begin (state : State) (past : Past) : Told (.begin station state past) := by
  intro member
  have clear : (Heard.none).contains member = false := by
    simp only [Heard.contains, Heard.none, List.getD_eq_getElem?_getD, List.getElem?_replicate]
    split <;> simp
  simp [Deliberation.begin, Tally.begin, clear]

theorem ordered_next (path : Path) {lives : Lives} (ordered : Ordered station lives)
    (happening : Happening) : Ordered station (lives.next P station path happening) := by
  cases lives with
  | dead disk sealed past =>
    cases happening with
    | boot entropy opening entering =>
      rw [Lives.next]
      split
      · trivial
      · exact ⟨told_begin _ _, Counted.begin _ _⟩
    | turn t => trivial
    | crash => trivial
  | alive node =>
    cases happening with
    | boot entropy opening entering => exact ordered
    | crash => trivial
    | turn t =>
      rw [Lives.next]
      split
      · exact ordered
      · split
        · trivial
        · rename_i ran
          exact ⟨yields_turn ordered.1 _ _ ran, counted_turn ordered.2 _ _ ran⟩

theorem ordered_after (path : Path) {lives : Lives} (ordered : Ordered station lives)
    (happenings : List Happening) : Ordered station (lives.after P station path happenings) := by
  induction happenings generalizing lives with
  | nil => exact ordered
  | cons happening rest ih => exact ih (ordered_next path ordered happening)

/-- What a turn does before a place counts genuine votes alone. -/
theorem counted_approach {t : Turn} {anchor : Nat} {n : Node}
    (counted : Counted station n.mind.tally) (place : Sending) :
    Yields (approach P station t anchor place) n fun _ m => Counted station m.mind.tally := by
  refine yields_approach (R := fun m => Counted station m.mind.tally) ?_ ?_ ?_ place counted
  · intro n counted
    refine NodeSteps.yields_closing.weaken fun _ m became => ?_
    rw [became.tally]
    exact counted.closing t
  · intro stage n counted
    refine (NodeSteps.yields_speak anchor stage).weaken fun _ m spoke => ?_
    cases spoke with
    | silent became =>
      rw [became.tally]
      exact counted
    | sent _ _ tally =>
      rw [tally]
      exact counted.sending t stage _
  · intro n counted
    refine (NodeSteps.yields_askForRepair anchor).weaken fun _ m became => ?_
    rw [became.tally]
    exact counted

/-- In every life the acknowledgement bits are those of the members whose binding vote the
node's case has, at the end of every turn and at every place of a turn that frames are sent
from; what is signed there carries these bits, and what is missing for a repair request is the
other members. -/
theorem bits_true (P : Postcard) (station : Station C) (path : Path) (disk : Disk Path)
    (sealed : List Sealing) (past : Past) (happenings : List Happening) :
    let start : Lives := .dead disk sealed past
    ∀ node, start.after P station path happenings = .alive node →
      Truthful station node ∧
        ∀ t m anchor place k, openRound P station t node = (.ok (), m) →
          m.mind.began = some anchor → place ∈ places →
          approach P station t anchor place m = (.ok (), k) →
          Truthful station k ∧ ∀ s ∈ (voicing P station t k place).sealed, s ∈ k.desk.sealed ∨
            ∃ envelope signature, encodeCompact ⟨envelope, signature⟩ = .ok s.plaintext ∧
              ∀ member, envelope.heard.contains member = true ↔ Holds station k member := by
  intro start node reached
  have ordered := @ordered_after P C station path start trivial happenings
  rw [reached] at ordered
  obtain ⟨told, counted⟩ := ordered
  refine ⟨truthful told counted, ?_⟩
  intro t m anchor place k opened _ _ came
  have told : Told m.mind := told_behind (always_openRound told_stable) told _ _ opened
  have counted : Counted station m.mind.tally := by
    rw [(NodeSteps.yields_openRound _ _ opened).tally]
    exact counted
  have here : Truthful station k :=
    truthful (told_approach told place _ _ came) (counted_approach counted place _ _ came)
  refine ⟨here, fun s inside => ?_⟩
  rcases signs_voicing t k place s inside with before | ⟨envelope, signature, encoded, bits⟩
  · exact Or.inl before
  · refine Or.inr ⟨envelope, signature, encoded, fun member => ?_⟩
    rw [bits]
    exact here.bits member

/-- Whether a turn of a life comes to a place. -/
def comes (P : Postcard) (station : Station C) (t : Turn) (place : Sending) : Lives → Bool
  | .dead .. => false
  | .alive node =>
    match openRound P station t node with
    | (.error _, _) => false
    | (.ok (), m) =>
      match m.mind.began with
      | none => false
      | some anchor =>
        match approach P station t anchor place m with
        | (.error _, _) => false
        | (.ok (), _) => true

theorem comes_some {t : Turn} {place : Sending} {lives : Lives}
    (came : comes P station t place lives = true) :
    ∃ node m anchor k, lives = .alive node ∧ openRound P station t node = (.ok (), m) ∧
      m.mind.began = some anchor ∧ approach P station t anchor place m = (.ok (), k) := by
  unfold comes at came
  split at came
  · cases came
  · rename_i node
    split at came
    · cases came
    · rename_i m opened
      split at came
      · cases came
      · rename_i anchor began
        split at came
        · cases came
        · rename_i k reached
          exact ⟨node, m, anchor, k, rfl, opened, began, reached⟩

/-- A vote is heard, and the node comes to the place it asks for the others' from. -/
theorem bits_true_heard :
    let vote := voiced 1 3 1 5 ⟨0, 0⟩
    let start : Lives := .dead Disk.empty [] ⟨[], [], []⟩
    let path : Path := ⟨"member", some "journal"⟩
    let happenings := openedThenHeard (500000000000, vote) (510000000000, vote)
    let t := heardAt 520000000000 none
    ∃ node m anchor k, start.after postcard stationed path happenings = .alive node ∧
      Truthful stationed node ∧ openRound postcard stationed t node = (.ok (), m) ∧
      approach postcard stationed t anchor .request m = (.ok (), k) ∧ Truthful stationed k := by
  intro vote start path happenings t
  have came : comes postcard stationed t .request
      (start.after postcard stationed path happenings) = true := by
    decide +kernel
  obtain ⟨node, m, anchor, k, reached, opened, began, arrived⟩ := comes_some came
  obtain ⟨here, there⟩ := bits_true postcard stationed path Disk.empty [] ⟨[], [], []⟩ happenings
    node reached
  exact ⟨node, m, anchor, k, reached, here, opened, arrived,
    (there t m anchor .request k opened began (by decide) arrived).1⟩

end Acknowledgements
