import Lcq.FirstVotes
import Lcq.SafeTurns
import Lcq.Witnesses

/-!
# Votes on record

A vote that is counted is witnessed before the turn is over, if nothing else is
on record of its author; only a node's own votes, which it has committed, are
not. The parts of a turn that offer nothing leave what is on record as it is.
-/

namespace WitnessedVotes

open Admission ByteFormat CastVotes Contracts CrashSafety FileSystem FirstVotes JournalOutcomes
  JournalRecords JournalRuns JournalState JournaledTurns LogJournal NodeLoop NodeSteps OrderedMap
  Program SafeTurns Supporters Transitions Utterances Wire Witnesses

variable {P : Postcard} {C : Primitives} {station : Station C} {path : Path}

/-- What the journal of a node has on record. -/
def records (n : Node) : Map String Bytes := n.desk.running.journal.state.witnessed

/-! ## The parts that record no vote -/

section unrecorded

variable {W : Map String Bytes} {t : Turn} {anchor : Nat}

theorem keeps_minding (f : Deliberation → Deliberation) :
    Keeps (fun n => records n = W) (minding f) := Keeps.change fun _ held => held

theorem keeps_building {p : Prog Desk BuildError Bytes}
    (kept : Keeps (fun d : Desk => d.running.journal.state.witnessed = W) p) :
    Keeps (fun n => records n = W) (building p) := (Keeps.zoom kept fun _ _ => rfl).caught

theorem keeps_rememberSeen (env : Env) (sender : Nat) (sequence : UInt64) :
    Keeps (fun n => records n = W) (rememberSeen P env sender sequence) := by
  unfold rememberSeen
  split
  · have marks : Keeps (fun s : Running => s.journal.state.witnessed = W)
        (markSeen P env (.ofNat sender) sequence) :=
      markSeen_keeps (I := fun state => state.witnessed = W) (fun _ _ held => held) _ _
    refine ((Keeps.zoom marks fun _ _ => rfl).caught).bind fun out => ?_
    cases out with
    | error e => exact Keeps.pure _
    | ok => exact keeps_minding _
  · exact Keeps.pure _

theorem keeps_offering (frame : Bytes) (clock : Clock) :
    Keeps (fun n => records n = W) (offering station frame clock) := fun _ held _ => held

theorem keeps_openRound : Keeps (fun n => records n = W) (openRound P station t) := by
  refine Keeps.read.bind fun n => ?_
  split
  · dsimp only
    split
    · exact fun _ _ lives => absurd rfl lives
    · refine (keeps_minding _).bind fun _ => (keeps_building ?_).bind fun out => ?_
      · exact buildTrigger_keeps (I := fun state => state.witnessed = W) fun _ _ held => held
      · cases out with
        | error e => exact Keeps.pure _
        | ok frame => exact (keeps_minding _).bind fun _ => keeps_minding _
  · exact Keeps.pure _

theorem keeps_admitOwn (stage : Stage) (frame : Bytes) :
    Keeps (fun n => records n = W) (admitOwn station t stage frame) := by
  refine Keeps.read.bind fun n => ?_
  split
  · exact (keeps_minding _).bind fun _ => (keeps_offering _ _).bind fun _ => keeps_minding _
  · exact Keeps.pure _

theorem keeps_speak (stage : Stage) :
    Keeps (fun n => records n = W) (speak P station t anchor stage) := by
  refine Keeps.read.bind fun n => ?_
  dsimp only
  split
  · exact Keeps.pure _
  split
  · exact keeps_minding _
  split
  · exact keeps_minding _
  refine (keeps_building ?_).bind fun out => ?_
  · exact build_keeps (I := fun state => state.witnessed = W) (fun _ _ _ _ held => held) _ _
  cases out with
  | error e => exact keeps_minding _
  | ok frame =>
    have remembers : Keeps (fun n => records n = W)
        (rememberOwn P station (t.envs (.own stage) 2) frame) := by
      unfold rememberOwn
      split
      · exact Keeps.pure _
      · exact keeps_rememberSeen _ _ _
    refine (keeps_minding _).bind fun _ => (keeps_minding _).bind fun _ =>
      (keeps_minding _).bind fun _ => remembers.bind fun _ => (keeps_admitOwn _ _).bind fun _ => ?_
    split
    · exact keeps_minding _
    · exact Keeps.pure _

theorem keeps_askForRepair :
    Keeps (fun n => records n = W) (askForRepair P station t anchor) := by
  refine Keeps.read.bind fun n => ?_
  dsimp only
  split
  · exact Keeps.pure _
  split
  · refine (keeps_minding _).bind fun _ => ?_
    split
    · exact Keeps.pure _
    · refine (keeps_building ?_).bind fun out => ?_
      · exact buildNack_keeps (I := fun state => state.witnessed = W) fun _ _ held => held
      · cases out with
        | error e => exact Keeps.pure _
        | ok frame => exact keeps_minding _
  · exact Keeps.pure _

theorem keeps_resend : Keeps (fun n => records n = W) (NodeLoop.resend t anchor) := by
  refine Keeps.read.bind fun n => ?_
  split
  · exact Keeps.pure _
  split
  · refine (keeps_minding _).bind fun _ => ?_
    split
    · exact Keeps.pure _
    · exact (keeps_minding _).bind fun _ => keeps_minding _
  · exact Keeps.pure _

theorem keeps_ending : Keeps (fun n => records n = W) (ending station t anchor) := by
  refine Keeps.read.bind fun n => ?_
  dsimp only
  split
  · exact keeps_minding _
  · exact Keeps.pure _

end unrecorded

/-! ## What a vote that is counted comes to -/

section votes

variable (station)

/-- A vote of the node's own: under its own index, or in a frame it has sent itself. -/
def ownVote (n : Node) (p : Nat × Bytes) : Bool :=
  decide (p.1 = station.options.index) || ((spoken n).map Prod.snd).contains p.2

/-- Nothing else is on record of the vote's author, and the vote fits a record. -/
def unopposed (P : Postcard) (s : State) (p : Nat × Bytes) : Bool :=
  match s.witnessed[station.memberId p.1]? with
  | some held => decide (held = p.2)
  | none => (P.format.encode (.witnessed (station.memberId p.1) p.2)).isSome

end votes

/-- Of the votes counted since a turn began, each is on record, or is the node's own, or was
opposed when the turn began, or is the one still owed; of who has none counted, the record is
what it was. -/
structure Recording (P : Postcard) (station : Station C) (path : Path) (begun : Node)
    (owed : Option (Nat × Bytes)) (n : Node) : Prop where
  sound : Sound P path n.desk.running
  counted : Counted station n.mind.tally
  spoken : spoken begun ⊆ NodeSteps.spoken n
  noted : ∀ p ∈ n.mind.tally.trace.counted, p ∈ begun.mind.tally.trace.counted ∨
    ownVote station n p = true ∨
    unopposed station P begun.desk.running.journal.state p = false ∨ owed = some p ∨
    (records n)[station.memberId p.1]? = some p.2
  alone : ∀ p, owed = some p → p.1 < station.fleet.size ∧ p ∈ n.mind.tally.trace.counted ∧
    ∀ frame, (p.1, frame) ∈ n.mind.tally.trace.counted → frame = p.2
  others : ∀ member < station.fleet.size,
    (∀ frame, (member, frame) ∈ n.mind.tally.trace.counted → owed = some (member, frame)) →
    (records n)[station.memberId member]? = (records begun)[station.memberId member]?

theorem ownVote_grows {n m : Node} {p : Nat × Bytes} (grown : spoken n ⊆ spoken m)
    (own : ownVote station n p = true) : ownVote station m p = true := by
  simp only [ownVote, Bool.or_eq_true, decide_eq_true_eq, List.contains_eq_mem] at own ⊢
  exact own.imp_right fun sent => List.map_subset Prod.snd grown sent

section steps

variable {begun n : Node} {owed : Option (Nat × Bytes)} {α : Type}

/-- A turn begins with nothing owed. -/
theorem Recording.start (sound : Sound P path n.desk.running)
    (counted : Counted station n.mind.tally) : Recording P station path n none n :=
  ⟨sound, counted, List.Subset.refl _, fun _ mem => Or.inl mem, by rintro _ ⟨⟩,
    fun _ _ _ => rfl⟩

/-- What counts and records nothing. -/
theorem Recording.aside {m : Node} (recording : Recording P station path begun owed n)
    (sound : Sound P path m.desk.running) (counted : Counted station m.mind.tally)
    (kept : m.mind.tally.trace.counted = n.mind.tally.trace.counted)
    (grown : NodeSteps.spoken n ⊆ NodeSteps.spoken m) (same : records m = records n) :
    Recording P station path begun owed m := by
  refine ⟨sound, counted, List.Subset.trans recording.spoken grown, ?_, ?_, ?_⟩
  · rw [kept, same]
    intro p mem
    exact (recording.noted p mem).imp_right fun rest => rest.imp_left (ownVote_grows grown)
  · rw [kept]
    exact recording.alone
  · rw [kept, same]
    exact recording.others

/-- A part that changes the tally as said, and counts and records nothing. -/
theorem Recording.part {p : Prog Node Empty α} {y : Tally}
    (recording : Recording P station path begun owed n)
    (comes : Yields p n fun _ m => Became n y m) (safe : Safe P path (fun _ _ => True) p)
    (keeps : Keeps (fun m => records m = records n) p) (counted : Counted station y)
    (kept : y.trace.counted = n.mind.tally.trace.counted) :
    Yields p n fun _ m => Recording P station path begun owed m := by
  intro a m ran
  have became := comes a m ran
  have lives : (p n).1 ≠ .error .died := by rw [ran]; rintro ⟨⟩
  have same := keeps n rfl lives
  rw [ran] at same
  refine recording.aside ((safe n ⟨recording.sound, trivial⟩).returned a m ran).1 ?_ ?_ ?_ same
  · rw [became.tally]
    exact counted
  · rw [became.tally, kept]
  · rw [became.spoken]
    exact List.Subset.refl _

/-- What changes the mind alone, and its tally as said. -/
theorem Recording.changing {f : Deliberation → Deliberation} {g : Tally → Tally}
    (recording : Recording P station path begun owed n)
    (does : ∀ d, (f d).tally = g d.tally ∧ (f d).handed = d.handed)
    (counted : Counted station (g n.mind.tally))
    (kept : (g n.mind.tally).trace.counted = n.mind.tally.trace.counted) :
    Yields (minding f) n fun _ m => Recording P station path begun owed m := by
  obtain ⟨tally, handed⟩ := does n.mind
  refine Yields.change (recording.aside recording.sound ?_ ?_ ?_ rfl)
  · exact tally ▸ counted
  · exact (congrArg (fun y => y.trace.counted) tally).trans kept
  · rw [NodeSteps.spoken, NodeSteps.spoken, handed]
    exact List.Subset.refl _

theorem Recording.tallying {g : Tally → Tally}
    (recording : Recording P station path begun owed n)
    (counted : Counted station (g n.mind.tally))
    (kept : (g n.mind.tally).trace.counted = n.mind.tally.trace.counted) :
    Yields (tallying g) n fun _ m => Recording P station path begun owed m :=
  recording.changing (fun _ => ⟨rfl, rfl⟩) counted kept

theorem Recording.minding {f : Deliberation → Deliberation}
    (recording : Recording P station path begun owed n)
    (aside : ∀ d, (f d).tally = d.tally ∧ (f d).handed = d.handed) :
    Yields (minding f) n fun _ m => Recording P station path begun owed m :=
  recording.changing (g := id) aside recording.counted rfl

/-- An offer counts nothing, or a first vote of its author, which is owed then. -/
theorem Recording.offering (recording : Recording P station path begun none n) (frame : Bytes)
    (clock : Clock) : Yields (offering station frame clock) n fun learned m =>
      Recording P station path begun (learned.bindingFrom.map fun member => (member, frame)) m := by
  rintro _ _ ⟨⟩
  have counted := recording.counted.offered frame clock
  rcases offered_cases station n.mind.tally frame clock with ⟨none, listed⟩ |
    ⟨member, o, case, some, casts, ok, grown, same⟩
  · rw [none]
    obtain ⟨listed, same⟩ := listed
    refine recording.aside recording.sound counted ?_ (List.Subset.refl _) rfl
    rw [same]
  · rw [some]
    obtain ⟨-, -, fresh, -⟩ := accept_timely ok grown
    have first : ∀ other, (member, other) ∉ n.mind.tally.trace.counted := by
      intro other mem
      refine fresh ?_
      rw [casts.author]
      exact (voted_iff recording.counted casts.member_lt).mpr ⟨other, mem⟩
    have now : (n.mind.tally.offered station frame clock).2.trace.counted =
        n.mind.tally.trace.counted ++ [(member, frame)] := by rw [same]; rfl
    refine ⟨recording.sound, counted, recording.spoken, ?_, ?_, ?_⟩
    · rw [now]
      intro p mem
      rcases List.mem_append.mp mem with old | new
      · rcases recording.noted p old with done | own | opposed | owed | noted
        · exact Or.inl done
        · exact Or.inr (Or.inl own)
        · exact Or.inr (Or.inr (Or.inl opposed))
        · cases owed
        · exact Or.inr (Or.inr (Or.inr (Or.inr noted)))
      · rw [List.mem_singleton.mp new]
        exact Or.inr (Or.inr (Or.inr (Or.inl rfl)))
    · rintro _ ⟨⟩
      rw [now]
      refine ⟨casts.member_lt, List.mem_append_right _ List.mem_cons_self, fun other mem => ?_⟩
      rcases List.mem_append.mp mem with old | new
      · exact absurd old (first other)
      · exact congrArg Prod.snd (List.mem_singleton.mp new)
    · intro other small owes
      refine recording.others other small fun held mem => ?_
      rw [now] at owes
      obtain ⟨rfl, rfl⟩ : member = other ∧ frame = held := by
        simpa using owes held (List.mem_append_left _ mem)
      exact absurd mem (first frame)

/-- What a call of `witness` sets out to record is of its author alone. -/
theorem witnessed_other {s : State} {author other : String} (frame : Bytes)
    (apart : author ≠ other) :
    (s.applyAll (recordable P (Op.entries s (.witness author frame)))).witnessed[other]? =
      s.witnessed[other]? := by
  rw [Op.entries]
  split
  · rfl
  · cases fits : (P.format.encode (.witnessed author frame)).isSome with
    | false => simp [recordable, fits]
    | true => simp [recordable, fits, State.apply, get_insertIfNew, apart]

/-- The record is made if it can be and there is none. -/
theorem witnessed_new {s : State} {author : String} {frame : Bytes}
    (absent : s.witnessed[author]? = none)
    (fits : (P.format.encode (.witnessed author frame)).isSome = true) :
    (s.applyAll (recordable P (Op.entries s (.witness author frame)))).witnessed[author]? =
      some frame := by
  have unknown : s.witnessed.contains author = false := (not_contains_iff _ _).mpr absent
  simp [Op.entries, unknown, recordable, fits, apply_witnessed unknown]

/-- What is owed is put on record, unless something else is there already. -/
theorem Recording.witnessing {env : Env} (calls : Mild env)
    (apart : path.extension ≠ some "compacting") {learned : Admitted} {frame : Bytes}
    (recording : Recording P station path begun
      (learned.bindingFrom.map fun member => (member, frame)) n) :
    Yields (witnessing P station env learned frame) n fun _ m =>
      Recording P station path begun none m := by
  unfold NodeLoop.witnessing
  cases found : learned.bindingFrom with
  | none =>
    rw [found] at recording
    exact Yields.pure recording
  | some member =>
    rw [found] at recording
    obtain ⟨small, listed, only⟩ := recording.alone (member, frame) rfl
    have told := witness_told (P := P) recording.sound calls apart (station.memberId member) frame
    refine Yields.bind (Yields.caught _) ?_
    rintro _ m ⟨left, lives, -⟩
    obtain ⟨-, ⟨dead, -⟩ | ⟨-, sound, state⟩⟩ := told
    · exact absurd dead lives
    have mind : m.mind = n.mind := by rw [left]; rfl
    have told : NodeSteps.spoken m = NodeSteps.spoken n := by rw [NodeSteps.spoken, mind]; rfl
    have running : m.desk.running =
        (witness P env (station.memberId member) frame n.desk.running).2 := by rw [left]; rfl
    rw [← running] at sound state
    refine Yields.pure ⟨sound, mind ▸ recording.counted, ?_, ?_, by rintro _ ⟨⟩, ?_⟩
    · rw [told]
      exact recording.spoken
    · rw [mind]
      intro p mem
      rcases recording.noted p mem with done | own | opposed | owed | noted
      · exact Or.inl done
      · refine Or.inr (Or.inl (ownVote_grows ?_ own))
        rw [told]
        exact List.Subset.refl _
      · exact Or.inr (Or.inr (Or.inl opposed))
      · cases owed
        by_cases free : unopposed station P begun.desk.running.journal.state (member, frame) = true
        · refine Or.inr (Or.inr (Or.inr (Or.inr ?_)))
          have before := recording.others member small fun other listed =>
            congrArg (fun b => some (member, b)) (only other listed).symm
          rw [records, state]
          unfold unopposed at free
          split at free
          · rename_i held here
            rw [← of_decide_eq_true free]
            exact witnessed_applyAll _ _ (before.trans here)
          · rename_i here
            exact witnessed_new (before.trans here) free
        · exact Or.inr (Or.inr (Or.inl (Bool.eq_false_iff.mpr free)))
      · refine Or.inr (Or.inr (Or.inr (Or.inr ?_)))
        rw [records, state]
        exact witnessed_applyAll _ _ noted
    · rw [mind, records, state]
      intro other seated none
      have differs : station.memberId member ≠ station.memberId other := by
        intro same
        cases Acknowledgements.memberId_inj small seated same
        cases none frame listed
      rw [witnessed_other frame differs]
      exact recording.others other seated fun held mem => absurd (none held mem) (by simp)

end steps

/-! ## The parts of a turn -/

section parts

variable {begun n : Node} {t : Turn} {anchor : Nat} (mild : ∀ spot i, Mild (t.envs spot i))
  (apart : path.extension ≠ some "compacting")

theorem held_counted (y : Tally) (learned : Admitted) (frame : Bytes) :
    (y.held learned frame).trace.counted = y.trace.counted := by
  obtain ⟨early, taken, same⟩ := held_rest y learned frame
  rw [same]

theorem received_counted (y : Tally) (frame : Bytes) :
    (y.hasReceived station frame).trace.counted = y.trace.counted := by
  obtain ⟨received, same⟩ := hasReceived_rest station y frame
  rw [same]

theorem crediting {learned : Admitted} {owed : Option (Nat × Bytes)}
    (recording : Recording P station path begun owed n) :
    Yields (minding fun d => (d.heardFrom learned).acknowledgedBy station learned) n fun _ m =>
      Recording P station path begun owed m := by
  refine recording.minding fun d => ?_
  obtain ⟨tally, handed⟩ := heardFrom_aside d learned
  obtain ⟨tally', handed'⟩ :
      ((d.heardFrom learned).acknowledgedBy station learned).tally = (d.heardFrom learned).tally ∧
        ((d.heardFrom learned).acknowledgedBy station learned).handed =
          (d.heardFrom learned).handed := acknowledgedBy_aside _ learned
  exact ⟨tally'.trans tally, handed'.trans handed⟩

include apart

variable (P) (station) in
/-- What is asked of a part that neither counts nor records. -/
theorem nothing_lasting : Lasting P station path fun _ _ => True :=
  Lasting.journal (J := fun _ => True) apart fun _ _ => trivial

include mild

theorem drain_records (early : List (Nat × Bytes))
    (recording : Recording P station path begun none n) :
    Yields (drain P station t early) n fun _ m => Recording P station path begun none m := by
  induction early generalizing n with
  | nil => exact Yields.pure recording
  | cons p early ih =>
    obtain ⟨member, frame⟩ := p
    have counts (y : Tally) (clock : Clock) :
        (y.draining clock).trace.counted = y.trace.counted := by
      obtain ⟨lapsed, same⟩ := draining_rest y clock
      rw [same]
    refine Yields.bind (recording.tallying (recording.counted.draining _) (counts _ _))
      fun _ m begun => ?_
    exact Yields.bind (begun.offering _ _) fun learned k offered =>
      Yields.bind (crediting offered) fun _ l credited =>
        Yields.bind (credited.witnessing (mild _ _) apart) fun _ u witnessed => ih witnessed

theorem closing_records (recording : Recording P station path begun none n) :
    Yields (NodeLoop.closing P station t) n fun _ m => Recording P station path begun none m := by
  refine Yields.reading ?_
  split
  · split
    · exact Yields.pure recording
    · rename_i case ok
      have counted := recording.counted
      have shut : Counted station { n.mind.tally with case, closed := true, early := ∅ } := by
        obtain ⟨-, -, rfl⟩ := Case.closeConsultation_ok ok
        exact ⟨counted.subject, Case.orderly_close counted.orderly ok, counted.casts⟩
      exact Yields.bind (recording.tallying shut rfl) fun _ m shut =>
        drain_records mild apart _ shut
  · exact Yields.pure recording

omit mild in
theorem remembering {env : Env} (calls : Mild env) {owed : Option (Nat × Bytes)} (sender : Nat)
    (sequence : UInt64) (recording : Recording P station path begun owed n) :
    Yields (rememberSeen P env sender sequence) n fun _ m =>
      Recording P station path begun owed m :=
  recording.part (yields_rememberSeen _ _ _)
    (safe_rememberSeen (J := fun _ => True) apart (fun _ _ => trivial) calls _ _)
    (keeps_rememberSeen _ _ _) recording.counted rfl

variable (station) in
omit mild apart in
/-- What the node sends itself is counted as its own vote at most. -/
theorem sending_counted (y : Tally) (stage : Stage) (frame : Bytes) :
    (sending station t y stage frame).trace.counted = y.trace.counted ∨
      ∃ member, (sending station t y stage frame).trace.counted =
        y.trace.counted ++ [(member, frame)] := by
  obtain ⟨windows, marked⟩ := ownMarked_same station y frame
  rw [sending, admittingOwn, marked]
  split
  · rcases offered_cases station (Tally.admittedOwn { y with windows } stage) frame
        (t.clock (.own stage)) with ⟨-, listed, same⟩ | ⟨member, o, case, -, -, -, -, same⟩
    · rw [same]
      exact Or.inl rfl
    · rw [same]
      exact Or.inr ⟨member, rfl⟩
  · exact Or.inl rfl

theorem speak_records (stage : Stage) (recording : Recording P station path begun none n) :
    Yields (speak P station t anchor stage) n fun _ m =>
      Recording P station path begun none m := by
  intro a m ran
  have spoke := yields_speak anchor stage a m ran
  have sound := ((safe_speak (nothing_lasting P station apart) mild apart anchor stage n
    ⟨recording.sound, trivial⟩).returned a m ran).1
  have same : records (speak P station t anchor stage n).2 = records n :=
    keeps_speak stage n rfl (by rw [ran]; rintro ⟨⟩)
  rw [ran] at same
  cases spoke with
  | silent became =>
    refine recording.aside sound ?_ (by rw [became.tally]) ?_ same
    · rw [became.tally]
      exact recording.counted
    · rw [became.spoken]
      exact List.Subset.refl _
  | @sent frame _ _ _ tally _ told =>
    have grown : spoken n ⊆ spoken m := by
      rw [told]
      exact List.subset_append_left _ _
    have more : n.mind.tally.trace.counted ⊆ m.mind.tally.trace.counted := by
      rw [tally]
      rcases sending_counted station n.mind.tally stage frame with kept | ⟨member, counted⟩
      · rw [kept]
        exact List.Subset.refl _
      · rw [counted]
        exact List.subset_append_left _ _
    refine ⟨sound, ?_, List.Subset.trans recording.spoken grown, ?_, by rintro _ ⟨⟩, ?_⟩
    · rw [tally]
      exact recording.counted.sending t stage frame
    · have old : ∀ p ∈ n.mind.tally.trace.counted, _ := fun p mem =>
        (recording.noted p mem).imp_right fun rest => rest.imp_left (ownVote_grows grown)
      rw [← same] at old
      intro p mem
      rw [tally] at mem
      rcases sending_counted station n.mind.tally stage frame with kept | ⟨member, counted⟩
      · exact old p (kept ▸ mem)
      · rw [counted] at mem
        rcases List.mem_append.mp mem with before | new
        · exact old p before
        · rw [List.mem_singleton.mp new]
          refine Or.inr (Or.inl ?_)
          simp [ownVote, told]
    · rw [same]
      intro member small none
      exact recording.others member small fun other listed => none other (more listed)

theorem learn_records {frame : Bytes} {learned : Admitted}
    (recording : Recording P station path begun
      (learned.bindingFrom.map fun member => (member, frame)) n)
    (unread : learned.verified = none → learned.bindingFrom = none) :
    Yields (learn P station t anchor frame learned) n fun _ m =>
      Recording P station path begun none m := by
  unfold learn
  cases found : learned.verified with
  | none =>
    rw [unread found] at recording
    exact Yields.pure recording
  | some verified =>
    obtain ⟨sender, sequence⟩ := verified
    refine Yields.bind (recording.tallying (recording.counted.marked _ _) rfl) fun _ m marked =>
      Yields.bind (remembering apart (mild _ _) _ _ marked) fun _ k remembered =>
        Yields.bind (remembered.tallying (remembered.counted.held _ _) (held_counted _ _ _))
          fun _ l kept => Yields.reading ?_
    exact Yields.bind (kept.minding fun d => answering_aside d _ _ _ _ _) fun _ u answered =>
      Yields.bind (answered.minding fun d => compared_aside d _ _ _ _) fun _ v compared =>
        Yields.bind (crediting compared) fun _ w credited =>
          credited.witnessing (mild _ _) apart

theorem hear_records (recording : Recording P station path begun none n) :
    Yields (hear P station t anchor) n fun _ m => Recording P station path begun none m := by
  have ends {k : Node} (recording : Recording P station path begun none k) :
      Yields (ending station t anchor) k fun _ m => Recording P station path begun none m :=
    recording.part (yields_ending anchor) (safe_ending (nothing_lasting P station apart) anchor)
      keeps_ending recording.counted rfl
  unfold hear
  split
  · exact ends recording
  rename_i frame _
  refine Yields.reading (Yields.bind (recording.tallying (recording.counted.hasReceived frame)
    (received_counted _ _)) fun _ m received => ?_)
  split
  · exact Yields.pure received
  split
  · exact Yields.bind (received.tallying (received.counted.marked _ _) rfl) fun _ k marked =>
      Yields.bind (remembering apart (mild _ _) _ _ marked) fun _ l remembered =>
        remembered.minding fun d => openedAgain_aside d _ _ _
  · have offering : Yields (offering station frame (t.clock .received)) m fun learned k =>
        Recording P station path begun (learned.bindingFrom.map fun member => (member, frame)) k ∧
          (learned.verified = none → learned.bindingFrom = none) := by
      intro learned k ran
      refine ⟨received.offering frame _ learned k ran, ?_⟩
      cases ran
      rw [QuietParts.offered_fst]
      exact Acknowledgements.unverified_uncounted
    exact Yields.bind offering fun learned k offered =>
      Yields.bind (learn_records mild apart offered.1 offered.2) fun _ l learnt => ends learnt

theorem await_records (recording : Recording P station path begun none n) :
    Yields (await P station t) n fun _ m => Recording P station path begun none m := by
  unfold await
  split
  · exact Yields.pure recording
  rename_i frame _
  refine Yields.reading ?_
  split
  · exact Yields.pure recording
  split
  · exact Yields.bind (recording.tallying (recording.counted.marked _ _) rfl) fun _ m marked =>
      Yields.bind (remembering apart (mild _ _) _ _ marked) fun _ k remembered =>
        remembered.changing (g := fun y => y.hasReceived station frame) (fun _ => ⟨rfl, rfl⟩)
          (remembered.counted.hasReceived frame) (received_counted _ _)
  · split
    · exact Yields.pure recording
    · exact Yields.bind (recording.tallying (recording.counted.marked _ _) rfl) fun _ m marked =>
        Yields.bind (remembering apart (mild _ _) _ _ marked) fun _ k remembered =>
          Yields.bind (remembered.changing (g := fun y => y.hasReceived station frame)
            (fun _ => ⟨rfl, rfl⟩) (remembered.counted.hasReceived frame) (received_counted _ _))
              fun _ l joined => Yields.bind (joined.offering _ _) fun learned u offered =>
                Yields.bind (offered.tallying (offered.counted.held _ _) (held_counted _ _ _))
                  fun _ v kept => Yields.bind (crediting kept) fun _ w credited =>
                    credited.witnessing (mild _ _) apart

/-- In a turn that is survived, each vote that is newly counted is put on record, if it is not
the node's own and was not opposed. -/
theorem turn_records (recording : Recording P station path begun none n) :
    Yields (turn P station t) n fun _ m => Recording P station path begun none m := by
  have lasting := nothing_lasting P station apart
  refine Yields.bind (recording.part yields_openRound (safe_openRound lasting mild apart)
    keeps_openRound recording.counted rfl) fun _ m opened => Yields.reading ?_
  split
  · exact await_records mild apart opened
  · exact Yields.bind (closing_records mild apart opened) fun _ k shut =>
      Yields.bind (speak_records mild apart _ shut) fun _ l first =>
        Yields.bind (speak_records mild apart _ first) fun _ u second =>
          Yields.bind (speak_records mild apart _ second) fun _ v third =>
            Yields.bind (third.part (yields_askForRepair _)
              (safe_askForRepair lasting mild apart _) keeps_askForRepair third.counted rfl)
                fun _ w asked => Yields.bind (asked.part (yields_resend _) (safe_resend lasting _)
                  keeps_resend asked.counted rfl) fun _ x resent => hear_records mild apart resent

end parts

end WitnessedVotes
