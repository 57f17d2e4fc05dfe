import Lcq.Undisturbed
import Mathlib.Data.List.Forall2

/-!
# Whom a node's case counts

However a frame comes to the state machine, live, held until the close,
restored or a node's own, it comes through one door. Behind that door every
counted vote is a genuine binding frame of its author, and no author has two.
-/

namespace Supporters

open Admission ByteFormat Contracts FileSystem JournalRecords JournalState LogJournal NodeLoop
  NodeSteps OrderedMap Program Transitions Undisturbed Utterances Wire

variable {P : Postcard} {C : Primitives} {station : Station C}

/-- A genuine binding frame of a member and the opinion it was counted as. -/
structure Casts (station : Station C) (member : Nat) (frame : Bytes) (o : Opinion) : Prop where
  genuine : ∃ envelope, Genuine station frame envelope ∧
    envelope.authorIndex.toNat = member ∧ envelope.stage = stageCode .bindingSupport ∧
    verdictOf envelope.verdict = some o.verdict
  author : o.author = station.memberId member
  subject : o.subject = station.subject

theorem forall₂_mem_right {α β : Type} {R : α → β → Prop} {l : List α} {m : List β} {b : β}
    (related : List.Forall₂ R l m) (mem : b ∈ m) : ∃ a ∈ l, R a b := by
  induction related with
  | nil => cases mem
  | cons here _ ih =>
    rcases List.mem_cons.mp mem with rfl | mem
    · exact ⟨_, List.mem_cons_self, here⟩
    · obtain ⟨a, inside, found⟩ := ih mem
      exact ⟨a, List.mem_cons_of_mem _ inside, found⟩

theorem forall₂_mem_left {α β : Type} {R : α → β → Prop} {l : List α} {m : List β} {a : α}
    (related : List.Forall₂ R l m) (mem : a ∈ l) : ∃ b ∈ m, R a b :=
  forall₂_mem_right related.flip mem

/-- The case is of the station's subject, and its votes are those of the frames counted. -/
structure Counted (station : Station C) (y : Tally) : Prop where
  subject : y.case.subject = station.subject
  orderly : y.case.Orderly
  casts : List.Forall₂ (fun p o => Casts station p.1 p.2 o) y.trace.counted y.case.binding

theorem Casts.member_lt {member : Nat} {frame : Bytes} {o : Opinion}
    (casts : Casts station member frame o) : member < station.fleet.size := by
  obtain ⟨envelope, genuine, rfl, -⟩ := casts.genuine
  exact genuine.author_lt

theorem stageOf_binding {code : UInt8} (known : stageOf code = some .bindingSupport) :
    code = stageCode .bindingSupport := by
  unfold stageOf at known
  split at known
  · cases known
  · cases known
  · rfl
  · cases known

/-! ## The door -/

theorem accept_subject {case after : Case} {o : Opinion} {clock : Clock}
    (ok : case.accept o clock = .ok after) : after.subject = case.subject := by
  obtain ⟨-, -, ⟨-, -, listed, rfl⟩ | ⟨-, -, -, -, rfl⟩⟩ := Case.accept_ok ok
  · rfl
  · rfl

/-- What an offer of a genuine frame makes of the case: nothing to its votes, or one more of
the frame's author. -/
theorem offer_casts {frame : Bytes} {envelope : CompactEnvelope}
    (genuine : Genuine station frame envelope) (case : Case) (clock : Clock) :
    let out := offer station envelope case clock
    (out.1.bindingFrom = none ∧ (out.2 = case ∨ ∃ listed, out.2 = { case with
        independent := listed })) ∨
      ∃ o, out.1.bindingFrom = some envelope.authorIndex.toNat ∧
        Casts station envelope.authorIndex.toNat frame o ∧ case.accept o clock = .ok out.2 ∧
          out.2.binding = case.binding ++ [o] := by
  intro out
  have made : out = offer station envelope case clock := rfl
  unfold offer at made
  dsimp only at made
  split at made
  · rename_i stage verdict stageKnown verdictKnown
    split at made
    · rename_i after outcome
      obtain ⟨-, -, ⟨other, -, listed, grown⟩ | ⟨binding, -, -, -, grown⟩⟩ :=
        Case.accept_ok outcome
      · rw [if_neg other] at made
        rw [made]
        exact Or.inl ⟨rfl, Or.inr ⟨listed, grown⟩⟩
      · rw [if_pos binding] at made
        rw [made]
        have known : stageOf envelope.stage = some .bindingSupport := stageKnown.trans
          (congrArg some binding)
        refine Or.inr ⟨_, rfl, ⟨⟨envelope, genuine, rfl, stageOf_binding known, verdictKnown⟩,
          rfl, rfl⟩, outcome, ?_⟩
        rw [grown]
    · rw [made]
      exact Or.inl ⟨rfl, Or.inl rfl⟩
  · rw [made]
    exact Or.inl ⟨rfl, Or.inl rfl⟩

/-- Offering a frame, whatever it is and wherever it is from. -/
theorem Counted.offered {y : Tally} (counted : Counted station y) (frame : Bytes)
    (clock : Clock) : Counted station (y.offered station frame clock).2 := by
  by_cases known : ∃ envelope, Genuine station frame envelope
  · obtain ⟨envelope, genuine⟩ := known
    unfold Tally.offered
    rw [admit_genuine genuine]
    rcases offer_casts genuine y.case clock with ⟨none, left⟩ | ⟨o, some, casts, ok, grown⟩
    · dsimp only
      rw [none]
      rcases left with same | ⟨listed, other⟩
      · rw [same]
        exact counted
      · rw [other]
        exact ⟨counted.subject, ⟨counted.orderly.early, counted.orderly.once,
          counted.orderly.voted, counted.orderly.staged⟩, counted.casts⟩
    · dsimp only
      rw [some]
      refine ⟨?_, Case.orderly_accept counted.orderly ok, ?_⟩
      · exact (accept_subject ok).trans counted.subject
      · dsimp only
        rw [grown]
        exact List.rel_append counted.casts (.cons casts .nil)
  · have other : ∀ envelope, ¬ Genuine station frame envelope := by simpa using known
    unfold Tally.offered
    rw [admit_other other]
    exact counted

/-! ## The parts of a turn -/

theorem Counted.aside {y z : Tally} (counted : Counted station y) (case : z.case = y.case)
    (same : z.trace.counted = y.trace.counted) : Counted station z := by
  refine ⟨case ▸ counted.subject, case ▸ counted.orderly, ?_⟩
  rw [case, same]
  exact counted.casts

theorem Counted.marked {y : Tally} (counted : Counted station y) (member : Nat)
    (sequence : UInt64) : Counted station (y.marked member sequence) :=
  counted.aside rfl rfl

theorem Counted.hasReceived {y : Tally} (counted : Counted station y) (frame : Bytes) :
    Counted station (y.hasReceived station frame) := by
  obtain ⟨received, same⟩ := hasReceived_rest station y frame
  rw [same]
  exact counted.aside rfl rfl

theorem Counted.held {y : Tally} (counted : Counted station y) (learned : Admitted)
    (frame : Bytes) : Counted station (y.held learned frame) := by
  obtain ⟨early, taken, same⟩ := held_rest y learned frame
  rw [same]
  exact counted.aside rfl rfl

theorem Counted.draining {y : Tally} (counted : Counted station y) (clock : Clock) :
    Counted station (y.draining clock) := by
  obtain ⟨lapsed, same⟩ := draining_rest y clock
  rw [same]
  exact counted.aside rfl rfl

theorem Counted.awaiting {y : Tally} (counted : Counted station y) (t : Turn) :
    Counted station (NodeSteps.awaiting station t y) := by
  unfold NodeSteps.awaiting
  split
  · exact counted
  · split
    · exact counted
    · split
      · exact (counted.marked _ _).hasReceived _
      · split
        · exact counted
        · exact (((counted.marked _ _).hasReceived _).offered _ _).held _ _

theorem Counted.closing {y : Tally} (counted : Counted station y) (t : Turn) :
    Counted station (NodeSteps.closing station t y) := by
  refine closing_keeps (fun _ counted => (counted.draining _).offered _ _) counted
    fun case ok => ?_
  obtain ⟨-, -, rfl⟩ := Case.closeConsultation_ok ok
  exact ⟨counted.subject, Case.orderly_close counted.orderly ok, counted.casts⟩

theorem Counted.sending {y : Tally} (counted : Counted station y) (t : Turn) (stage : Stage)
    (frame : Bytes) : Counted station (NodeSteps.sending station t y stage frame) := by
  have marked : Counted station (y.ownMarked station frame) := by
    unfold Tally.ownMarked
    split
    · exact counted
    · exact counted.marked _ _
  unfold NodeSteps.sending NodeSteps.admittingOwn
  split
  · have admitted : Counted station ((y.ownMarked station frame).admittedOwn stage) :=
      marked.aside rfl rfl
    exact admitted.offered _ _
  · exact marked

theorem Counted.hearing {y : Tally} (counted : Counted station y) (t : Turn) :
    Counted station (NodeSteps.hearing station t y) := by
  unfold NodeSteps.hearing
  split
  · exact counted
  · rename_i frame _
    have read := counted.hasReceived frame
    dsimp only
    split
    · exact read
    · split
      · exact read.marked _ _
      · unfold NodeSteps.reading
        have offered := read.offered frame (t.clock .received)
        generalize Tally.offered station (y.hasReceived station frame) frame
          (t.clock .received) = out at offered
        dsimp only
        split
        · exact offered
        · exact (offered.marked _ _).held _ _

theorem Counted.begin (state : State) (taken : List (Nat × Bytes)) :
    Counted station (.begin station state taken) :=
  ⟨rfl, Case.orderly_open _ _, .nil⟩

/-! ## Lives -/

/-- A life that is going on counts genuine votes alone. -/
def Sincere (station : Station C) : Lives → Prop
  | .dead .. => True
  | .alive node => Counted station node.mind.tally

theorem counted_kept (t : Turn) : TallyKept station t (Counted station) where
  awaiting counted := counted.awaiting t
  closing counted := counted.closing t
  sending stage frame counted := counted.sending t stage frame
  hearing counted := counted.hearing t

theorem counted_turn {t : Turn} {n : Node} (counted : Counted station n.mind.tally) :
    Yields (turn P station t) n fun _ m => Counted station m.mind.tally :=
  (counted_kept t).turn counted

theorem sincere_next (path : Path) {lives : Lives} (sincere : Sincere station lives)
    (happening : Happening) : Sincere station (lives.next P station path happening) := by
  cases lives with
  | dead disk sealed past =>
    cases happening with
    | boot entropy opening entering =>
      rw [Lives.next]
      split
      · trivial
      · exact Counted.begin _ _
    | turn t => trivial
    | crash => trivial
  | alive node =>
    cases happening with
    | boot entropy opening entering => exact sincere
    | crash => trivial
    | turn t =>
      rw [Lives.next]
      split
      · exact sincere
      · split
        · trivial
        · rename_i ran
          exact counted_turn sincere _ _ ran

theorem sincere_after (path : Path) {lives : Lives} (sincere : Sincere station lives)
    (happenings : List Happening) :
    Sincere station (lives.after P station path happenings) := by
  induction happenings generalizing lives with
  | nil => exact sincere
  | cons happening rest ih => exact ih (sincere_next path sincere happening)

/-- Whatever the radio hands over, in whatever order and over however many lives: every
supporter a node counts has cast a genuine binding frame that says support, and is counted
once. -/
theorem no_fabricated_supporter (P : Postcard) (station : Station C) (path : Path)
    (disk : Disk Path) (sealed : List Sealing) (past : Past) (happenings : List Happening) :
    let start : Lives := .dead disk sealed past
    ∀ node, start.after P station path happenings = .alive node →
      node.mind.tally.case.bindingSupporters.Nodup ∧
        ∀ author ∈ node.mind.tally.case.bindingSupporters,
          ∃ member frame envelope, (member, frame) ∈ node.mind.tally.trace.counted ∧
            author = station.memberId member ∧ Genuine station frame envelope ∧
            envelope.authorIndex.toNat = member ∧
            envelope.stage = stageCode .bindingSupport ∧ verdictOf envelope.verdict = some .support := by
  intro start node reached
  have counted : Counted station node.mind.tally := by
    have sincere := @sincere_after P C station path start trivial happenings
    rw [reached] at sincere
    exact sincere
  constructor
  · have once := counted.orderly.once
    exact once.sublist (List.filter_sublist.map _)
  · intro author mem
    obtain ⟨o, inside, rfl⟩ := List.mem_map.mp mem
    obtain ⟨inside, supports⟩ := List.mem_filter.mp inside
    obtain ⟨⟨member, frame⟩, listed, casts⟩ := forall₂_mem_right counted.casts inside
    obtain ⟨envelope, genuine, index, stage, verdict⟩ := casts.genuine
    refine ⟨member, frame, envelope, listed, casts.author, genuine, index, stage, ?_⟩
    rw [verdict]
    cases h : o.verdict with
    | support => rfl
    | _ => rw [h] at supports; cases supports

theorem supporters_some {lives : Lives} {author : String} {others : List String}
    (voted : supporters lives = author :: others) :
    ∃ node, lives = .alive node ∧ node.mind.tally.case.bindingSupporters = author :: others := by
  cases lives with
  | dead disk sealed past => cases voted
  | alive node => exact ⟨node, rfl, voted⟩

/-- A vote is heard twice in a round and counted once, for its author's frame. -/
theorem no_fabricated_supporter_heard :
    let vote := voiced 1 3 1 5 ⟨0, 0⟩
    let start : Lives := .dead Disk.empty [] ⟨[], [], []⟩
    let happenings := openedThenHeard (500000000000, vote) (510000000000, vote)
    ∃ node, start.after postcard stationed ⟨"member", some "journal"⟩ happenings =
        .alive node ∧
      node.mind.tally.case.bindingSupporters = ["b"] ∧
      ∃ member frame envelope, (member, frame) ∈ node.mind.tally.trace.counted ∧
        "b" = stationed.memberId member ∧ Genuine stationed frame envelope := by
  intro vote start happenings
  have counts : supporters (start.after postcard stationed ⟨"member", some "journal"⟩
      happenings) = ["b"] := by
    decide +kernel
  obtain ⟨node, reached, counted⟩ := supporters_some counts
  obtain ⟨-, cast⟩ := no_fabricated_supporter postcard stationed
    ⟨"member", some "journal"⟩ Disk.empty [] ⟨[], [], []⟩ happenings node reached
  obtain ⟨member, frame, envelope, listed, named, genuine, -⟩ :=
    cast "b" (by rw [counted]; exact List.mem_cons_self)
  exact ⟨node, reached, counted, member, frame, envelope, listed, named, genuine⟩

end Supporters
