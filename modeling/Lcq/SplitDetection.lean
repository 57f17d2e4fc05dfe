import Lcq.LateJoining
import Lcq.QuietParts
import Lcq.Undisturbed

/-!
# One liar and a split

Two members that disagree with a node's round make it believe the fleet is
split. Whose frames disagree depends on the label the node itself has taken,
and on when frames arrive: as long as those of honest members do not, one liar
is not enough.
-/

namespace SplitDetection

open Admission ByteFormat Contracts FileSystem JournalRecords LateJoining LogJournal NodeLoop
  NodeSteps OrderedMap Program QuietParts Schedule Transitions Undisturbed Utterances Wire

section conditions

variable (P : Postcard) {C : Primitives} (station : Station C)

/-- Who is found to disagree when a frame that opens no round is compared with a node's own. -/
def differing (anchor : Nat) (round : RoundId) (learned : Admitted) (frame : Bytes)
    (now : Nat → Nat) : Option Nat :=
  match learned.verified with
  | none => none
  | some (sender, _) =>
    if (learned.round.isSet && decide (learned.round ≠ round)) ||
        Deliberation.offBeat station anchor learned sender frame now then some sender
    else none

/-- Whose frame, handed over in a round, is counted as disagreeing with it. -/
def disagreeing (t : Turn) (anchor : Nat) (k : Node) : Option Nat :=
  match t.received with
  | none => none
  | some frame =>
    if dropped station frame k.mind.tally = true then none
    else
      match triggerRound station frame with
      | some (other, opener, _) => if other ≠ k.mind.round then some opener else none
      | none =>
        differing station anchor k.mind.round
          (admitFrame station frame k.mind.tally.case (t.clock .received)).1 frame
          fun i => t.now .received (i + 1)

variable (common : RoundId) (liar : Nat)

/-- Every frame received that verifies and is not the liar's bears the common round's label. -/
def labelled : Happening → Bool
  | .turn t => t.received.all fun frame =>
    match verified station frame with
    | none => true
    | some envelope => decide (envelope.authorIndex.toNat = liar ∨ envelope.round = common)
  | _ => true

/-- A frame that verifies, is not the liar's and is read in a round finds the node under the
common label, and does not come off the beat. -/
def heeded (t : Turn) (n : Node) : Bool :=
  match untilRadio P station t n with
  | (.ok (some anchor), k) => t.received.all fun frame =>
    dropped station frame k.mind.tally ||
      match verified station frame with
      | none => true
      | some envelope => decide (envelope.authorIndex.toNat = liar) ||
        decide (k.mind.round = common) && ((triggerRound station frame).isSome ||
          !Deliberation.offBeat station anchor
            (admitFrame station frame k.mind.tally.case (t.clock .received)).1
            envelope.authorIndex.toNat frame (fun i => t.now .received (i + 1)))
  | _ => true

def heededNext : Lives → Happening → Bool
  | .alive node, .turn t => node.mind.finished || heeded P station common liar t node
  | _, _ => true

/-- All through a run. -/
def alwaysHeeded (path : Path) : Lives → List Happening → Bool
  | _, [] => true
  | lives, happening :: rest => heededNext P station common liar lives happening &&
      alwaysHeeded path (lives.next P station path happening) rest

end conditions

variable {P : Postcard} {C : Primitives} {station : Station C}

/-! ## Whose frames disagree -/

theorem triggerRound_round {frame : Bytes} {envelope : CompactEnvelope} {round : RoundId}
    {opener : Nat} {sequence : UInt64} (genuine : Genuine station frame envelope)
    (trigger : triggerRound station frame = some (round, opener, sequence)) :
    round = envelope.round ∧ opener = envelope.authorIndex.toNat := by
  obtain ⟨plain, signature, opened, decoded, -, -⟩ := genuine_iff.mp genuine
  unfold triggerRound at trigger
  rw [opened] at trigger
  dsimp only at trigger
  rw [decoded] at trigger
  dsimp only at trigger
  split at trigger
  · cases trigger
  split at trigger
  · cases trigger
  split at trigger
  · cases trigger
  split at trigger
  · cases trigger
  · cases trigger
    exact ⟨rfl, rfl⟩

/-- What disagrees is genuine. -/
theorem disagreeing_genuine {t : Turn} {anchor member : Nat} {k : Node}
    (disagrees : disagreeing station t anchor k = some member) :
    ∃ frame envelope, t.received = some frame ∧ dropped station frame k.mind.tally = false ∧
      Genuine station frame envelope ∧ envelope.authorIndex.toNat = member ∧
      (envelope.round ≠ k.mind.round ∨ triggerRound station frame = none ∧
        Deliberation.offBeat station anchor
          (admitFrame station frame k.mind.tally.case (t.clock .received)).1 member frame
          (fun i => t.now .received (i + 1)) = true) := by
  unfold disagreeing at disagrees
  split at disagrees
  · cases disagrees
  rename_i frame received
  split at disagrees
  · cases disagrees
  rename_i kept
  have kept : dropped station frame k.mind.tally = false := by simpa using kept
  split at disagrees
  · rename_i other opener sequence trigger
    obtain ⟨envelope, genuine, -⟩ := triggerRound_some trigger
    obtain ⟨rfl, rfl⟩ := triggerRound_round genuine trigger
    split at disagrees
    · rename_i foreign
      cases disagrees
      exact ⟨frame, envelope, received, kept, genuine, rfl, Or.inl foreign⟩
    · cases disagrees
  · rename_i closed
    unfold differing at disagrees
    cases reading : verified station frame with
    | none =>
      have other : ∀ envelope, ¬ Genuine station frame envelope := by
        intro envelope genuine
        rw [verified_eq_some.mpr genuine] at reading
        cases reading
      rw [admit_other other] at disagrees
      cases disagrees
    | some envelope =>
      have genuine := verified_eq_some.mp reading
      obtain ⟨sender, label⟩ := offer_learned station envelope k.mind.tally.case
        (t.clock .received)
      rw [← admit_genuine genuine] at sender label
      rw [sender] at disagrees
      dsimp only at disagrees
      split at disagrees
      · rename_i differs
        cases disagrees
        refine ⟨frame, envelope, received, kept, genuine, rfl, ?_⟩
        rcases Bool.or_eq_true_iff.mp differs with byLabel | byTiming
        · rw [label, Bool.and_eq_true, decide_eq_true_eq] at byLabel
          exact Or.inl byLabel.2
        · exact Or.inr ⟨closed, byTiming⟩
      · cases disagrees

/-- In a turn that meets the condition only the liar disagrees. -/
theorem disagreeing_liar {common : RoundId} {liar : Nat} {t : Turn} {anchor member : Nat}
    {n k : Node} (honest : labelled station common liar (.turn t) = true)
    (heeds : heeded P station common liar t n = true)
    (came : untilRadio P station t n = (.ok (some anchor), k))
    (disagrees : disagreeing station t anchor k = some member) : member = liar := by
  obtain ⟨frame, envelope, received, kept, genuine, rfl, differs⟩ := disagreeing_genuine disagrees
  have reading := verified_eq_some.mpr genuine
  rw [labelled, received, Option.all_some, reading, decide_eq_true_eq] at honest
  rw [heeded, came] at heeds
  dsimp only at heeds
  rw [received, Option.all_some, kept, Bool.false_or, reading] at heeds
  dsimp only at heeds
  rw [Bool.or_eq_true, decide_eq_true_eq, Bool.and_eq_true, decide_eq_true_eq] at heeds
  obtain own | ⟨level, beat⟩ := heeds
  · exact own
  obtain own | label := honest
  · exact own
  obtain foreign | ⟨closed, off⟩ := differs
  · exact absurd (label.trans level.symm) foreign
  · rw [closed, off] at beat
    cases beat

/-! ## What a node knows of a split -/

/-- A node in a round knows of a split exactly if two members have disagreed with it. -/
structure Level (round : RoundId) (foreign : Keys Nat) (n : Node) : Prop where
  label : n.mind.round = round
  members : n.mind.foreign = foreign
  split : n.mind.split = decide (2 ≤ foreign.size)

/-- The same, whatever the round. -/
structure Aware (foreign : Keys Nat) (n : Node) : Prop where
  members : n.mind.foreign = foreign
  split : n.mind.split = decide (2 ≤ foreign.size)

/-- One member more, if there is one. -/
def adding (member : Option Nat) (foreign : Keys Nat) : Keys Nat :=
  member.elim foreign fun m => foreign.insert m

section turns

variable {t : Turn} {anchor : Nat} {n : Node} {round : RoundId} {foreign : Keys Nat}

theorem level_quiet {n m : Node} (level : Level round foreign n) (quiet : Quiet n.mind m.mind) :
    Level round foreign m := by
  obtain ⟨_, _, _, _, same⟩ := quiet
  constructor
  · rw [same, ← level.label]
  · rw [same, ← level.members]
  · rw [same, ← level.split]

theorem aware_quiet {n m : Node} (aware : Aware foreign n) (quiet : Quiet n.mind m.mind) :
    Aware foreign m := by
  obtain ⟨_, _, _, _, same⟩ := quiet
  constructor
  · rw [same, ← aware.members]
  · rw [same, ← aware.split]

theorem Level.aware (level : Level round foreign n) : Aware foreign n :=
  ⟨level.members, level.split⟩

theorem Aware.level (aware : Aware foreign n) : Level n.mind.round foreign n :=
  ⟨rfl, aware.members, aware.split⟩

theorem aware_steady {n m : Node} (aware : Aware foreign n) (steady : Steady n.mind m.mind) :
    Aware foreign m := by
  constructor
  · rw [steady.foreign, aware.members]
  · rw [steady.split, aware.split]

/-- What leaves the disagreements alone. -/
theorem always_aware {f : Deliberation → Deliberation}
    (apart : ∀ d, (f d).foreign = d.foreign ∧ (f d).split = d.split) :
    Always (Aware foreign) (minding f) := by
  refine Always.change fun n aware => ?_
  obtain ⟨same, split⟩ := apart n.mind
  exact ⟨same.trans aware.members, split.trans aware.split⟩

/-! ## Up to the radio -/

theorem always_resend : Always (Aware foreign) (resend t anchor) := by
  refine Always.reading fun n => ?_
  split
  · exact Always.pure _
  split
  · refine Always.bind (always_aware fun _ => ⟨rfl, rfl⟩) fun _ => ?_
    split
    · exact Always.pure _
    · exact Always.bind (always_aware fun _ => ⟨rfl, rfl⟩) fun _ =>
        always_aware fun _ => ⟨rfl, rfl⟩
  · exact Always.pure _

theorem always_untilRadio : Always (Aware foreign) (untilRadio P station t) := by
  refine (always_openRound aware_steady).bind fun _ => Always.reading fun n => ?_
  split
  · exact Always.pure _
  · exact (always_closing aware_quiet t).bind fun _ => (always_speak aware_steady _).bind fun _ =>
      (always_speak aware_steady _).bind fun _ => (always_speak aware_steady _).bind fun _ =>
        (always_askForRepair aware_steady).bind fun _ =>
          always_resend.bind fun _ => Always.pure _

/-! ## At the radio -/

theorem answering_apart (station : Station C) (anchor : Nat) (d : Deliberation)
    (journal : Journal) (learned : Admitted) (requester now : Nat) :
    let answered := d.answering station anchor journal learned requester now
    answered.round = d.round ∧ answered.foreign = d.foreign ∧ answered.split = d.split := by
  unfold Deliberation.answering
  split
  · exact ⟨rfl, rfl, rfl⟩
  split
  · exact ⟨rfl, rfl, rfl⟩
  · dsimp only
    split <;> split <;> exact ⟨rfl, rfl, rfl⟩

/-- Two that disagree are noted at once. -/
theorem noted {d : Deliberation} (level : d.split = decide (2 ≤ d.foreign.size)) (member : Nat) :
    (d.suspects member).noteSplit.split =
      decide (2 ≤ (d.suspects member).noteSplit.foreign.size) := by
  have grows : d.foreign.size ≤ (d.foreign.insert member).size :=
    Std.ExtTreeSet.size_le_size_insert
  simp only [Deliberation.noteSplit, Deliberation.suspects, level]
  rw [← Bool.decide_or]
  congr 1
  rw [eq_iff_iff]
  constructor
  · rintro (before | now)
    · exact before.trans grows
    · exact now
  · exact Or.inr

theorem aware_again {k : Node} (split : k.mind.split = decide (2 ≤ k.mind.foreign.size)) :
    Aware k.mind.foreign { k with mind := k.mind.noteSplit } := by
  refine ⟨rfl, ?_⟩
  rw [← split]
  simp only [Deliberation.noteSplit, split, Bool.or_self]

theorem opened_level {k : Node} (level : Level round foreign k) (other : RoundId) (opener : Nat)
    (frame : Bytes) : Aware (adding (if other ≠ round then some opener else none) foreign)
      { k with mind := k.mind.openedAgain other opener frame } := by
  obtain ⟨rfl, rfl, split⟩ := level
  unfold Deliberation.openedAgain
  split
  · exact ⟨rfl, noted split opener⟩
  · exact aware_again split

theorem compared_level {k : Node} (level : Level round foreign k) (learned : Admitted)
    (frame : Bytes) (now : Nat → Nat) :
    Aware (adding (differing station anchor round learned frame now) foreign)
      { k with mind := k.mind.compared station anchor learned frame now } := by
  obtain ⟨rfl, rfl, split⟩ := level
  unfold Deliberation.compared differing
  cases learned.verified with
  | none => exact ⟨rfl, split⟩
  | some verified =>
    dsimp only
    split
    · exact ⟨rfl, noted split verified.1⟩
    · exact aware_again split

/-- A frame is compared with the round it finds the node in. -/
theorem yields_learn {frame : Bytes} {learned : Admitted} {k : Node}
    (level : Level round foreign k) : Yields (learn P station t anchor frame learned) k
      fun _ m => Aware (adding (differing station anchor round learned frame
        fun i => t.now .received (i + 1)) foreign) m := by
  unfold learn
  split
  · rename_i unread
    refine Yields.pure ?_
    simp only [differing, unread, adding, Option.elim_none]
    exact level.aware
  rename_i sender sequence _
  refine Yields.bind ((always_tallying level_quiet _).leads level).returned fun _ l marked => ?_
  refine Yields.bind ((always_rememberSeen level_quiet _ _ _).leads marked).returned
    fun _ u remembered => ?_
  refine Yields.bind ((always_tallying level_quiet _).leads remembered).returned
    fun _ v held => Yields.reading ?_
  obtain ⟨same, members, split⟩ := answering_apart station anchor v.mind
    v.desk.running.journal learned sender (t.now .received 0)
  refine Yields.bind (R := fun _ w => Level round foreign w) (Yields.change ?_)
    fun _ w answered => ?_
  · exact ⟨same.trans held.label, members.trans held.members, split.trans held.split⟩
  refine Yields.bind (R := fun _ x => Aware (adding (differing station anchor round learned frame
    fun i => t.now .received (i + 1)) foreign) x)
    (Yields.change (compared_level answered learned frame _)) fun _ x compared => ?_
  refine Yields.bind ((always_crediting aware_quiet _).leads compared).returned
    fun _ z credited => ?_
  exact ((always_witnessing aware_quiet _ _ _).leads credited).returned

/-- In a round, whose frame disagrees joins those that have. -/
theorem yields_hear {k : Node} (aware : Aware foreign k) : Yields (hear P station t anchor) k
    fun _ m => Aware (adding (disagreeing station t anchor k) foreign) m := by
  unfold hear
  cases received : t.received with
  | none =>
    simp only [disagreeing, received, adding, Option.elim_none]
    exact ((always_ending aware_steady).leads aware).returned
  | some frame =>
    refine Yields.reading ?_
    refine Yields.bind (R := fun _ l => Level k.mind.round foreign l ∧
        l.mind.tally.case = k.mind.tally.case) (Yields.change ?_) ?_
    · exact ⟨level_quiet aware.level ⟨_, _, _, _, rfl⟩, hasReceived_case _ _⟩
    rintro _ l ⟨level, case⟩
    split
    · rename_i out
      have gone : dropped station frame k.mind.tally = true := by simpa [dropped] using out
      refine Yields.pure ?_
      simp only [disagreeing, received, gone, if_true, adding, Option.elim_none]
      exact level.aware
    rename_i inside
    have kept : dropped station frame k.mind.tally = false := by simpa [dropped] using inside
    split
    · rename_i other opener sequence trigger
      refine Yields.bind ((always_tallying level_quiet _).leads level).returned
        fun _ u marked => ?_
      refine Yields.bind ((always_rememberSeen level_quiet _ _ _).leads marked).returned
        fun _ v remembered => Yields.change ?_
      simp only [disagreeing, received, kept, trigger]
      exact opened_level remembered other opener frame
    · rename_i closed
      refine Yields.bind (R := fun learned u =>
        learned = (admitFrame station frame l.mind.tally.case (t.clock .received)).1 ∧
          Level k.mind.round foreign u) ?_ ?_
      · rintro _ _ ⟨⟩
        exact ⟨offered_fst _ _ _, level_quiet level ⟨_, _, _, _, rfl⟩⟩
      rintro learned u ⟨rfl, offered⟩
      refine Yields.bind (yields_learn offered) fun _ v learned => ?_
      simp only [disagreeing, received, kept, closed]
      rw [← case]
      exact ((always_ending aware_steady).leads learned).returned

end turns


/-! ## Runs -/

/-- If anyone has disagreed, the liar has. -/
def Alone (liar : Nat) : Lives → Prop
  | .dead _ _ _ => True
  | .alive node => ∃ foreign, Aware foreign node ∧ ∀ member ∈ foreign, member = liar

/-- One liar is not enough. -/
theorem size_le_one {foreign : Keys Nat} {liar : Nat} (only : ∀ member ∈ foreign, member = liar) :
    foreign.size ≤ 1 := by
  have listed : foreign.toList ⊆ [liar] := by
    intro member mem
    rw [List.mem_singleton]
    exact only member (Std.ExtTreeSet.mem_toList.mp mem)
  have short := ((toList_nodup foreign).subperm listed).length_le
  rwa [Std.ExtTreeSet.length_toList] at short

section runs

variable {common : RoundId} {liar : Nat} {foreign : Keys Nat}

theorem yields_turn {t : Turn} {n : Node} (aware : Aware foreign n)
    (only : ∀ member ∈ foreign, member = liar)
    (honest : labelled station common liar (.turn t) = true)
    (heeds : heeded P station common liar t n = true) : Yields (turn P station t) n
    fun _ m => ∃ foreign, Aware foreign m ∧ ∀ member ∈ foreign, member = liar := by
  rw [turn_radio]
  refine Yields.bind
    (R := fun began k => Aware foreign k ∧ untilRadio P station t n = (.ok began, k))
    (fun began k ran => ⟨(always_untilRadio.leads aware).returned _ _ ran, ran⟩) ?_
  rintro began k ⟨here, came⟩
  cases began with
  | none =>
    exact (((always_await aware_steady).leads here).returned).weaken fun _ _ waited =>
      ⟨_, waited, only⟩
  | some anchor =>
    refine (yields_hear here).weaken fun _ m heard => ⟨_, heard, ?_⟩
    cases disagrees : disagreeing station t anchor k with
    | none => exact only
    | some sender =>
      intro member mem
      obtain rfl | old := (mem_insert_iff _ _ _).mp mem
      · exact disagreeing_liar honest heeds came disagrees
      · exact only member old

theorem alone_next (path : Path) {lives : Lives} {happening : Happening}
    (alone : Alone liar lives) (honest : labelled station common liar happening = true)
    (heeds : heededNext P station common liar lives happening = true) :
    Alone liar (lives.next P station path happening) := by
  cases lives with
  | dead disk sealed past =>
    cases happening with
    | boot entropy opening entering =>
      unfold Lives.next
      dsimp only
      split
      · trivial
      · exact ⟨∅, ⟨rfl, rfl⟩, fun _ mem => absurd mem Std.ExtTreeSet.not_mem_empty⟩
    | turn t => trivial
    | crash => trivial
  | alive node =>
    cases happening with
    | boot entropy opening entering => exact alone
    | crash => trivial
    | turn t =>
      unfold Lives.next
      dsimp only
      split
      · exact alone
      rename_i going
      obtain ⟨foreign, aware, only⟩ := alone
      have heeds : heeded P station common liar t node = true := by
        simpa [heededNext, going] using heeds
      split
      · trivial
      · rename_i m ran
        exact yields_turn aware only honest heeds () m ran

/-- Of the fleet's members all but one label what they sign with one round, and the one signs
what it likes; frames are delayed, dropped and replayed at will. As long as a frame of another
member than the liar that verifies and is read in a round finds the node under that round's
label, and, unless it opens a round, does not come off the beat of the node's schedule, the node
never believes that the fleet is split, however it joined the round. -/
theorem lone_liar (P : Postcard) (station : Station C) (path : Path) (disk : Disk Path)
    (sealed : List Sealing) (past : Past) (common : RoundId) (liar : Nat)
    (happenings : List Happening)
    (honest : ∀ happening ∈ happenings, labelled station common liar happening = true) :
    let start : Lives := .dead disk sealed past
    alwaysHeeded P station common liar path start happenings = true →
    ∀ earlier, earlier <+: happenings → ∀ node,
      start.after P station path earlier = .alive node → node.mind.split = false := by
  intro start heeds earlier before node reached
  have alone : Alone liar (start.after P station path earlier) := by
    clear reached
    have begun : Alone liar start := trivial
    generalize start = lives at heeds begun ⊢
    induction earlier generalizing lives happenings with
    | nil => exact begun
    | cons happening earlier ih =>
      obtain ⟨rest, rfl⟩ : ∃ rest, happenings = happening :: rest := by
        obtain ⟨later, rfl⟩ := before
        exact ⟨earlier ++ later, rfl⟩
      rw [alwaysHeeded, Bool.and_eq_true] at heeds
      have step := alone_next path begun (honest happening (by simp)) heeds.1
      exact ih rest (fun other mem => honest other (List.mem_cons_of_mem _ mem))
        (List.prefix_cons_inj happening |>.mp before) _ heeds.2 step
  rw [reached] at alone
  obtain ⟨foreign, aware, only⟩ := alone
  have few := size_le_one only
  rw [aware.split, decide_eq_false_iff_not]
  omega

end runs

/-- Whether a living node believes in a split, who has disagreed with it, and how much it has
handed to its radio. -/
def outlook : Lives → Option (Bool × List Nat × Nat)
  | .dead _ _ _ => none
  | .alive node => some (node.mind.split, node.mind.foreign.toList, node.mind.handed.length)

theorem outlook_some {lives : Lives} {split : Bool} {foreign : List Nat} {sent : Nat}
    (out : outlook lives = some (split, foreign, sent)) : ∃ node, lives = .alive node ∧
      node.mind.split = split ∧ node.mind.foreign.toList = foreign ∧
        node.mind.handed.length = sent := by
  cases lives with
  | dead disk sealed past => cases out
  | alive node =>
    cases out
    exact ⟨node, rfl, rfl, rfl, rfl⟩

/-- The first member hears the second open a round, and a frame from each of the others. -/
def openedThenCompared (first second : Nat × Bytes) : List Happening :=
  [.boot 0 (fun _ => .done) (fun _ => .done),
    .turn (heardAt 7000000000 (some (voiced 1 0 0 5 ⟨1, 5⟩))),
    .turn (heardAt first.1 (some first.2)), .turn (heardAt second.1 (some second.2))]

/-- Both others are in the round the node has joined, and one of them says that it is not. -/
theorem lone_liar_heard :
    let start : Lives := .dead Disk.empty [] ⟨[], [], []⟩
    let vote := voiced 1 1 1 6 ⟨1, 5⟩
    let due := scatteredDue stationed 7000000000 1 .independent 0 0
    let happenings := openedThenCompared (heardBy due vote, vote)
      (13000000000, voiced 2 3 1 9 ⟨2, 7⟩)
    ∃ node, start.after postcard stationed ⟨"member", some "journal"⟩ happenings = .alive node ∧
      node.mind.foreign.toList = [2] ∧ node.mind.split = false := by
  intro start vote due happenings
  obtain ⟨node, reached, -, foreign, -⟩ : ∃ node, start.after postcard stationed
      ⟨"member", some "journal"⟩ happenings = .alive node ∧ node.mind.split = false ∧
        node.mind.foreign.toList = [2] ∧ node.mind.handed.length = 0 :=
    outlook_some (by decide +kernel)
  refine ⟨node, reached, foreign, ?_⟩
  exact lone_liar postcard stationed ⟨"member", some "journal"⟩ Disk.empty [] ⟨[], [], []⟩
    ⟨1, 5⟩ 2 happenings (by decide +kernel) (by decide +kernel) happenings (List.prefix_refl _)
    node reached

/-- The second member lies. It opens a round of its own for a node that has not heard the fleet
open the third member's; the third member's frame, sent in its slot of the common round, then
disagrees with the node, and so does the next frame of the liar, under the common round's
label. The node has sent nothing yet. -/
theorem lone_liar_misled :
    let start : Lives := .dead Disk.empty [] ⟨[], [], []⟩
    let common : RoundId := ⟨2, 7⟩
    let vote := voiced 2 1 1 9 common
    let due := scatteredDue stationed 0 2 .independent 0 0
    let happenings := openedThenCompared (heardBy due vote, vote)
      (8500000000, voiced 1 3 1 6 common)
    (∀ happening ∈ happenings, labelled stationed common 1 happening = true) ∧
      Airs stationed 0 2 2 (stageCode .independent) 0 0 due ∧
      ∃ node, start.after postcard stationed ⟨"member", some "journal"⟩ happenings = .alive node ∧
        node.mind.handed = [] ∧ node.mind.split = true := by
  intro start common vote due happenings
  obtain ⟨node, reached, split, -, sent⟩ : ∃ node, start.after postcard stationed
      ⟨"member", some "journal"⟩ happenings = .alive node ∧ node.mind.split = true ∧
        node.mind.foreign.toList = [1, 2] ∧ node.mind.handed.length = 0 :=
    outlook_some (by decide +kernel)
  refine ⟨by decide +kernel, ?_, node, reached, List.length_eq_zero_iff.mp sent, split⟩
  exact .attempt 2 .independent 0 (by decide) 0 (by decide +kernel) fun _ => rfl

end SplitDetection
