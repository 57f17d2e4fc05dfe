import Lcq.NonceFreshness
import Lcq.SafeTurns

/-!
# Every number once

Once a sender's number is durable as seen, no frame under that number gets past
its header, in this life or any later one: the windows cover what was
remembered while a life lasts, and the journal covers it wherever one ends.
-/

namespace SeenOnce

open Admission ByteFormat Contracts CrashSafety FileSystem JournalOutcomes JournalRecords
  JournalRuns JournalState JournaledTurns LogJournal NodeLoop NodeSteps OrderedMap Program
  ReplayWindows SafeTurns Schedule Transitions Undisturbed Utterances Wire

variable {P : Postcard} {C : Primitives} {station : Station C} {path : Path}
  {before : List (Nat × UInt64)}

/-! ## Windows -/

/-- A window that says what it has seen. -/
def Fair (w : ReplayWindow) : Prop := ∃ known, Knows w known

/-- A number too far behind the newest leaves the window as it is. -/
theorem mark_outside {w : ReplayWindow} {s highest : UInt64} (newest : w.highest = some highest)
    (far : s.toNat + 64 ≤ highest.toNat) : w.mark s = w := by
  have limit : replayWindow.toNat = 64 := rfl
  have below : ¬ highest < s := by
    rw [UInt64.lt_iff_toNat_lt]
    omega
  have back : (highest - s).toNat = highest.toNat - s.toNat :=
    UInt64.toNat_sub_of_le _ _ (UInt64.le_iff_toNat_le.mpr (by omega))
  have out : ¬ highest - s < replayWindow := by
    rw [UInt64.lt_iff_toNat_lt, back, limit]
    omega
  simp only [ReplayWindow.mark, newest, if_neg below, if_neg out]

/-- Marking a number makes it seen and takes nothing back. -/
theorem fair_mark {w : ReplayWindow} (fair : Fair w) (s : UInt64) :
    Fair (w.mark s) ∧ (w.mark s).seen s = true ∧
      ∀ x, w.seen x = true → (w.mark s).seen x = true := by
  obtain ⟨known, knows⟩ := fair
  by_cases inside : ∀ highest, w.highest = some highest → highest.toNat < s.toNat + 64
  · have marked := knows_mark knows inside
    refine ⟨⟨_, marked⟩, (seen_iff marked s).mpr (Or.inl (Or.inl rfl)), fun x seen => ?_⟩
    rw [seen_iff marked]
    rcases (seen_iff knows x).mp seen with here | ⟨highest, newest, far⟩
    · exact Or.inl (Or.inr here)
    · obtain ⟨top, newest', le⟩ := marked.top highest (Or.inr (knows.newest highest newest))
      exact Or.inr ⟨top, newest', by omega⟩
  · push Not at inside
    obtain ⟨highest, newest, far⟩ := inside
    rw [mark_outside newest far]
    exact ⟨⟨known, knows⟩, (seen_iff knows s).mpr (Or.inr ⟨highest, newest, far⟩),
      fun _ seen => seen⟩

/-! ## What is kept -/

/-- The journal's mark of a sender is no lower than a number. -/
def Covers (s : State) (p : Nat × UInt64) : Prop :=
  ∃ mark, s.seen[UInt16.ofNat p.1]? = some mark ∧ p.2.toNat ≤ mark.toNat

/-- The journal is in the mission's epoch. -/
def InEpoch (station : Station C) (s : State) : Prop :=
  ∃ epoch, s.epoch = some epoch ∧ station.fleet.missionEpoch ≤ epoch

/-- Every number remembered, those remembered before among them, is seen in its window and
covered in the journal. -/
structure Guarded (station : Station C) (before : List (Nat × UInt64)) (d : Deliberation)
    (s : State) : Prop where
  grown : before <+: d.remembered
  length : d.tally.windows.length = station.fleet.size
  fair : ∀ w ∈ d.tally.windows, Fair w
  inEpoch : InEpoch station s
  seen : ∀ p ∈ d.remembered, ∃ w, d.tally.windows[p.1]? = some w ∧ w.seen p.2 = true
  covered : ∀ p ∈ d.remembered, Covers s p

/-- What a dead member's file keeps. -/
def Kept (station : Station C) (remembered : List (Nat × UInt64)) (s : State) : Prop :=
  remembered = [] ∨
    InEpoch station s ∧ ∀ p ∈ remembered, p.1 < station.fleet.size ∧ Covers s p

theorem Guarded.kept {d : Deliberation} {s : State} (guarded : Guarded station before d s) :
    Kept station d.remembered s := by
  refine Or.inr ⟨guarded.inEpoch, fun p mem => ⟨?_, guarded.covered p mem⟩⟩
  obtain ⟨w, here, -⟩ := guarded.seen p mem
  rw [← guarded.length]
  exact (List.getElem?_eq_some_iff.mp here).1

theorem covers_apply {s : State} {e : Entry} (turned : Turned e) {p : Nat × UInt64}
    (covers : Covers s p) : Covers (s.apply e) p := by
  obtain ⟨mark, here, le⟩ := covers
  cases e with
  | epoch epoch => exact absurd turned id
  | seen sender sequence =>
    simp only [Covers, State.apply, get_insert]
    split
    · rename_i same
      refine ⟨_, rfl, ?_⟩
      rw [max64_toNat, same, here]
      exact le.trans (Nat.le_max_left _ _)
    · exact ⟨mark, here, le⟩
  | _ => exact ⟨mark, here, le⟩

theorem inEpoch_apply {s : State} {e : Entry} (turned : Turned e) (within : InEpoch station s) :
    InEpoch station (s.apply e) := by
  cases e with
  | epoch epoch => exact absurd turned id
  | _ => exact within

theorem Kept.apply {remembered : List (Nat × UInt64)} {s : State} {e : Entry} (turned : Turned e)
    (kept : Kept station remembered s) : Kept station remembered (s.apply e) := by
  rcases kept with none | ⟨within, covered⟩
  · exact Or.inl none
  · exact Or.inr ⟨inEpoch_apply turned within, fun p mem =>
      ⟨(covered p mem).1, covers_apply turned (covered p mem).2⟩⟩

theorem Guarded.apply {d : Deliberation} {s : State} {e : Entry} (turned : Turned e)
    (guarded : Guarded station before d s) : Guarded station before d (s.apply e) :=
  { guarded with
    inEpoch := inEpoch_apply turned guarded.inEpoch
    covered := fun p mem => covers_apply turned (guarded.covered p mem) }

/-- What touches neither the windows nor what is remembered. -/
theorem Guarded.aside {d e : Deliberation} {s : State} (guarded : Guarded station before d s)
    (windows : e.tally.windows = d.tally.windows) (remembered : e.remembered = d.remembered) :
    Guarded station before e s := by
  obtain ⟨grown, length, fair, within, seen, covered⟩ := guarded
  refine ⟨?_, ?_, ?_, within, ?_, ?_⟩
  · rwa [remembered]
  · rw [windows, length]
  · rwa [windows]
  · rwa [windows, remembered]
  · rwa [remembered]

/-- A mark in a window. -/
theorem Guarded.marking {d : Deliberation} {s : State} (guarded : Guarded station before d s)
    (member : Nat) (sequence : UInt64) :
    Guarded station before { d with tally := d.tally.marked member sequence } s := by
  obtain ⟨grown, length, fair, within, seen, covered⟩ := guarded
  refine ⟨grown, ?_, ?_, within, ?_, covered⟩
  · rw [← length]
    exact List.length_modify ..
  · intro w mem
    obtain ⟨i, here⟩ := List.mem_iff_getElem?.mp mem
    simp only [Tally.marked, List.getElem?_modify] at here
    obtain ⟨old, was, rfl⟩ := Option.map_eq_some_iff.mp here
    have before := fair old (List.mem_of_getElem? was)
    split
    · exact (fair_mark before sequence).1
    · exact before
  · intro p mem
    obtain ⟨w, here, known⟩ := seen p mem
    simp only [Tally.marked, List.getElem?_modify, here]
    refine ⟨_, rfl, ?_⟩
    split
    · exact (fair_mark (fair w (List.mem_of_getElem? here)) sequence).2.2 _ known
    · exact known

/-- Behind the mark the number is seen. -/
theorem Guarded.marked_seen {d : Deliberation} {s : State} (guarded : Guarded station before d s)
    {member : Nat} (seated : member < station.fleet.size) (sequence : UInt64) :
    ∃ w, (d.tally.marked member sequence).windows[member]? = some w ∧
      w.seen sequence = true := by
  obtain ⟨-, length, fair, -⟩ := guarded
  obtain ⟨w, here⟩ : ∃ w, d.tally.windows[member]? = some w :=
    List.getElem?_eq_some_iff.mpr ⟨by omega, rfl⟩ |> fun h => ⟨_, h⟩
  refine ⟨w.mark sequence, ?_, (fair_mark (fair w (List.mem_of_getElem? here)) sequence).2.1⟩
  simp [Tally.marked, here]

/-- A mark that has become durable. -/
theorem Guarded.noted {d : Deliberation} {s : State} (guarded : Guarded station before d s)
    {member : Nat} {sequence : UInt64}
    (seen : ∃ w, d.tally.windows[member]? = some w ∧ w.seen sequence = true)
    (covers : Covers s (member, sequence)) :
    Guarded station before (d.hasRemembered member sequence) s := by
  obtain ⟨grown, length, fair, within, seen', covered⟩ := guarded
  refine ⟨grown.trans (List.prefix_append _ _), length, fair, within, ?_, ?_⟩
  · intro p mem
    rcases List.mem_append.mp mem with mem | mem
    · exact seen' p mem
    · rw [List.mem_singleton.mp mem]
      exact seen
  · intro p mem
    rcases List.mem_append.mp mem with mem | mem
    · exact covered p mem
    · rw [List.mem_singleton.mp mem]
      exact covers

/-! ## Through a turn -/

/-- A number goes into its window before it becomes durable. -/
theorem safe_marking (apart : path.extension ≠ some "compacting") {env : Env} (calls : Mild env)
    {member : Nat} (seated : member < station.fleet.size) {sequence : UInt64} {p : Act}
    (rest : Safe P path (Guarded station before) p) :
    Safe P path (Guarded station before) (do
      tallying fun y => y.marked member sequence
      rememberSeen P env member sequence
      p) := by
  intro n stands
  have marked : Leads (tallying fun y => y.marked member sequence) n
      (fun _ m => Stands P path (Guarded station before) m ∧
        ∃ w, m.mind.tally.windows[member]? = some w ∧ w.seen sequence = true)
      (Fell P path (Guarded station before)) :=
    Leads.change ⟨⟨stands.1, stands.2.marking member sequence⟩,
      stands.2.marked_seen seated sequence⟩
  refine Leads.bind marked ?_
  rintro _ m ⟨stands, seen⟩
  refine Leads.bind ?_ fun _ k stands => rest k stands
  unfold rememberSeen
  split
  · refine Leads.bind (leads_onDisk Guarded.apply (tells_markSeen calls apart _ _) stands) ?_
    rintro out k ⟨stands', same, ran⟩
    cases out with
    | error e => exact Leads.pure stands'
    | ok =>
      have covers : Covers k.desk.running.journal.state (member, sequence) :=
        markSeen_ok stands.1 calls apart (ran () rfl)
      refine Leads.change ⟨stands'.1, stands'.2.noted ?_ covers⟩
      rw [same]
      exact seen
  · exact Leads.pure stands

theorem guarded_lasting (apart : path.extension ≠ some "compacting") :
    Lasting P station path (Guarded station before) where
  turned := Guarded.apply
  aside same guarded := guarded.aside same.windows same.remembered
  marking calls seated rest := safe_marking apart calls seated rest

/-! ## Between two lives -/

/-- Entering the mission's epoch takes nothing back: the file is in it, or nothing has been
remembered. -/
theorem Kept.entering {remembered : List (Nat × UInt64)} {s : State} {es : List Entry}
    (part : es ⊆ Op.entries s (.enterEpoch station.fleet.missionEpoch))
    (kept : Kept station remembered s) : Kept station remembered (s.applyAll es) := by
  rcases kept with none | ⟨⟨epoch, held, within⟩, covered⟩
  · exact Or.inl none
  · have known : (s.epoch.any fun held => decide (station.fleet.missionEpoch ≤ held)) = true := by
      simpa [held] using within
    rw [Op.entries, if_pos known] at part
    rw [List.subset_nil.mp part]
    exact Or.inr ⟨⟨epoch, held, within⟩, covered⟩

/-- The window a life begins with for a member: a new one, or one of the journal's mark. -/
theorem resumed_window {state : State} {w : ReplayWindow} {i : Nat}
    (here : (resumedWindows station state)[i]? = some w) :
    i < station.fleet.size ∧ ((state.seen[UInt16.ofNat i]? = none ∧ w = .new) ∨
      ∃ mark, state.seen[UInt16.ofNat i]? = some mark ∧ w = .resumed mark) := by
  have limit : Heard.capacity = 64 := rfl
  have sized := station.sized
  rw [resumedWindows, List.getElem?_map] at here
  obtain ⟨j, place, rfl⟩ := Option.map_eq_some_iff.mp here
  obtain ⟨inside, rfl⟩ := List.getElem?_eq_some_iff.mp place
  rw [List.length_range] at inside
  rw [List.getElem_range, if_pos (by omega)]
  refine ⟨inside, ?_⟩
  cases state.seen[UInt16.ofNat i]? with
  | none => exact Or.inl ⟨rfl, rfl⟩
  | some mark => exact Or.inr ⟨mark, rfl, rfl⟩

theorem resumed_fair {state : State} : ∀ w ∈ resumedWindows station state, Fair w := by
  intro w mem
  obtain ⟨i, here⟩ := List.mem_iff_getElem?.mp mem
  rcases (resumed_window here).2 with ⟨-, rfl⟩ | ⟨mark, -, rfl⟩
  · exact ⟨_, knows_new⟩
  · exact ⟨_, knows_resumed mark⟩

/-- The windows of a life that begins have seen what the journal covers. -/
theorem Kept.begin {s : State} {past : Past} (within : InEpoch station s)
    (grown : before <+: past.remembered) (kept : Kept station past.remembered s) :
    Guarded station before (.begin station s past) s := by
  have length : (resumedWindows station s).length = station.fleet.size := by simp [resumedWindows]
  refine ⟨grown, length, resumed_fair, within, ?_, ?_⟩
  · intro p mem
    rcases kept with none | ⟨-, covered⟩
    · rw [Deliberation.begin, none] at mem
      cases mem
    · obtain ⟨small, mark, marked, le⟩ := covered p mem
      rw [← length] at small
      have here := List.getElem?_eq_getElem small
      refine ⟨_, here, ?_⟩
      rcases (resumed_window here).2 with ⟨none, -⟩ | ⟨other, same, window⟩
      · rw [marked] at none
        cases none
      · rw [marked] at same
        cases same
        rw [window]
        exact (seen_iff (knows_resumed mark) p.2).mpr (Or.inl le)
  · intro p mem
    rcases kept with none | ⟨-, covered⟩
    · rw [Deliberation.begin, none] at mem
      cases mem
    · exact (covered p mem).2

/-! ## Lives -/

/-- What all lives so far have made durable. -/
def remembered : Lives → List (Nat × UInt64)
  | .dead _ _ past => past.remembered
  | .alive node => node.mind.remembered

/-- Where a life is, or what it has left. -/
def Standing (P : Postcard) (station : Station C) (path : Path)
    (before : List (Nat × UInt64)) : Lives → Prop
  | .dead disk _ past =>
    before <+: past.remembered ∧ Kept station past.remembered (replay P (disk.read path)).1
  | .alive node => Stands P path (Guarded station before) node

/-- No call of the operating system fails; the process may die in any. -/
def noFailure : Happening → Prop
  | .boot _ opening entering => NoFailure opening ∧ NoFailure entering
  | .turn t => ∀ spot i, NoFailure (t.envs spot i)
  | .crash => True

theorem Fell.standing {n : Node} (fell : Fell P path (Guarded station before) n) :
    Standing P station path before (.ended n) :=
  ⟨Guarded.grown fell, Guarded.kept fell⟩

theorem standing_next (apart : path.extension ≠ some "compacting") {lives : Lives}
    (standing : Standing P station path before lives) {happening : Happening}
    (calls : noFailure happening) :
    Standing P station path before (lives.next P station path happening) := by
  cases lives with
  | dead disk sealed past =>
    cases happening with
    | boot entropy opening entering =>
      obtain ⟨grown, kept⟩ := standing
      obtain ⟨refused, begun⟩ := boot_holds (P := P) entropy calls.1.mild calls.2.mild apart
        (fun kept => kept.apply trivial) Kept.entering kept
      rw [Lives.next]
      split
      · rename_i ran
        exact ⟨grown, refused _ _ ran⟩
      · rename_i ran
        obtain ⟨sound, within, kept'⟩ := begun _ _ ran
        exact ⟨sound, kept'.begin within grown⟩
    | turn t => exact standing
    | crash => exact standing
  | alive node =>
    cases happening with
    | boot entropy opening entering => exact standing
    | crash => exact Fell.standing (Stands.fell standing)
    | turn t =>
      have mild : ∀ spot i, Mild (t.envs spot i) := fun spot i => (calls spot i).mild
      have whole : Safe P path (Guarded station before) (turn P station t) :=
        safe_turn (guarded_lasting apart) mild apart
      rw [Lives.next]
      split
      · exact standing
      · split
        · rename_i ran
          exact Fell.standing ((whole node standing).stopped _ _ ran)
        · rename_i ran
          exact (whole node standing).returned _ _ ran

theorem standing_after (apart : path.extension ≠ some "compacting") {lives : Lives}
    (standing : Standing P station path before lives) {happenings : List Happening}
    (calls : ∀ happening ∈ happenings, noFailure happening) :
    Standing P station path before (lives.after P station path happenings) := by
  induction happenings generalizing lives with
  | nil => exact standing
  | cons happening rest ih =>
    exact ih (standing_next apart standing (calls _ List.mem_cons_self))
      fun later mem => calls later (List.mem_cons_of_mem _ mem)

/-- What is standing stands on all that has been remembered so far. -/
theorem Standing.now {lives : Lives} (standing : Standing P station path before lives) :
    Standing P station path (remembered lives) lives := by
  cases lives with
  | dead disk sealed past => exact ⟨List.prefix_refl _, standing.2⟩
  | alive node => exact ⟨standing.1, { standing.2 with grown := List.prefix_refl _ }⟩

/-! ## Dropped unopened -/

/-- What becomes of a frame that is dropped by its header: nothing, but that in a round the
ghost notes it. -/
def setAside (station : Station C) (frame : Bytes) : Option Nat → Act
  | none => pure ()
  | some _ => tallying fun y => y.hasReceived station frame

theorem atRadio_dropped {t : Turn} {anchor : Option Nat} {frame : Bytes} {k : Node}
    (received : t.received = some frame) (gone : dropped station frame k.mind.tally = true) :
    atRadio P station t anchor k = setAside station frame anchor k := by
  have out : isReplay frame k.mind.tally.windows = true ∨
      fromOutsideTheFleet station frame = true := by
    simpa [dropped] using gone
  cases anchor with
  | none => simp only [atRadio, await, received, bind_apply, read_apply, andThen_ok, if_pos out,
      setAside]
  | some anchor =>
    simp only [atRadio, hear, received, bind_apply, read_apply, andThen_ok, if_pos out, setAside]
    rfl

/-- A number that is remembered is dropped by its header. -/
theorem Guarded.dropped {d : Deliberation} {s : State} (guarded : Guarded station before d s)
    {frame : Bytes} {sender : UInt16} {sequence : UInt64}
    (header : peekFrameHeader frame = .ok (sender, sequence))
    (known : (sender.toNat, sequence) ∈ d.remembered) :
    NodeSteps.dropped station frame d.tally = true := by
  obtain ⟨w, here, seen⟩ := guarded.seen _ known
  simp [NodeSteps.dropped, isReplay, header, here, seen]

theorem atRadio_unverified {t : Turn} {anchor : Option Nat} {frame : Bytes} {k m : Node}
    {out : Except (Stop Empty) Unit} (received : t.received = some frame)
    (unverified : verified station frame = none)
    (ran : atRadio P station t anchor k = (out, m)) :
    m.desk = k.desk ∧ m.mind.tally = k.mind.tally ∧ m.mind.remembered = k.mind.remembered := by
  cases anchor with
  | none =>
    rw [atRadio, await_unverified received unverified] at ran
    cases ran
    exact ⟨rfl, rfl, rfl⟩
  | some anchor =>
    by_cases gone : NodeSteps.dropped station frame k.mind.tally = true
    · rw [atRadio_dropped received gone] at ran
      cases ran
      exact ⟨rfl, hasReceived_unverified unverified _, rfl⟩
    · rw [atRadio, hear_unverified received unverified fun here => absurd here gone] at ran
      have ended : Always (fun m : Node => m.desk = k.desk ∧ m.mind.tally = k.mind.tally ∧
          m.mind.remembered = k.mind.remembered) (hear P station (silenced t) anchor) := by
        refine Always.reading fun n => ?_
        dsimp only
        split
        · exact Always.change fun _ same => same
        · exact Always.pure _
      have same := ended k ⟨rfl, rfl, rfl⟩
      rwa [ran] at same

/-- In a run without failures, over any number of lives: once a sender's number has been made
durable, a frame whose header carries it gets no further than its header, and a frame that
does not verify moves no window and no mark. -/
theorem no_replay (P : Postcard) (station : Station C) (path : Path) (disk : Disk Path)
    (sealed : List Sealing) (taken : List (Nat × Bytes)) (handed : List Handed)
    (happenings : List Happening) (apart : path.extension ≠ some "compacting")
    (calls : ∀ happening ∈ happenings, noFailure happening) :
    let start : Lives := .dead disk sealed ⟨taken, [], handed⟩
    ∀ earlier, earlier <+: happenings → ∀ node,
      start.after P station path happenings = .alive node →
      ∀ t anchor k, (∀ spot i, NoFailure (t.envs spot i)) →
        untilRadio P station t node = (.ok anchor, k) →
        remembered (start.after P station path earlier) <+: k.mind.remembered ∧
        ∀ frame, t.received = some frame →
          (∀ sender sequence, peekFrameHeader frame = .ok (sender, sequence) →
            (sender.toNat, sequence) ∈ k.mind.remembered →
              atRadio P station t anchor k = setAside station frame anchor k) ∧
          (verified station frame = none → ∀ out m, atRadio P station t anchor k = (out, m) →
            m.desk = k.desk ∧ m.mind.tally = k.mind.tally ∧
              m.mind.remembered = k.mind.remembered) := by
  intro start earlier before node reached t anchor k quiet came
  obtain ⟨later, rfl⟩ := before
  have begun : Standing P station path [] start := ⟨List.nil_prefix, Or.inl rfl⟩
  have had := standing_after apart begun fun happening mem =>
    calls happening (List.mem_append_left _ mem)
  have now := standing_after apart had.now fun happening mem =>
    calls happening (List.mem_append_right earlier mem)
  have whole : (start.after P station path earlier).after P station path later =
      .alive node := by
    rw [← reached, Lives.after, Lives.after, Lives.after, List.foldl_append]
  rw [whole] at now
  have stands : Stands P path (Guarded station (remembered (start.after P station path earlier)))
      k := (safe_untilRadio (guarded_lasting apart) (fun spot i => (quiet spot i).mild) apart node
        now).returned _ _ came
  refine ⟨stands.2.grown, fun frame received => ⟨fun sender sequence header known => ?_, ?_⟩⟩
  · exact atRadio_dropped received (stands.2.dropped header known)
  · intro unverified out m ran
    exact atRadio_unverified received unverified ran

/-- A number is remembered when the turn comes to its radio. -/
def comesKnowing (P : Postcard) (station : Station C) (t : Turn) (p : Nat × UInt64) :
    Lives → Bool
  | .dead .. => false
  | .alive node =>
    match untilRadio P station t node with
    | (.error _, _) => false
    | (.ok _, k) => k.mind.remembered.contains p

theorem comesKnowing_some {t : Turn} {p : Nat × UInt64} {lives : Lives}
    (comes : comesKnowing P station t p lives = true) :
    ∃ node anchor k, lives = .alive node ∧ untilRadio P station t node = (.ok anchor, k) ∧
      p ∈ k.mind.remembered := by
  unfold comesKnowing at comes
  split at comes
  · cases comes
  · split at comes
    · cases comes
    · rename_i node _ anchor k came
      exact ⟨node, anchor, k, rfl, came, by simpa using comes⟩

/-- A vote is heard, and handed over again a turn later. -/
theorem no_replay_heard :
    let vote := voiced 1 3 1 5 ⟨0, 0⟩
    let start : Lives := .dead Disk.empty [] ⟨[], [], []⟩
    let path : Path := ⟨"member", some "journal"⟩
    let happenings := (openedThenHeard (500000000000, vote) (510000000000, vote)).take 3
    let t := heardAt 510000000000 (some vote)
    ∃ node anchor k, start.after postcard stationed path happenings = .alive node ∧
      untilRadio postcard stationed t node = (.ok anchor, k) ∧ (1, 5) ∈ k.mind.remembered ∧
      atRadio postcard stationed t anchor k = setAside stationed vote anchor k := by
  intro vote start path happenings t
  have comes : comesKnowing postcard stationed t (1, 5)
      (start.after postcard stationed path happenings) = true := by
    decide +kernel
  obtain ⟨node, anchor, k, reached, came, known⟩ := comesKnowing_some comes
  have quiet : ∀ happening ∈ happenings, noFailure happening := by
    simp [happenings, openedThenHeard, heardAt, noFailure, NoFailure, Fate.isFailure]
  obtain ⟨-, law⟩ := no_replay postcard stationed path Disk.empty [] [] [] happenings (by decide)
    quiet happenings (List.prefix_refl _) node reached t anchor k (fun _ _ _ => rfl) came
  exact ⟨node, anchor, k, reached, came, known,
    (law vote rfl).1 1 5 (by decide +kernel) known⟩

/-! ## Under the scratch file's own name -/

/-- A journal in use, its file so long. -/
structure Filled (P : Postcard) (path : Path) (s : State) (size : Nat) (r : Running) : Prop where
  sound : Sound P path r
  state : r.journal.state = s
  counted : r.journal.bytesOnDisk = size

/-- A record that is put down in full. -/
theorem Filled.record {s : State} {size : Nat} {r : Running} (filled : Filled P path s size r)
    {env : Env} (mild : Mild env) (written : env (.write 0) = .done)
    (synced : env (.sync 0) = .done) {e : Entry} {b : Bytes} (made : encode P e = .ok b)
    {update : State → State} (same : update s = s.apply e) :
    ∃ t, LogJournal.record P env 0 e update r = (.ok (), t) ∧
      Filled P path (s.apply e) (size + b.length) t := by
  obtain ⟨sound, rfl, counted⟩ := filled
  have ran := NonceFreshness.record_done (s := r) made written synced update
  have told := record_told sound mild 0 e same
  rw [ran] at told
  obtain ⟨-, ⟨dead, -⟩ | ⟨-, sound', -⟩⟩ := told
  · cases dead
  · exact ⟨_, ran, sound', same, congrArg (· + b.length) counted⟩

/-- Below the threshold nothing else happens. -/
theorem Filled.recordUnless {s : State} {size : Nat} {r : Running}
    (filled : Filled P path s size r) {e : Entry} {b : Bytes} (made : encode P e = .ok b)
    (update : State → State) (same : update s = s.apply e)
    (small : size + b.length ≤ compactThresholdBytes) :
    ∃ t, LogJournal.recordUnless P calm false e update r = (.ok (), t) ∧
      Filled P path (s.apply e) (size + b.length) t := by
  obtain ⟨t, ran, filled'⟩ := filled.record calm_noFailure.mild rfl rfl made same
  refine ⟨t, ?_, filled'⟩
  have below : t.journal.bytesOnDisk ≤ compactThresholdBytes := filled'.counted ▸ small
  simp [LogJournal.recordUnless, ran, compactIfLarge, below]

/-- Above it, the scratch file being the journal itself, a death at the first record of the
compaction leaves nothing. -/
theorem Filled.recordUnless_dying {s : State} {size : Nat} {r : Running}
    (filled : Filled P path s size r) (own : path.withExtension "compacting" = path) {e : Entry}
    {b c : Bytes} (made : encode P e = .ok b) (update : State → State)
    (same : update s = s.apply e) (large : compactThresholdBytes < size + b.length)
    (first : encode P (.sequence (s.apply e).nextSequence) = .ok c) :
    ∃ t, LogJournal.recordUnless P (dyingAt (.scratchWrite 0) 0) false e update r =
        (.error .died, t) ∧ t.disk.read path = [] := by
  obtain ⟨t, ran, sound, state, counted⟩ :=
    filled.record (dyingAt_noFailure (.scratchWrite 0) 0).mild rfl rfl made same
  have above : ¬ t.journal.bytesOnDisk ≤ compactThresholdBytes := by omega
  obtain ⟨u, died, gone⟩ := NonceFreshness.compact_own (P := P) (s := t)
    (by rw [sound.path, own]) rfl (by rw [state]; exact first)
  refine ⟨u, ?_, sound.path ▸ gone⟩
  simp only [LogJournal.recordUnless, Bool.false_eq_true, if_false, bind_apply, ran, andThen_ok,
    compactIfLarge, read_apply, if_neg above, caught, died, andThen_error]

/-- A file that holds so many numbers and nothing else. -/
theorem numbers_file (n : Nat) (low : n < 2 ^ 20) :
    ∃ b, Clean postcard b ∧ (replay postcard b).1 = NonceFreshness.counter n ∧
      b.length = 13 * (n + 1) := by
  induction n with
  | zero =>
    obtain ⟨r, made, long⟩ := NonceFreshness.counter_record (n := 0) (by decide)
    have blank : Clean postcard [] := rfl
    refine ⟨[] ++ r, clean_record postcard blank made, ?_, long⟩
    rw [replay_record postcard blank made]
    rfl
  | succ n ih =>
    obtain ⟨b, clean, state, length⟩ := ih (by omega)
    obtain ⟨r, made, long⟩ := NonceFreshness.counter_record (n := n + 1) (by omega)
    have applied := apply_reserved (NonceFreshness.counter n)
    rw [NonceFreshness.counter_next (by omega)] at applied
    refine ⟨b ++ r, clean_record postcard clean made, ?_, ?_⟩
    · rw [replay_record postcard clean made, state]
      exact applied
    · rw [List.length_append]
      omega

theorem disk_holding (path : Path) (b : Bytes) : ∃ d : Disk Path, d.read path = b := by
  obtain ⟨file, named, -, -⟩ := (Disk.empty : Disk Path).make_names path
  refine ⟨(Disk.empty.make path).put file b, ?_⟩
  simp [Disk.read, named]

/-- Opening such a file changes nothing. -/
theorem open_filled {d : Disk Path} {s : State} {size : Nat} (clean : Clean P (d.read path))
    (state : (replay P (d.read path)).1 = s) (length : (d.read path).length = size)
    (used : size ≠ 0) :
    ∃ j t, openWithEntropy P calm path 0 d = (.ok j, t) ∧ Filled P path s size ⟨t, j⟩ := by
  obtain ⟨j, t, opened⟩ := openJournal_calm P path d
  obtain ⟨sound, state', counted⟩ := openJournal_sound opened
  have whole : j.bytesOnDisk = size := by
    rw [counted, good, clean, List.take_length, length]
  refine ⟨j, t, ?_, sound, state'.trans state, whole⟩
  simp [openWithEntropy, opened, whole, used]

/-- A boot behind an opening enters the epoch. -/
theorem boot_filled {d t : Disk Path} {j : Journal} {s : State} {size : Nat} {b : Bytes}
    (opened : openWithEntropy P calm path 0 d = (.ok j, t)) (filled : Filled P path s size ⟨t, j⟩)
    (outside : s.epoch = none) (made : encode P (.epoch station.fleet.missionEpoch) = .ok b)
    (small : size + b.length ≤ compactThresholdBytes) :
    ∃ j' t', boot P station path 0 calm calm d = (.ok j', t') ∧
      Filled P path (s.apply (.epoch station.fleet.missionEpoch)) (size + b.length) ⟨t', j'⟩ := by
  have later : (s.epoch.any fun held => decide (station.fleet.missionEpoch ≤ held)) = false := by
    simp [outside]
  obtain ⟨u, ran, filled'⟩ := filled.recordUnless made
    (fun state => { state with seen := ∅, epoch := some station.fleet.missionEpoch })
    (apply_later_epoch later).symm small
  have none : j.state.epoch = none := by
    rw [show j.state = s from filled.state, outside]
  refine ⟨u.journal, u.disk, ?_, filled'⟩
  have entered : enterEpoch P calm station.fleet.missionEpoch ⟨t, j⟩ = (.ok (), u) := by
    simp only [enterEpoch, bind_apply, read_apply, andThen_ok, none, Option.any_none]
    exact ran
  simp [boot, opened, none, entered]

section triggers

variable {r : Running} {s : State} {size : Nat} {sealed : List Sealing} {d : Deliberation}
  {t : Turn} {frame b : Bytes} {round : RoundId} {opener : Nat} {sequence : UInt64}

/-- A trigger that begins the round, its number below the threshold. -/
theorem await_filled (filled : Filled P path s size r) (received : t.received = some frame)
    (kept : NodeSteps.dropped station frame d.tally = false)
    (trigger : triggerRound station frame = some (round, opener, sequence))
    (narrow : opener < 65536) (calls : t.envs .anchor 0 = calm)
    (unseen : s.seen[UInt16.ofNat opener]? = none)
    (made : encode P (.seen (.ofNat opener) sequence) = .ok b)
    (small : size + b.length ≤ compactThresholdBytes) :
    ∃ u, await P station t ⟨⟨r, sealed⟩, d⟩ = (.ok (), ⟨⟨u, sealed⟩,
        { d with
          tally := (d.tally.marked opener sequence).hasReceived station frame
          remembered := d.remembered ++ [(opener, sequence)]
          round
          began := some (t.now .anchor 0) }⟩) ∧
      Filled P path (s.apply (.seen (.ofNat opener) sequence)) (size + b.length) u := by
  have higher : (s.seen[UInt16.ofNat opener]?.any fun held => decide (sequence ≤ held)) =
      false := by simp [unseen]
  obtain ⟨u, ran, filled'⟩ := filled.recordUnless made
    (fun state => { state with seen := state.seen.insert (.ofNat opener) sequence })
    (apply_higher_mark higher).symm small
  have marked : markSeen P calm (.ofNat opener) sequence r = (.ok (), u) := by
    simp only [markSeen, bind_apply, read_apply, andThen_ok, filled.state, unseen,
      Option.any_none]
    exact ran
  refine ⟨u, ?_, filled'⟩
  have goes : ¬ (isReplay frame d.tally.windows = true ∨
      fromOutsideTheFleet station frame = true) := by
    simpa [NodeSteps.dropped, not_or] using kept
  simp only [await, received, bind_apply, read_apply, andThen_ok, if_neg goes, trigger, tallying,
    minding, change_apply, rememberSeen, if_pos narrow, calls, caught, zoom_apply, marked]
  rfl

/-- A trigger in the round whose number is the last thing the journal records. -/
theorem hear_dying {c : Bytes} {anchor : Nat} (filled : Filled P path s size r)
    (own : path.withExtension "compacting" = path) (received : t.received = some frame)
    (kept : NodeSteps.dropped station frame d.tally = false)
    (trigger : triggerRound station frame = some (round, opener, sequence))
    (narrow : opener < 65536) (calls : t.envs .received 0 = dyingAt (.scratchWrite 0) 0)
    (unseen : s.seen[UInt16.ofNat opener]? = none)
    (made : encode P (.seen (.ofNat opener) sequence) = .ok b)
    (large : compactThresholdBytes < size + b.length)
    (first : encode P (.sequence s.nextSequence) = .ok c) :
    ∃ m, hear P station t anchor ⟨⟨r, sealed⟩, d⟩ = (.error .died, m) ∧
      m.desk.running.disk.read path = [] ∧ m.mind.remembered = d.remembered := by
  have higher : (s.seen[UInt16.ofNat opener]?.any fun held => decide (sequence ≤ held)) =
      false := by simp [unseen]
  obtain ⟨u, ran, gone⟩ := filled.recordUnless_dying own made
    (fun state => { state with seen := state.seen.insert (.ofNat opener) sequence })
    (apply_higher_mark higher).symm large (c := c) first
  have marked : markSeen P (dyingAt (.scratchWrite 0) 0) (.ofNat opener) sequence r =
      (.error .died, u) := by
    simp only [markSeen, bind_apply, read_apply, andThen_ok, filled.state, unseen,
      Option.any_none]
    exact ran
  have goes : ¬ (isReplay frame d.tally.windows = true ∨
      fromOutsideTheFleet station frame = true) := by
    simpa [NodeSteps.dropped, not_or] using kept
  refine ⟨_, by
    simp only [hear, received, bind_apply, read_apply, andThen_ok, if_neg goes, trigger,
      tallying, minding, change_apply, rememberSeen, if_pos narrow, calls, caught, zoom_apply,
      marked, andThen_error]
    rfl, gone, rfl⟩

/-- A node with nothing to do but listen. -/
theorem untilRadio_idle {n : Node} {anchor : Nat} (began : n.mind.began = some anchor)
    (early : certainlyAfter (t.clock .closing 0) station.subject.consultationCutoff = false)
    (waits : ∀ stage, t.now (.own stage) 0 < n.mind.dueAt station anchor stage)
    (unasked : repairRound station.options station.fleet.size anchor (t.now .asking 0) = none)
    (unowed : n.mind.repairDue = none) :
    untilRadio P station t n = (.ok (some anchor), n) := by
  have opened : openRound P station t n = (.ok (), n) := by
    simp [openRound, began]
  have closes : NodeLoop.closing P station t n = (.ok (), n) := by
    simp [NodeLoop.closing, early]
  have speaks (stage : Stage) : speak P station t anchor stage n = (.ok (), n) := by
    simp only [speak, bind_apply, read_apply, andThen_ok]
    rw [if_pos (Or.inr (Or.inr (Or.inl (waits stage))))]
    rfl
  have asks : askForRepair P station t anchor n = (.ok (), n) := by
    simp only [askForRepair, bind_apply, read_apply, andThen_ok, unasked]
    rfl
  have resends : NodeLoop.resend t anchor n = (.ok (), n) := by
    simp only [NodeLoop.resend, bind_apply, read_apply, andThen_ok, unowed]
    rfl
  simp only [untilRadio, bind_apply, opened, read_apply, andThen_ok, began, closes, speaks, asks,
    resends]
  rfl

theorem untilRadio_waiting {n : Node} (began : n.mind.began = none) (unopened : t.opening = false) :
    untilRadio P station t n = (.ok none, n) := by
  have opened : openRound P station t n = (.ok (), n) := by
    simp [openRound, unopened]
  simp only [untilRadio, bind_apply, opened, read_apply, andThen_ok, began]
  rfl

end triggers

/-! ## A mark that is lost -/

theorem encoded_length {e : Entry} {n : Nat}
    (made : (encode P e).toOption.map List.length = some n) :
    ∃ b, encode P e = .ok b ∧ b.length = n := by
  obtain ⟨b, ok, length⟩ := Option.map_eq_some_iff.mp made
  cases written : encode P e with
  | error error => rw [written] at ok; cases ok
  | ok b' =>
    rw [written] at ok
    cases ok
    exact ⟨b, rfl, length⟩

theorem next_boot {sealed : List Sealing} {past : Past} {d d' : Disk Path} {j : Journal}
    (booted : boot P station path 0 calm calm d = (.ok j, d')) :
    (Lives.dead d sealed past).next P station path (.boot 0 calm calm) =
      .alive ⟨⟨⟨d', j⟩, sealed⟩, .begin station j.state past⟩ := by
  simp only [Lives.next, booted]

theorem turn_radio_ran {n m k : Node} {t : Turn} {anchor : Option Nat}
    {out : Except (Stop Empty) Unit} (came : untilRadio P station t n = (.ok anchor, k))
    (ran : atRadio P station t anchor k = (out, m)) : turn P station t n = (out, m) := by
  rw [turn_radio, bind_apply, came, andThen_ok, ran]

theorem next_ran {n m k : Node} {t : Turn} {anchor : Option Nat} (going : n.mind.finished = false)
    (came : untilRadio P station t n = (.ok anchor, k))
    (ran : atRadio P station t anchor k = (.ok (), m)) :
    (Lives.alive n).next P station path (.turn t) = .alive m := by
  simp only [Lives.next, going, Bool.false_eq_true, if_false, turn_radio_ran came ran]

theorem next_fell {n m k : Node} {t : Turn} {anchor : Option Nat} {stop : Stop Empty}
    (going : n.mind.finished = false) (came : untilRadio P station t n = (.ok anchor, k))
    (ran : atRadio P station t anchor k = (.error stop, m)) :
    (Lives.alive n).next P station path (.turn t) = .ended m := by
  simp only [Lives.next, going, Bool.false_eq_true, if_false, turn_radio_ran came ran]

/-- A turn at instant 1, before the cutoff, in which a frame is heard. -/
def heardEarly (frame : Bytes) (env : Env) : Turn :=
  { heardAt 1 (some frame) with
    clock := fun _ _ => ⟨0⟩
    envs := fun _ _ => env }

/-- The second and the third member open a round. -/
def firstOpening : Bytes := voiced 1 triggerStage 0 5 ⟨1, 5⟩

def secondOpening : Bytes := voiced 2 triggerStage 0 6 ⟨2, 6⟩

/-- A journal with so many reservations behind it, in the epoch. -/
def longJournal : State := (NonceFreshness.counter 20162).apply (.epoch 1)

/-- A journal with one reservation behind it, in the epoch. -/
def shortJournal : State := (NonceFreshness.counter 0).apply (.epoch 1)

/-- Where a node begins on the long one. -/
def bornLong : Deliberation := .begin stationed longJournal ⟨[], [], []⟩

/-- The second member's opening has begun its round. -/
def joinedLong : Deliberation :=
  { bornLong with
    tally := (bornLong.tally.marked 1 5).hasReceived stationed firstOpening
    remembered := bornLong.remembered ++ [(1, 5)]
    round := ⟨1, 5⟩
    began := some 1 }

/-- The opening of the second member is remembered, and the mark of the third fills the file:
the compaction dies in the journal it has cut. In the next life the first frame opens a round
again. -/
theorem no_replay_compacting :
    ∃ (disk : Disk Path) (happenings : List Happening) (node : Node),
      (∀ happening ∈ happenings, noFailure happening) ∧
      (Lives.dead disk [] ⟨[], [], []⟩).after postcard stationed ⟨"member", some "compacting"⟩
        happenings = .alive node ∧
      peekFrameHeader firstOpening = .ok (1, 5) ∧ (1, 5) ∈ node.mind.remembered ∧
      untilRadio postcard stationed (heardEarly firstOpening calm) node = (.ok none, node) ∧
      atRadio postcard stationed (heardEarly firstOpening calm) none node ≠
        setAside stationed firstOpening none node := by
  let path : Path := ⟨"member", some "compacting"⟩
  have own : path.withExtension "compacting" = path := rfl
  obtain ⟨b, clean, state, length⟩ := numbers_file 20162 (by decide)
  obtain ⟨disk, read⟩ := disk_holding path b
  obtain ⟨epoch, enters, epochLong⟩ := encoded_length (P := postcard) (e := .epoch 1) (n := 10)
    (by decide +kernel)
  obtain ⟨mark, marks, markLong⟩ := encoded_length (P := postcard) (e := .seen 1 5) (n := 11)
    (by decide +kernel)
  obtain ⟨last, lasts, lastLong⟩ := encoded_length (P := postcard) (e := .seen 2 6) (n := 11)
    (by decide +kernel)
  obtain ⟨counts, counting, -⟩ := NonceFreshness.counter_record (n := 20162) (by decide)
  have early : triggerRound stationed firstOpening = some (⟨1, 5⟩, 1, 5) := by decide +kernel
  have late : triggerRound stationed secondOpening = some (⟨2, 6⟩, 2, 6) := by decide +kernel
  -- the first life
  obtain ⟨j, d, opened, filled⟩ : ∃ j d, openWithEntropy postcard calm path 0 disk = (.ok j, d) ∧
      Filled postcard path (NonceFreshness.counter 20162) (13 * 20163) ⟨d, j⟩ :=
    open_filled (by rw [read]; exact clean) (by rw [read]; exact state)
      (by rw [read]; exact length) (by decide)
  obtain ⟨j', d', booted, filled'⟩ : ∃ j' d', boot postcard stationed path 0 calm calm disk =
      (.ok j', d') ∧ Filled postcard path longJournal (13 * 20163 + epoch.length) ⟨d', j'⟩ :=
    boot_filled opened filled rfl enters (by rw [epochLong]; decide)
  rw [epochLong] at filled'
  have born : (Lives.dead disk [] ⟨[], [], []⟩).next postcard stationed path (.boot 0 calm calm) =
      .alive ⟨⟨⟨d', j'⟩, []⟩, bornLong⟩ := by
    rw [next_boot booted, show j'.state = longJournal from filled'.state]
    rfl
  obtain ⟨u, heard, filled''⟩ : ∃ u, await postcard stationed (heardEarly firstOpening calm)
      ⟨⟨⟨d', j'⟩, []⟩, bornLong⟩ = (.ok (), ⟨⟨u, []⟩, joinedLong⟩) ∧
      Filled postcard path (longJournal.apply (.seen 1 5)) (13 * 20163 + 10 + mark.length) u :=
    await_filled filled' rfl (by decide +kernel) early (by decide) rfl
      (by decide +kernel) marks (by rw [markLong]; decide)
  rw [markLong] at filled''
  have joined : (Lives.alive ⟨⟨⟨d', j'⟩, []⟩, bornLong⟩).next postcard stationed path
      (.turn (heardEarly firstOpening calm)) = .alive ⟨⟨u, []⟩, joinedLong⟩ :=
    next_ran rfl (untilRadio_waiting rfl rfl) heard
  -- the mark of the second opening fills the file
  let dying := heardEarly secondOpening (dyingAt (.scratchWrite 0) 0)
  obtain ⟨m, died, empty, kept⟩ : ∃ m, hear postcard stationed dying 1
      ⟨⟨u, []⟩, joinedLong⟩ = (.error .died, m) ∧
      m.desk.running.disk.read path = [] ∧ m.mind.remembered = joinedLong.remembered :=
    hear_dying filled'' own rfl (by decide +kernel) late (by decide) rfl (by decide +kernel) lasts
      (by rw [lastLong]; decide) counting
  have waits : ∀ stage, 1 < joinedLong.dueAt stationed 1 stage := by
    rintro (_ | _ | _) <;> decide +kernel
  have idle : untilRadio postcard stationed dying ⟨⟨u, []⟩, joinedLong⟩ =
      (.ok (some 1), ⟨⟨u, []⟩, joinedLong⟩) :=
    untilRadio_idle rfl (by decide +kernel) waits (by decide +kernel) rfl
  have lost : (Lives.alive ⟨⟨u, []⟩, joinedLong⟩).next postcard stationed path (.turn dying) =
      .ended m := next_fell rfl idle died
  -- the second life
  obtain ⟨j₂, d₂, opened₂, counting₂⟩ : ∃ j d, openWithEntropy postcard calm path 0
      m.desk.running.disk = (.ok j, d) ∧ NonceFreshness.Counting path 0 ⟨d, j⟩ :=
    NonceFreshness.open_empty empty
  have blank : Filled postcard path (NonceFreshness.counter 0) 13 ⟨d₂, j₂⟩ :=
    ⟨counting₂.sound, counting₂.state, counting₂.size⟩
  obtain ⟨j₃, d₃, booted₃, filled₃⟩ : ∃ j d, boot postcard stationed path 0 calm calm
      m.desk.running.disk = (.ok j, d) ∧ Filled postcard path shortJournal (13 + epoch.length)
        ⟨d, j⟩ :=
    boot_filled opened₂ blank rfl enters (by rw [epochLong]; decide)
  let past : Past :=
    ⟨m.mind.tally.trace.taken, m.mind.remembered, m.mind.handedBefore ++ m.mind.handed⟩
  have reborn : (Lives.ended m).next postcard stationed path (.boot 0 calm calm) =
      .alive ⟨⟨⟨d₃, j₃⟩, m.desk.sealed⟩, .begin stationed shortJournal past⟩ := by
    rw [Lives.ended, next_boot booted₃, show j₃.state = shortJournal from filled₃.state]
  have windows (taken : List (Nat × Bytes)) :
      dropped stationed firstOpening (.begin stationed shortJournal taken) = false := by
    have none : dropped stationed firstOpening (.begin stationed shortJournal []) = false := by
      decide +kernel
    rw [dropped] at none ⊢
    exact none
  obtain ⟨u', again⟩ : ∃ u', await postcard stationed (heardEarly firstOpening calm)
      ⟨⟨⟨d₃, j₃⟩, m.desk.sealed⟩, .begin stationed shortJournal past⟩ = (.ok (), u') ∧
        u'.mind.began = some 1 := by
    have unseen : shortJournal.seen[UInt16.ofNat 1]? = none := by decide +kernel
    obtain ⟨u', ran, -⟩ := await_filled (d := .begin stationed shortJournal past)
      (t := heardEarly firstOpening calm) filled₃ rfl (windows _) early (by decide) rfl
      unseen marks (by rw [epochLong, markLong]; decide)
    exact ⟨_, ran, rfl⟩
  have known : (1, 5) ∈ m.mind.remembered := by
    rw [kept]
    exact List.mem_singleton_self _
  refine ⟨disk, [.boot 0 calm calm, .turn (heardEarly firstOpening calm), .turn dying,
    .boot 0 calm calm], ⟨⟨⟨d₃, j₃⟩, m.desk.sealed⟩, .begin stationed shortJournal past⟩,
    ?_, ?_, by decide +kernel, known, untilRadio_waiting rfl rfl, ?_⟩
  · simp [noFailure, dying, heardEarly, calm_noFailure, dyingAt_noFailure]
  · show ((((Lives.dead disk [] ⟨[], [], []⟩).next postcard stationed path (.boot 0 calm calm)).next
      postcard stationed path (.turn (heardEarly firstOpening calm))).next postcard stationed path
        (.turn dying)).next postcard stationed path (.boot 0 calm calm) = _
    rw [born, joined, lost, reborn]
  · intro same
    have began := congrArg (fun ran => ran.2.mind.began) (again.1.symm.trans same)
    rw [again.2] at began
    cases began

end SeenOnce
