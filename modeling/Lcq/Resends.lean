import Lcq.NodeLoop
import Lcq.VoteLocks

/-!
# What a member sends again

A vote whose lock is held is sent again from the journal: in its slot, in a
repair round, and put back behind a restart. In each case what is taken is the
pending frame with the lowest number. It is the frame that was committed
together with the lock as long as that frame is pending and nothing is pending
below it.
-/

namespace Resends

open Admission ByteFormat Contracts CrashSafety FileSystem JournalOutcomes JournalRecords
  JournalRuns JournalState LogJournal NodeLoop OrderedMap Program Utterances VoteLocks Wire

/-! ## The lowest pending frame -/

/-- The frame is pending, and no frame with a lower number is. -/
def Foremost (state : State) (frame : OutgoingFrame) : Prop :=
  state.pending[frame.sequence]? = some frame ∧
    ∀ k, k < frame.sequence → state.pending[k]? = none

theorem head_pending_iff {state : State} (filed : Filed state) (frame : OutgoingFrame) :
    (values state.pending).head? = some frame ↔ Foremost state frame := by
  rw [head_values_iff]
  constructor
  · rintro ⟨k, here, least⟩
    obtain ⟨rfl, -⟩ := filed k frame here
    exact ⟨here, fun l below => least l (Std.compare_eq_lt.mpr below)⟩
  · rintro ⟨here, least⟩
    exact ⟨frame.sequence, here, fun l below => least l (Std.compare_eq_lt.mp below)⟩

/-! ## The frame committed with a lock -/

variable {P : Postcard} {path : Path}

/-- In the run this call took the lock and committed this frame with it. -/
structure Took (P : Postcard) (path : Path) (w : World) (events : List Event) (key : String)
    (frame : OutgoingFrame) : Prop where
  split : ∃ before subject voter env later,
    events = before ++ .operate (.commitVote subject voter frame) env :: later ∧
    lockKey subject voter = key ∧
    key ∉ ((w.after P path before).recovered P path).locks ∧
    key ∈ (((w.after P path before).next P path
      (.operate (.commitVote subject voter frame) env)).recovered P path).locks

/-- An entry that locks is a vote, or a lock recorded by itself. -/
theorem locks_apply_iff {s : State} {e : Entry} {key : String} (held : key ∈ (s.apply e).locks)
    (free : key ∉ s.locks) : (∃ f, e = voteEntry key f) ∨ e = .lock key := by
  cases e with
  | vote other sequence bytes expiresAt =>
    simp only [State.apply, State.addFrame, mem_insert_iff] at held
    rcases held with rfl | held
    · exact Or.inl ⟨_, vote_eq other sequence bytes expiresAt⟩
    · exact absurd held free
  | lock other =>
    simp only [State.apply, mem_insert_iff] at held
    rcases held with rfl | held
    · exact Or.inr rfl
    · exact absurd held free
  | _ => exact absurd held free

theorem locks_applyAll_iff {es : List Entry} {s : State} {key : String}
    (held : key ∈ (s.applyAll es).locks) (free : key ∉ s.locks) :
    (∃ f, voteEntry key f ∈ es) ∨ .lock key ∈ es := by
  induction es generalizing s with
  | nil => exact absurd held free
  | cons e es ih =>
    by_cases here : key ∈ (s.apply e).locks
    · rcases locks_apply_iff here free with ⟨f, rfl⟩ | rfl
      · exact Or.inl ⟨f, List.mem_cons_self⟩
      · exact Or.inr List.mem_cons_self
    · rcases ih held here with ⟨f, mem⟩ | mem
      · exact Or.inl ⟨f, List.mem_cons_of_mem _ mem⟩
      · exact Or.inr (List.mem_cons_of_mem _ mem)

theorem op_noLock {state : State} {op : Op} {key : String} : .lock key ∉ op.entries state := by
  intro told
  cases op with
  | dropExpired now => obtain ⟨_, -, ⟨⟩⟩ := List.mem_map.mp told
  | reserveSequence => cases List.mem_singleton.mp told
  | compact => cases told
  | _ =>
    simp only [Op.entries] at told
    split at told <;> simp [voteEntry] at told

/-- A lock is taken by the commitment of a vote under it. -/
theorem lock_step {w : World} (agreeing : Agreeing P path w) {event : Event}
    (mild : event.mild) (apart : path.extension ≠ some "compacting") {key : String}
    (free : key ∉ (w.recovered P path).locks)
    (held : key ∈ ((w.next P path event).recovered P path).locks) :
    ∃ subject voter frame env, event = .operate (.commitVote subject voter frame) env ∧
      lockKey subject voter = key := by
  obtain ⟨-, k, -, recovered⟩ := next_stepped agreeing mild apart
  rw [recovered] at held
  have told {e : Entry} (mem : e ∈ (recordable P (w.entries P path event)).take k) :
      e ∈ w.entries P path event := (List.mem_filter.mp (List.mem_of_mem_take mem)).1
  rcases locks_applyAll_iff held free with ⟨f, mem⟩ | mem
  · rcases event_entries (told mem) with ⟨op, env, j, rfl, -, entry⟩ | ⟨next, same⟩
    · rcases op_entries entry with ⟨subject, voter, g, rfl, same⟩ | ⟨_, same, -⟩ | ⟨-, other, -⟩
      · obtain ⟨rfl, rfl⟩ := voteEntry_inj same
        exact ⟨subject, voter, f, env, rfl, rfl⟩
      · cases same
      · exact absurd rfl (other key f)
    · cases same
  · rcases event_entries (told mem) with ⟨op, env, j, rfl, -, entry⟩ | ⟨next, same⟩
    · exact absurd entry op_noLock
    · cases same

/-- Every lock a run has taken was taken together with a frame. -/
theorem lock_taken {w : World} (agreeing : Agreeing P path w) {events : List Event}
    (mild : ∀ e ∈ events, e.mild) (apart : path.extension ≠ some "compacting") {key : String}
    (free : key ∉ (w.recovered P path).locks)
    (held : key ∈ ((w.after P path events).recovered P path).locks) :
    ∃ frame, Took P path w events key frame := by
  induction events generalizing w with
  | nil => exact absurd held free
  | cons event events ih =>
    have calls := mild event List.mem_cons_self
    by_cases here : key ∈ ((w.next P path event).recovered P path).locks
    · obtain ⟨subject, voter, frame, env, rfl, named⟩ := lock_step agreeing calls apart free here
      exact ⟨frame, ⟨[], subject, voter, env, events, rfl, named, free, here⟩⟩
    · obtain ⟨frame, ⟨before, subject, voter, env, later, rfl, named, free', held'⟩⟩ :=
        ih (next_stepped agreeing calls apart).1
          (fun e mem => mild e (List.mem_cons_of_mem _ mem)) here held
      exact ⟨frame, ⟨event :: before, subject, voter, env, later, rfl, named, free', held'⟩⟩

theorem after_append (w : World) (events later : List Event) :
    w.after P path (events ++ later) = (w.after P path events).after P path later :=
  List.foldl_append

/-- A lock that a call has taken is not taken by a later one. -/
theorem took_first {w : World} (agreeing : Agreeing P path w) {before rest later later' : List Event}
    {event event' : Event} (mild : ∀ e ∈ before ++ rest, e.mild)
    (apart : path.extension ≠ some "compacting") {key : String}
    (held : key ∈ (((w.after P path before).next P path event).recovered P path).locks)
    (split : event :: later = rest ++ event' :: later')
    (free : key ∉ ((w.after P path (before ++ rest)).recovered P path).locks) :
    event = event' := by
  cases rest with
  | nil => exact (List.cons_eq_cons.mp split).1
  | cons first rest =>
    obtain ⟨rfl, -⟩ := List.cons_eq_cons.mp split
    have calls : ∀ e ∈ before, e.mild := fun e mem => mild e (List.mem_append_left _ mem)
    have behind : ∀ e ∈ event :: rest, e.mild := fun e mem => mild e (List.mem_append_right _ mem)
    have there := (history_recovered agreeing calls apart).1
    rw [after_append] at free
    refine absurd (locked_run ?_ ?_ apart held) free
    · exact (next_stepped there (behind event List.mem_cons_self) apart).1
    · exact fun e mem => behind e (List.mem_cons_of_mem _ mem)

/-- It was taken once. -/
theorem took_once {w : World} (agreeing : Agreeing P path w) {events : List Event}
    (mild : ∀ e ∈ events, e.mild) (apart : path.extension ≠ some "compacting") {key : String}
    {frame other : OutgoingFrame} (took : Took P path w events key frame)
    (took' : Took P path w events key other) : frame = other := by
  obtain ⟨before, subject, voter, env, later, rfl, named, free, held⟩ := took.split
  obtain ⟨before', subject', voter', env', later', split, named', free', held'⟩ := took'.split
  rcases List.append_eq_append_iff.mp split with ⟨rest, rfl, tail⟩ | ⟨rest, rfl, tail⟩
  · have calls : ∀ e ∈ before ++ rest, e.mild := by
      intro e mem
      refine mild e ?_
      rw [split]
      exact List.mem_append_left _ mem
    cases took_first agreeing calls apart held tail free'
    rfl
  · have calls : ∀ e ∈ before' ++ rest, e.mild := fun e mem => mild e (List.mem_append_left _ mem)
    cases took_first agreeing calls apart held' tail free
    rfl

/-! ## What is sent again -/

variable {C : Primitives}

/-- Wherever this journal's own vote is sent again, it is this frame that is sent. -/
structure Resent (P : Postcard) (station : Station C) (j : Journal) (f : OutgoingFrame) : Prop where
  built : ∀ envs heard round disk sealed,
    build P C station.fleet station.options station.keys envs .bindingSupport station.subject heard
      round ⟨⟨disk, j⟩, sealed⟩ = (.ok f.bytes, ⟨⟨disk, j⟩, sealed⟩)
  queued : ∀ heard queued, owedVote station j heard = some queued → queued.bytes = f.bytes
  restored : (restoredEarly station j.state)[station.options.index]? = some f.bytes

/-- Nothing is pending, and nothing of one's own is sent again. -/
structure Silent (P : Postcard) (station : Station C) (j : Journal) : Prop where
  built : ∀ envs heard round disk sealed,
    build P C station.fleet station.options station.keys envs .bindingSupport station.subject heard
      round ⟨⟨disk, j⟩, sealed⟩ = (.error (.failed .nothingLeft), ⟨⟨disk, j⟩, sealed⟩)
  queued : ∀ heard, owedVote station j heard = none
  restored : recoveredVote station j.state = false

theorem resent_head {station : Station C} {j : Journal}
    (voted : lockKey station.subject (station.memberId station.options.index) ∈ j.state.locks)
    {f : OutgoingFrame} (first : (pending j).head? = some f) : Resent P station j f := by
  have held : hasVoted j station.subject (station.fleet.id station.options.index) = true :=
    decide_eq_true voted
  constructor
  · intro envs heard round disk sealed
    simp [build, held, first]
  · intro heard queued owed
    simp only [owedVote, first, Option.bind_some] at owed
    split at owed
    · split at owed
      · cases owed
      · cases owed
        rfl
    · cases owed
  · have first : (values j.state.pending).head? = some f := first
    simp only [restoredEarly, first, if_pos voted, get_insert, if_true]

theorem silent_empty {station : Station C} {j : Journal}
    (voted : lockKey station.subject (station.memberId station.options.index) ∈ j.state.locks)
    (empty : (pending j).head? = none) : Silent P station j := by
  have held : hasVoted j station.subject (station.fleet.id station.options.index) = true :=
    decide_eq_true voted
  constructor
  · intro envs heard round disk sealed
    simp [build, held, empty]
  · intro heard
    simp only [owedVote, empty, Option.bind_none, ite_self]
  · have empty : (values j.state.pending).head? = none := empty
    simp [recoveredVote, empty]

/-- In every state a run reaches, a vote whose lock the run has taken was committed with one
frame; what is sent again is that frame exactly if it is pending and foremost, and nothing is
sent if nothing is pending. -/
theorem resent_vote (P : Postcard) (station : Station C) (path : Path) (disk : Disk Path)
    (events : List Event) (apart : path.extension ≠ some "compacting")
    (quiet : ∀ e ∈ events, e.noFailure) :
    let start : World := ⟨disk, none⟩
    let w := start.after P path events
    let key := lockKey station.subject (station.memberId station.options.index)
    key ∉ (start.recovered P path).locks → key ∈ (w.recovered P path).locks →
    ∃ frame, (∀ other, Took P path start events key other ↔ other = frame) ∧
      ∀ j, w.process = some j →
        (∀ f, (pending j).head? = some f →
          Resent P station j f ∧ (f = frame ↔ Foremost j.state frame)) ∧
        ((pending j).head? = none → Silent P station j) := by
  intro start w key free held
  have agreeing : Agreeing P path start := agreeing_dead
  have mild : ∀ e ∈ events, e.mild := fun e mem => (quiet e mem).mild
  have agreeing' := (history_recovered agreeing mild apart).1
  obtain ⟨frame, took⟩ := lock_taken agreeing mild apart free held
  refine ⟨frame, fun other => ⟨fun took' => took_once agreeing mild apart took' took, ?_⟩, ?_⟩
  · rintro rfl
    exact took
  · intro j alive
    have live := agreeing_recovered agreeing' alive
    have voted : key ∈ j.state.locks := live ▸ held
    have filed := (agreeing' j alive).filed
    refine ⟨fun f first => ⟨resent_head voted first, ?_⟩, silent_empty voted⟩
    rw [← head_pending_iff filed]
    constructor
    · rintro rfl
      exact first
    · intro foremost
      exact Option.some.inj (first.symm.trans foremost)

def voteOf (subject : Subject) (bytes : Bytes) (sequence : UInt64) : Event :=
  .operate (.commitVote subject "a" (.new bytes sequence)) calm

theorem resent_vote_alone :
    let path : Path := ⟨"member", some "journal"⟩
    let start : World := ⟨Disk.empty, none⟩
    ∃ frame, Took postcard path start [.reopen none calm, voteOf deliberated [1] 5]
      (lockKey deliberated "a") frame := by
  intro path start
  have quiet : ∀ e ∈ [.reopen none calm, voteOf deliberated [1] 5], e.noFailure := by
    simp [voteOf, Event.noFailure, calm_noFailure]
  obtain ⟨frame, took, -⟩ := resent_vote postcard stationed path Disk.empty
    [.reopen none calm, voteOf deliberated [1] 5] (by decide) quiet (by decide)
    (by decide +kernel)
  exact ⟨frame, (took frame).mpr rfl⟩

/-- A vote on an earlier case is pending below this case's: it is what is sent again, and what
a restart puts back. -/
theorem resent_vote_earlier :
    let path : Path := ⟨"member", some "journal"⟩
    let start : World := ⟨Disk.empty, none⟩
    let events := [.reopen none calm, voteOf someSubject [1] 5, voteOf deliberated [2] 6]
    let w := start.after postcard path events
    Took postcard path start events (lockKey deliberated "a") (.new [2] 6) ∧
      w.process.map (fun j => (build postcard plain crew firstMember provisioned (fun _ => calm)
        .bindingSupport deliberated .none .none ⟨⟨w.disk, j⟩, []⟩).1) = some (.ok [1]) ∧
      w.process.map (fun j => (restoredEarly stationed j.state)[0]?) = some (some [1]) := by
  intro path start events w
  refine ⟨⟨[.reopen none calm, voteOf someSubject [1] 5], deliberated, "a", calm, [], rfl, rfl,
    ?_, ?_⟩, ?_, ?_⟩
  all_goals decide +kernel

end Resends
