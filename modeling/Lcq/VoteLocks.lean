import Lcq.CrashSafety

/-!
# One vote per case, for ever

A lock that has been taken is held in every later state, and a pending frame
stays until it is acknowledged or expires. Locks and frames come and go by
entries alone, so both laws are read off the entries a run tells.
-/

namespace VoteLocks

open ByteFormat Contracts CrashSafety FileSystem JournalOutcomes JournalRecords JournalRuns
  JournalState LogJournal OrderedMap Program

/-! ## What entries do to the pending frames -/

/-- The entry neither files a frame under the number nor retires it. -/
def Leaves (sequence : UInt64) : Entry → Prop
  | .vote _ other _ _ | .frame other _ _ | .retired other => other ≠ sequence
  | _ => True

theorem pending_leaves (s : State) (e : Entry) {k : UInt64} (leaves : Leaves k e) :
    (s.apply e).pending[k]? = s.pending[k]? := by
  cases e with
  | vote | frame => simp only [State.apply, State.addFrame, get_insert, if_neg leaves]
  | retired => simp only [State.apply, get_erase, if_neg leaves]
  | _ => rfl

theorem pending_leaves_all (es : List Entry) (s : State) {k : UInt64}
    (leaves : ∀ e ∈ es, Leaves k e) : (s.applyAll es).pending[k]? = s.pending[k]? := by
  induction es generalizing s with
  | nil => rfl
  | cons e es ih =>
    rw [State.applyAll_cons, ih _ fun d mem => leaves d (List.mem_cons_of_mem _ mem),
      pending_leaves s e (leaves e List.mem_cons_self)]

/-- A frame is pending because it was, or because an entry filed it. -/
theorem pending_apply {s : State} {e : Entry} {k : UInt64} {f : OutgoingFrame}
    (found : (s.apply e).pending[k]? = some f) :
    s.pending[k]? = some f ∨ (∃ key, e = voteEntry key f) ∨ e = frameEntry f := by
  cases e with
  | vote key sequence bytes expiresAt =>
    simp only [State.apply, State.addFrame, get_insert] at found
    split at found
    · cases expiresAt <;> cases found <;> exact Or.inr (Or.inl ⟨key, rfl⟩)
    · exact Or.inl found
  | frame sequence bytes expiresAt =>
    simp only [State.apply, State.addFrame, get_insert] at found
    split at found
    · cases expiresAt <;> cases found <;> exact Or.inr (Or.inr rfl)
    · exact Or.inl found
  | retired sequence =>
    simp only [State.apply, get_erase] at found
    split at found
    · cases found
    · exact Or.inl found
  | sequence | seen | epoch | witnessed | lock => exact Or.inl found

/-- Where every frame comes from a vote, its lock is held. -/
theorem pending_locked {es : List Entry} (noFrame : ∀ e ∈ es, ∀ f, e ≠ frameEntry f) {s : State}
    {k : UInt64} {f : OutgoingFrame} (found : (s.applyAll es).pending[k]? = some f) :
    s.pending[k]? = some f ∨
      ∃ key, voteEntry key f ∈ es ∧ key ∈ (s.applyAll es).locks := by
  induction es generalizing s with
  | nil => exact Or.inl found
  | cons e es ih =>
    rcases ih (fun d mem => noFrame d (List.mem_cons_of_mem _ mem)) found with
      before | ⟨key, mem, held⟩
    · rcases pending_apply before with here | ⟨key, rfl⟩ | rfl
      · exact Or.inl here
      · refine Or.inr ⟨key, List.mem_cons_self, locks_applyAll es _ ?_⟩
        rw [apply_vote, mem_insert_iff]
        exact Or.inl rfl
      · exact absurd rfl (noFrame _ List.mem_cons_self f)
    · exact Or.inr ⟨key, List.mem_cons_of_mem _ mem, held⟩

/-! ## What operations tell -/

variable {P : Postcard} {path : Path}

/-- An entry about a pending frame is a vote, told by the commitment of its frame, or a
retirement, told by an acknowledgement or a sweep. -/
theorem op_entries {state : State} {op : Op} {e : Entry} (told : e ∈ op.entries state) :
    (∃ subject voter f, op = .commitVote subject voter f ∧
        e = voteEntry (lockKey subject voter) f) ∨
      (∃ sequence, e = .retired sequence ∧ (op = .acknowledge sequence ∨
        ∃ now, op = .dropExpired now ∧ sequence ∈ expired state now)) ∨
      ((∀ k, Leaves k e) ∧ (∀ key f, e ≠ voteEntry key f) ∧ ∀ f, e ≠ frameEntry f) := by
  cases op with
  | commitVote subject voter frame =>
    simp only [Op.entries] at told
    split at told
    · cases told
    · rw [List.mem_singleton] at told
      exact Or.inl ⟨subject, voter, frame, rfl, told⟩
  | acknowledge sequence =>
    simp only [Op.entries] at told
    split at told
    · rw [List.mem_singleton] at told
      exact Or.inr (Or.inl ⟨sequence, told, Or.inl rfl⟩)
    · cases told
  | dropExpired now =>
    obtain ⟨sequence, mem, rfl⟩ := List.mem_map.mp told
    exact Or.inr (Or.inl ⟨sequence, rfl, Or.inr ⟨now, rfl, mem⟩⟩)
  | reserveSequence =>
    rw [Op.entries, List.mem_singleton] at told
    subst told
    exact Or.inr (Or.inr ⟨fun _ => trivial, by rintro _ _ ⟨⟩, by rintro _ ⟨⟩⟩)
  | witness author frame | enterEpoch epoch | markSeen sender sequence =>
    simp only [Op.entries] at told
    split at told
    · cases told
    · rw [List.mem_singleton] at told
      subst told
      exact Or.inr (Or.inr ⟨fun _ => trivial, by rintro _ _ ⟨⟩, by rintro _ ⟨⟩⟩)
  | compact => cases told

/-- A run tells a vote only for the commitment of that frame under that key. -/
theorem event_entries {w : World} {event : Event} {e : Entry} (told : e ∈ w.entries P path event) :
    (∃ op env j, event = .operate op env ∧ w.process = some j ∧ e ∈ op.entries j.state) ∨
      ∃ next, e = .sequence next := by
  cases event with
  | operate op env =>
    simp only [World.entries] at told
    split at told
    · cases told
    · rename_i j alive
      exact Or.inl ⟨op, env, j, rfl, alive, told⟩
  | reopen entropy env =>
    simp only [World.entries] at told
    split at told
    · simp only [startEntries] at told
      split at told
      · rw [List.mem_singleton] at told
        exact Or.inr ⟨_, told⟩
      · cases told
    · cases told
  | crash => cases told

theorem history_noFrame {w : World} {events : List Event} {es : List Entry}
    (history : History P path w events es) : ∀ e ∈ es, ∀ f, e ≠ frameEntry f := by
  induction history with
  | nil => exact nofun
  | cons k full rest ih =>
    intro e mem f
    rcases List.mem_append.mp mem with here | later
    · have told := (List.mem_filter.mp (List.mem_of_mem_take here)).1
      rcases event_entries told with ⟨op, env, j, -, -, told⟩ | ⟨next, rfl⟩
      · rcases op_entries told with ⟨_, _, _, -, rfl⟩ | ⟨_, rfl, -⟩ | ⟨-, -, other⟩
        · nofun
        · nofun
        · exact other f
      · nofun
    · exact ih e later f

theorem history_vote {w : World} {events : List Event} {es : List Entry}
    (history : History P path w events es) {key : String} {f : OutgoingFrame}
    (told : voteEntry key f ∈ es) : ∃ subject voter env,
      .operate (.commitVote subject voter f) env ∈ events ∧ key = lockKey subject voter := by
  induction history with
  | nil => cases told
  | cons k full rest ih =>
    rcases List.mem_append.mp told with here | later
    · have told := (List.mem_filter.mp (List.mem_of_mem_take here)).1
      rcases event_entries told with ⟨op, env, j, rfl, -, told⟩ | ⟨next, same⟩
      · rcases op_entries told with ⟨subject, voter, g, rfl, same⟩ | ⟨_, same, -⟩ | ⟨-, other, -⟩
        · obtain ⟨rfl, rfl⟩ := voteEntry_inj same
          exact ⟨subject, voter, env, List.mem_cons_self, rfl⟩
        · cases same
        · exact absurd rfl (other key f)
      · cases same
    · obtain ⟨subject, voter, env, mem, named⟩ := ih later
      exact ⟨subject, voter, env, List.mem_cons_of_mem _ mem, named⟩

/-! ## The laws -/

/-- The step neither retires the frame, by acknowledgement or expiry, nor commits another
one under its number. -/
def Spares (f : OutgoingFrame) : Event → Prop
  | .operate (.acknowledge sequence) _ => sequence ≠ f.sequence
  | .operate (.dropExpired now) _ =>
    (f.expiresAt.any fun deadline => decide (deadline.secs < now.secs)) = false
  | .operate (.commitVote _ _ g) _ => g.sequence ≠ f.sequence
  | _ => True

/-- A sweep retires expired frames only. -/
theorem expired_frame {state : State} (filed : Filed state) {now : Timestamp} {f : OutgoingFrame}
    (pending : state.pending[f.sequence]? = some f) (swept : f.sequence ∈ expired state now) :
    (f.expiresAt.any fun deadline => decide (deadline.secs < now.secs)) = true := by
  obtain ⟨g, mem, number⟩ := List.mem_map.mp swept
  obtain ⟨listed, old⟩ := List.mem_filter.mp mem
  obtain ⟨⟨k, _⟩, found, rfl⟩ := List.mem_map.mp listed
  have found := Std.ExtTreeMap.mem_toList_iff_getElem?_eq_some.mp found
  have own := (filed _ _ found).1
  rw [← own, number, pending] at found
  cases found
  exact old

theorem spared_step {w : World} (agreeing : Agreeing P path w) {event : Event}
    (mild : event.mild) (apart : path.extension ≠ some "compacting") {f : OutgoingFrame}
    (pending : (w.recovered P path).pending[f.sequence]? = some f) (spares : Spares f event) :
    ((w.next P path event).recovered P path).pending[f.sequence]? = some f := by
  obtain ⟨-, k, -, recovered⟩ := next_stepped agreeing mild apart
  rw [recovered, pending_leaves_all, pending]
  intro e mem
  have told := (List.mem_filter.mp (List.mem_of_mem_take mem)).1
  rcases event_entries told with ⟨op, env, j, rfl, alive, told⟩ | ⟨next, rfl⟩
  · rcases op_entries told with ⟨_, _, g, rfl, rfl⟩ | ⟨sequence, rfl, by_op⟩ | ⟨leaves, -⟩
    · exact spares
    · rcases by_op with rfl | ⟨now, rfl, swept⟩
      · exact spares
      · rintro rfl
        have live := agreeing_recovered agreeing alive
        rw [live] at pending
        have old := expired_frame (agreeing j alive).filed pending swept
        rw [spares] at old
        cases old
    · exact leaves _
  · trivial

theorem spared_run {w : World} (agreeing : Agreeing P path w) {events : List Event}
    (mild : ∀ e ∈ events, e.mild) (apart : path.extension ≠ some "compacting")
    {f : OutgoingFrame} (pending : (w.recovered P path).pending[f.sequence]? = some f)
    (spares : ∀ e ∈ events, Spares f e) :
    ((w.after P path events).recovered P path).pending[f.sequence]? = some f := by
  induction events generalizing w with
  | nil => exact pending
  | cons event events ih =>
    have calls := mild event List.mem_cons_self
    exact ih (next_stepped agreeing calls apart).1
      (fun e mem => mild e (List.mem_cons_of_mem _ mem))
      (spared_step agreeing calls apart pending (spares event List.mem_cons_self))
      (fun e mem => spares e (List.mem_cons_of_mem _ mem))

/-- A lock that is held is held for ever. -/
theorem locked_run {w : World} (agreeing : Agreeing P path w) {events : List Event}
    (mild : ∀ e ∈ events, e.mild) (apart : path.extension ≠ some "compacting")
    {key : String} (held : key ∈ (w.recovered P path).locks) :
    key ∈ ((w.after P path events).recovered P path).locks := by
  obtain ⟨-, es, -, recovered⟩ := history_recovered agreeing mild apart
  rw [recovered]
  exact locks_applyAll es _ held

theorem commit_held {s : Running} {subject : Subject} {voter : String}
    (held : lockKey subject voter ∈ s.journal.state.locks) (frame : OutgoingFrame) (env : Env) :
    Op.run P env (.commitVote subject voter frame) s =
      (.error (.failed (.journal .alreadyVoted)), s) := by
  simp [Op.run, answering, mapError, commitVote, held]

/-- A commitment that returns `Ok` has its lock and its frame in the file. -/
theorem commit_ok {w : World} (agreeing : Agreeing P path w) {env : Env} (calls : Mild env)
    (apart : path.extension ≠ some "compacting") {subject : Subject} {voter : String}
    {frame : OutgoingFrame}
    (ok : w.answer P (.operate (.commitVote subject voter frame) env) = some (.ok .unit)) :
    let v := w.next P path (.operate (.commitVote subject voter frame) env)
    lockKey subject voter ∈ (v.recovered P path).locks ∧
      (v.recovered P path).pending[frame.sequence]? = some frame := by
  intro v
  obtain ⟨j, t, alive, ran, next⟩ := World.answer_ok P path ok
  have free : lockKey subject voter ∉ j.state.locks := by
    intro held
    rw [commit_held (s := ⟨w.disk, j⟩) held] at ran
    cases ran
  have told := op_told (agreeing j alive) calls apart (.commitVote subject voter frame)
  rw [ran, op_ok_recordable ran (by simp) (by simp), Op.entries, if_neg free] at told
  obtain ⟨-, ⟨dead, -⟩ | ⟨-, sound, state⟩⟩ := told
  · cases dead
  · have live : v.recovered P path = t.journal.state := by
      simp only [v, next]
      exact agreeing_recovered (w := ⟨t.disk, some t.journal⟩) (by rintro _ ⟨⟩; exact sound) rfl
    rw [live, state, State.applyAll_cons, State.applyAll_nil, apply_vote]
    simp

/-- The state a run without failures recovers, wherever it stands: the lock of every frame
the run has committed is held; a commitment that returned `Ok` is refused ever after and
changes nothing; and its frame is pending until it is acknowledged or expires. -/
theorem one_vote (P : Postcard) (path : Path) (disk : Disk Path) (before : List Event)
    (apart : path.extension ≠ some "compacting") (crashes : ∀ e ∈ before, e.noFailure) :
    let w := World.after P path ⟨disk, none⟩ before
    (∀ j, w.process = some j → j.state = w.recovered P path) ∧
    (∀ (k : UInt64) f, (w.recovered P path).pending[k]? = some f →
      (replay P (disk.read path)).1.pending[k]? = some f ∨
        ∃ subject voter env, .operate (.commitVote subject voter f) env ∈ before ∧
          lockKey subject voter ∈ (w.recovered P path).locks) ∧
    (∀ subject voter frame env, NoFailure env →
      let commit := Event.operate (.commitVote subject voter frame) env
      w.answer P commit = some (.ok .unit) →
      ∀ later : List Event, (∀ e ∈ later, e.noFailure) →
        let v := (w.next P path commit).after P path later
        (∀ subject' voter' frame' env', lockKey subject' voter' = lockKey subject voter →
          let again := Event.operate (.commitVote subject' voter' frame') env'
          v.process ≠ none → v.answer P again = some (.error (.journal .alreadyVoted)) ∧
            v.next P path again = v) ∧
        ((∀ e ∈ later, Spares frame e) →
          (v.recovered P path).pending[frame.sequence]? = some frame)) := by
  intro w
  obtain ⟨agreeing, es, history, recovered⟩ :=
    history_recovered (w := ⟨disk, none⟩) agreeing_dead
      (fun e mem => (crashes e mem).mild) apart
  refine ⟨fun j alive => (agreeing_recovered agreeing alive).symm, ?_, ?_⟩
  · intro k f found
    rw [recovered] at found ⊢
    refine (pending_locked (history_noFrame history) found).imp id ?_
    rintro ⟨key, told, held⟩
    obtain ⟨subject, voter, env, mem, rfl⟩ := history_vote history told
    exact ⟨subject, voter, env, mem, held⟩
  · intro subject voter frame env calls commit ok later quiet v
    have mild : ∀ e ∈ later, e.mild := fun e mem => (quiet e mem).mild
    obtain ⟨locked, pending⟩ := commit_ok agreeing calls.mild apart ok
    have agreeing' : Agreeing P path (w.next P path commit) :=
      (operate_stepped agreeing calls.mild apart _).1
    refine ⟨?_, spared_run agreeing' mild apart pending⟩
    intro subject' voter' frame' env' same again lives
    obtain ⟨j, alive⟩ := Option.ne_none_iff_exists'.mp lives
    have held : lockKey subject' voter' ∈ j.state.locks := by
      have live := agreeing_recovered (history_recovered agreeing' mild apart).1 alive
      rw [same, ← live]
      exact locked_run agreeing' mild apart locked
    have refused := commit_held (P := P) (s := ⟨v.disk, j⟩) held frame' env'
    simp only [again, World.answer, World.next, alive, refused, World.left]
    refine ⟨trivial, ?_⟩
    rw [← alive]

/-- A commitment in a first life, a compaction that dies, a second life: the vote holds. -/
theorem one_vote_two_lives :
    let path : Path := ⟨"member", some "journal"⟩
    let commit := Event.operate (.commitVote someSubject "a" (.new [1, 2] 5)) calm
    let w := World.after postcard path ⟨Disk.empty, none⟩ [.reopen none calm]
    let later := [Event.operate .compact (dyingAt .rename 0), .reopen none calm]
    let v := (w.next postcard path commit).after postcard path later
    v.answer postcard commit = some (.error (.journal .alreadyVoted)) := by
  intro path commit w later v
  have laws := one_vote postcard path Disk.empty [.reopen none calm] (by decide)
    (by simp [Event.noFailure, calm_noFailure])
  have quiet : ∀ e ∈ later, e.noFailure := by
    simp [later, Event.noFailure, calm_noFailure, dyingAt_noFailure]
  exact ((laws.2.2 someSubject "a" (.new [1, 2] 5) calm calm_noFailure (by decide) later quiet).1
    someSubject "a" (.new [1, 2] 5) calm rfl (by decide +kernel)).1

/-- Under a name that is the scratch file's own, a compaction empties the journal it is
about to replace: a process that dies there has forgotten the vote. -/
theorem one_vote_compacting :
    let path : Path := ⟨"member", some "compacting"⟩
    let commit := Event.operate (.commitVote someSubject "a" (.new [1, 2] 5)) calm
    let w := World.after postcard path ⟨Disk.empty, none⟩ [.reopen none calm]
    let later := [Event.operate .compact (dyingAt (.scratchWrite 0) 0), .reopen none calm]
    let v := (w.next postcard path commit).after postcard path later
    (∀ e ∈ later, e.noFailure) ∧ w.answer postcard commit = some (.ok .unit) ∧
      v.answer postcard commit = some (.ok .unit) := by
  intro path commit w later v
  refine ⟨?_, by decide, by decide⟩
  simp [later, Event.noFailure, calm_noFailure, dyingAt_noFailure]

end VoteLocks
