import Lcq.FailedAppends

/-!
# Compactions that fail

Until its rename a compaction that fails has changed nothing. Behind it the
path names the new file, and a journal whose handle does not follow goes on
writing where no opening will look.
-/

namespace CompactionFailures

open ByteFormat Contracts CrashSafety FailedAppends FileSystem JournalOutcomes JournalRecords
  JournalRuns JournalState LogJournal OrderedMap Program

variable {P : Postcard} {path : Path} {env : Env}

theorem Mild.renameHolds (mild : Mild env) : RenameHolds env := by
  intro c listed
  have other := late_not_early listed
  cases fails : (env c).isFailure with
  | false => rfl
  | true =>
    rw [mild c fails] at other
    cases other

theorem mild_renamesHold {event : Event} (mild : event.mild) : RenamesHold event := by
  cases event with
  | operate op env => exact Mild.renameHolds mild
  | reopen entropy env => trivial
  | crash => trivial

/-- The compaction gets to its rename, and a call behind it does not succeed. -/
structure Detaches (P : Postcard) (env : Env) (s : Running) : Prop where
  encodes : P.format.encodeAll s.journal.state.snapshot ≠ none
  renamed : ∀ c, early c = true → env c = .done
  behind : ∃ c, late c = true ∧ env c ≠ .done

/-- The snapshot of a state is not an empty file. -/
theorem snapshot_length {state : State} {w : Bytes}
    (all : P.format.encodeAll state.snapshot = some w) : 0 < w.length := by
  have whole := RecordLog.Format.Whole.encoded P.format all
  cases w with
  | nil =>
    have scanned := P.format.scan_whole whole
    rw [P.format.scan_whole .nil] at scanned
    simp [State.snapshot] at scanned
  | cons b w => simp

/-- A journal whose compaction fails behind the rename is off the file of its path. -/
theorem detached {s : Running} (onFile : OnFile path s)
    (apart : path.extension ≠ some "compacting") (detaches : Detaches P env s) :
    ¬ OnFile path (compact P env s).2 := by
  obtain ⟨named, attached⟩ := onFile
  obtain ⟨encodes, renamed, c, listed, broken⟩ := detaches
  have compacted := compact_compacted P env s (named ▸ apart) attached.1
  generalize compact P env s = out at compacted
  rintro ⟨-, named', atEnd⟩
  cases compacted with
  | @kept stop t kept blame =>
    rcases blame with blame | ⟨-, none⟩
    · cases stop with
      | failed e =>
        obtain ⟨c, early, fails⟩ := blame
        rw [renamed c early] at fails
        cases fails
      | died =>
        obtain ⟨c, early, dies⟩ := blame
        rw [renamed c early] at dies
        cases dies
    · exact encodes none
  | @cut stop t file replaced blame handle =>
    rw [replaced.path, replaced.named] at named'
    have here := Option.some.inj named'
    rcases handle with old | fresh
    · apply replaced.moved
      rw [attached.1, here, old]
    · have long := snapshot_length replaced.snapshot
      rw [fresh] at atEnd
      dsimp only at atEnd
      omega
  | done replaced handle calls => exact broken (calls c listed)

/-- In a run whose compactions fail at most before or in their rename, and in which nothing
else fails: the journal writes at the end of the file its path names, and whatever an
operation that returned `Ok` set out to record is in what is recovered from there on,
and in what an opening finds. A compaction that fails behind its rename leaves the
journal elsewhere. -/
theorem compaction_failures (P : Postcard) (path : Path) (disk : Disk Path)
    (before : List Event) (apart : path.extension ≠ some "compacting")
    (mild : ∀ e ∈ before, e.mild) :
    let w := World.after P path ⟨disk, none⟩ before
    (∀ j, w.process = some j → OnFile path ⟨w.disk, j⟩) ∧
    (∀ j op env a, w.process = some j → Mild env →
      w.answer P (.operate op env) = some (.ok a) →
      let told := recordable P (op.entries j.state)
      (a ≠ .flag false → (∀ now, op ≠ .dropExpired now) → told = op.entries j.state) ∧
      ∀ later : List Event, (∀ e ∈ later, e.mild) →
        let u := w.next P path (.operate op env)
        let v := u.after P path later
        ∃ es, History P path u later es ∧
          v.recovered P path = (j.state.applyAll told).applyAll es ∧
          ∀ env' j' d, openJournal P env' path v.disk = (.ok j', d) →
            j'.state = v.recovered P path) ∧
    (∀ j env, w.process = some j → Detaches P env ⟨w.disk, j⟩ →
      ¬ OnFile path (compact P env ⟨w.disk, j⟩).2) := by
  intro w
  have onFile : ∀ j, w.process = some j → OnFile path ⟨w.disk, j⟩ :=
    run_onFile apart (w := ⟨disk, none⟩) nofun fun e mem => mild_renamesHold (mild e mem)
  obtain ⟨agreeing, -⟩ := history_recovered (w := ⟨disk, none⟩) agreeing_dead mild apart
  refine ⟨onFile, ?_, ?_⟩
  · intro j op env a alive calls ok told
    obtain ⟨j', t, alive', ran, next⟩ := World.answer_ok P path ok
    have same : j' = j := Option.some.inj (alive'.symm.trans alive)
    subst same
    refine ⟨op_ok_recordable ran, ?_⟩
    intro later quiet u v
    have telling := op_told (agreeing j' alive) calls apart op
    rw [ran] at telling
    obtain ⟨-, ⟨dead, -⟩ | ⟨-, sound, state⟩⟩ := telling
    · cases dead
    · have agreeing' : Agreeing P path u := by
        simp only [u, next]
        rintro _ ⟨⟩
        exact sound
      have here : u.recovered P path = j'.state.applyAll told := by
        rw [← state]
        apply agreeing_recovered agreeing'
        simp only [u, next]
      obtain ⟨-, es, history, recovered⟩ := history_recovered agreeing' quiet apart
      rw [here] at recovered
      refine ⟨es, history, recovered, ?_⟩
      intro env' j' d opened
      exact (openJournal_sound opened).2.1
  · intro j env alive detaches
    exact detached (onFile j alive) apart detaches

/-- A rename fails, then a vote is cast, then another compaction fails: the vote is locked. -/
theorem compaction_failures_renaming :
    let path : Path := ⟨"member", some "journal"⟩
    let w := World.after postcard path ⟨Disk.empty, none⟩
      [.reopen none calm, .operate .compact (failingAt .rename 0)]
    let vote := Op.commitVote someSubject "a" (.new [1, 2] 5)
    let later := [Event.operate .compact (failingAt .scratchSync 0), .crash]
    let v := (w.next postcard path (.operate vote calm)).after postcard path later
    lockKey someSubject "a" ∈ (v.recovered postcard path).locks := by
  intro path w vote later v
  have laws := (compaction_failures postcard path Disk.empty
    [.reopen none calm, .operate .compact (failingAt .rename 0)] (by decide)
    (by simp [Event.mild, calm_noFailure.mild, failingAt_mild (c := .rename) rfl])).2.1
  have lives : w.process.isSome = true := by decide
  obtain ⟨j, alive⟩ := Option.isSome_iff_exists.mp lives
  obtain ⟨told, rest⟩ := laws j vote calm .unit alive calm_noFailure.mild (by decide)
  obtain ⟨es, -, (recovered : v.recovered postcard path = _), -⟩ := rest later
    (by simp [later, Event.mild, failingAt_mild (c := .scratchSync) rfl])
  rw [recovered, told (by simp) (by simp [vote])]
  apply locks_applyAll
  by_cases held : lockKey someSubject "a" ∈ j.state.locks
  · exact locks_applyAll _ _ held
  · simp [vote, Op.entries, if_neg held, apply_vote]

/-- The new file is in place when the flush of its directory fails. The journal goes on in
the old one: a reservation that returns `Ok` is not recovered. -/
theorem compaction_failures_unsynced :
    let path : Path := ⟨"member", some "journal"⟩
    let w := World.after postcard path ⟨Disk.empty, none⟩
      [.reopen none calm, .operate .reserveSequence calm]
    let v := w.next postcard path (.operate .compact (failingAt .syncRenamed 0))
    let u := v.next postcard path (.operate .reserveSequence calm)
    let again := World.after postcard path u [.crash, .reopen none calm]
    w.answer postcard (.operate .compact (failingAt .syncRenamed 0)) =
        some (.error (.io .os)) ∧
      v.process.map (fun j => decide (v.disk.names path = some j.file.file)) = some false ∧
      v.answer postcard (.operate .reserveSequence calm) = some (.ok (.number 1)) ∧
      (u.recovered postcard path).nextSequence = 1 ∧
      again.answer postcard (.operate .reserveSequence calm) = some (.ok (.number 1)) := by
  decide

end CompactionFailures
