import Lcq.CrashSafety

/-!
# What a failed append leaves behind

A write that fails may have put part of its record in the file, and a flush
that fails leaves the whole record there although the caller is told that
nothing happened. What the file replays to afterwards depends on the bytes
alone: on those of the failed append and on a torn tail that earlier ones left.
-/

namespace FailedAppends

open ByteFormat Contracts CrashSafety FileSystem JournalOutcomes JournalRecords JournalRuns
  JournalState LogJournal OrderedMap Program

variable {P : Postcard} {path : Path} {env : Env}

/-! ## The handle stays at the end of the file -/

/-- The journal is open on the path and writes at the end of the file there. -/
def OnFile (path : Path) (s : Running) : Prop := s.journal.path = path ∧ Attached s

/-- No call of a compaction fails once the scratch file is in the journal's place. -/
def RenameHolds (env : Env) : Prop := ∀ c, late c = true → (env c).isFailure = false

theorem append_onFile (i : Nat) (entry : Entry) : Keeps (OnFile path) (append P env i entry) := by
  rintro s ⟨named, attached⟩ lives
  have appended := append_appended P env i entry s
  generalize append P env i entry s = out at appended lives
  cases appended with
  | whole made written synced => exact ⟨named, put_attached attached _⟩
  | unmade made => exact ⟨named, attached⟩
  | refused made fate => exact ⟨named, put_attached attached _⟩
  | died made fate => exact absurd rfl lives

theorem record_onFile (i : Nat) (entry : Entry) (update : State → State) :
    Keeps (OnFile path) (record P env i entry update) :=
  (append_onFile i entry).bind fun _ => Keeps.change fun _ held => held

theorem compact_onFile (apart : path.extension ≠ some "compacting") (holds : RenameHolds env) :
    Keeps (OnFile path) (compact P env) := by
  rintro s ⟨named, attached⟩ lives
  have compacted := compact_compacted P env s (named ▸ apart) attached.1
  generalize compact P env s = out at compacted lives
  cases compacted with
  | kept kept blame => exact ⟨kept.journal ▸ named, kept.attached attached⟩
  | @cut stop t file replaced blame handle =>
    cases stop with
    | died => exact absurd rfl lives
    | failed e =>
      obtain ⟨c, listed, fails⟩ := blame
      rw [holds c listed] at fails
      cases fails
  | done replaced handle =>
    refine ⟨replaced.path.trans named, ?_⟩
    rw [Attached, handle, replaced.path]
    exact ⟨replaced.named, rfl⟩

/-- A compaction that lives leaves the file as it was or replaying to the live state. -/
theorem compact_settled (apart : path.extension ≠ some "compacting") (holds : RenameHolds env)
    {s : Running} (onFile : OnFile path s) (filed : Filed s.journal.state)
    (lives : (compact P env s).1 ≠ .error .died) :
    (compact P env s).2.journal.state = s.journal.state ∧
      (bytes (compact P env s).2 = bytes s ∨ replay P (bytes (compact P env s).2) =
        (s.journal.state, (bytes (compact P env s).2).length)) := by
  obtain ⟨named, attached⟩ := onFile
  have compacted := compact_compacted P env s (named ▸ apart) attached.1
  generalize compact P env s = out at compacted lives
  cases compacted with
  | kept kept blame =>
    exact ⟨congrArg Journal.state kept.journal, Or.inl (kept.bytes attached)⟩
  | @cut stop t file replaced blame handle =>
    cases stop with
    | died => exact absurd rfl lives
    | failed e =>
      obtain ⟨c, listed, fails⟩ := blame
      rw [holds c listed] at fails
      cases fails
  | done replaced handle =>
    refine ⟨replaced.state, Or.inr ?_⟩
    rw [replaced.bytes]
    exact replay_snapshot P filed replaced.snapshot

theorem compactIfLarge_onFile (apart : path.extension ≠ some "compacting")
    (holds : RenameHolds env) : Keeps (OnFile path) (compactIfLarge P env) := by
  refine Keeps.read.bind fun s => ?_
  split
  · exact Keeps.pure ()
  · refine (compact_onFile apart holds).caught.bind fun answer => ?_
    cases answer with
    | ok => exact Keeps.pure ()
    | error error => exact Keeps.change fun _ held => held

theorem retireAll_onFile (sequences : List UInt64) (i : Nat) :
    Keeps (OnFile path) (retireAll P env i sequences) := by
  induction sequences generalizing i with
  | nil => exact Keeps.pure ()
  | cons sequence sequences ih =>
    exact (record_onFile i _ _).caught.bind fun _ => ih (i + 1)

theorem recordUnless_onFile (apart : path.extension ≠ some "compacting")
    (holds : RenameHolds env) (known : Bool) (entry : Entry) (update : State → State) :
    Keeps (OnFile path) (recordUnless P env known entry update) := by
  cases known with
  | true => exact Keeps.pure ()
  | false =>
    exact (record_onFile 0 entry update).bind fun _ => compactIfLarge_onFile apart holds

theorem op_onFile (apart : path.extension ≠ some "compacting") (holds : RenameHolds env)
    (op : Op) : Keeps (OnFile path) (op.run P env) := by
  have compacting : Keeps (OnFile path) (compactIfLarge P env) :=
    compactIfLarge_onFile apart holds
  cases op with
  | commitVote subject voter frame =>
    refine (Keeps.mapError (Keeps.read.bind fun s => ?_)).bind fun _ => Keeps.pure _
    dsimp only
    split
    · exact Keeps.fail _
    · exact (record_onFile 0 _ _).bind fun _ => compacting
  | reserveSequence =>
    refine (Keeps.mapError (Keeps.read.bind fun s => ?_)).bind fun _ => Keeps.pure _
    exact (record_onFile 0 _ _).bind fun _ => compacting.bind fun _ => Keeps.pure _
  | acknowledge sequence =>
    refine (Keeps.mapError (Keeps.read.bind fun s => ?_)).bind fun _ => Keeps.pure _
    split
    · exact Keeps.pure false
    · refine (record_onFile 0 _ _).caught.bind fun answer => ?_
      cases answer with
      | error e => exact Keeps.pure false
      | ok => exact compacting.bind fun _ => Keeps.pure true
  | dropExpired now =>
    refine (Keeps.mapError (Keeps.read.bind fun s => ?_)).bind fun _ => Keeps.pure _
    exact (retireAll_onFile _ 0).bind fun _ => compacting
  | witness author frame =>
    refine (Keeps.mapError (Keeps.read.bind fun s => ?_)).bind fun _ => Keeps.pure _
    exact recordUnless_onFile apart holds _ _ _
  | enterEpoch epoch =>
    refine (Keeps.mapError (Keeps.read.bind fun s => ?_)).bind fun _ => Keeps.pure _
    exact recordUnless_onFile apart holds _ _ _
  | markSeen sender sequence =>
    refine (Keeps.mapError (Keeps.read.bind fun s => ?_)).bind fun _ => Keeps.pure _
    exact recordUnless_onFile apart holds _ _ _
  | compact => exact (compact_onFile apart holds).mapError.bind fun _ => Keeps.pure _

/-- Appends may fail in a step, and openings, and a compaction up to its rename. -/
def RenamesHold : Event → Prop
  | .operate _ env => RenameHolds env
  | _ => True

theorem next_onFile (apart : path.extension ≠ some "compacting") {w : World}
    (onFile : ∀ j, w.process = some j → OnFile path ⟨w.disk, j⟩) {event : Event}
    (holds : RenamesHold event) :
    ∀ j, (w.next P path event).process = some j → OnFile path ⟨(w.next P path event).disk, j⟩ := by
  cases event with
  | crash => rintro _ ⟨⟩
  | operate op env =>
    cases alive : w.process with
    | none =>
      have same : w.next P path (.operate op env) = w := by simp [World.next, alive]
      rw [same]
      exact onFile
    | some j =>
      have kept := op_onFile (P := P) apart holds op ⟨w.disk, j⟩ (onFile j alive)
      have result : w.next P path (.operate op env) = World.left (op.run P env ⟨w.disk, j⟩) := by
        simp [World.next, alive]
      rw [result]
      generalize op.run P env ⟨w.disk, j⟩ = out at kept
      obtain ⟨(e | _) | a, t⟩ := out
      · rintro _ ⟨⟩
        exact kept (by simp)
      · rintro _ ⟨⟩
      · rintro _ ⟨⟩
        exact kept (by simp)
  | reopen entropy env =>
    cases alive : w.process with
    | some j =>
      have same : w.next P path (.reopen entropy env) = w := by simp [World.next, alive]
      rw [same]
      exact onFile
    | none =>
      have opened := openJournal_opened P env path w.disk
      cases entropy with
      | none =>
        simp only [World.next, alive, openWith]
        generalize openJournal P env path w.disk = out at opened
        cases opened with
        | stopped blame left => rintro _ ⟨⟩
        | opened named state size left attached =>
          rintro _ ⟨⟩
          exact ⟨named, attached⟩
      | some finish =>
        simp only [World.next, alive, openWith, openWithEntropy]
        generalize openJournal P env path w.disk = out at opened
        cases opened with
        | stopped blame left => rintro _ ⟨⟩
        | @opened j t named state size left attached =>
          dsimp only
          split
          · rename_i ran
            split at ran
            · have tried := tryAppend_tried P env 0 (.sequence (randomStart finish)) ⟨t, j⟩
              generalize tryAppend P env 0 (.sequence (randomStart finish)) ⟨t, j⟩ = out
                at tried ran
              cases tried with
              | whole made written synced =>
                cases ran
                rintro _ ⟨⟩
                exact ⟨named, put_attached attached _⟩
              | unmade made => cases ran
              | refused made fate => cases ran
              | died made fate => cases ran
            · cases ran
              rintro _ ⟨⟩
              exact ⟨named, attached⟩
          · rintro _ ⟨⟩

/-- In a run whose compactions do not fail behind their rename, every journal in use is
open on the file its path names and writes at the end of it. -/
theorem run_onFile (apart : path.extension ≠ some "compacting") {w : World}
    (onFile : ∀ j, w.process = some j → OnFile path ⟨w.disk, j⟩) {events : List Event}
    (holds : ∀ e ∈ events, RenamesHold e) :
    ∀ j, (w.after P path events).process = some j →
      OnFile path ⟨(w.after P path events).disk, j⟩ := by
  induction events generalizing w with
  | nil => exact onFile
  | cons event events ih =>
    exact ih (next_onFile apart onFile (holds event List.mem_cons_self))
      fun e mem => holds e (List.mem_cons_of_mem _ mem)

/-! ## The bytes of a refused append -/

/-- What a write puts down whose append is refused: a part of the record, or all of it. -/
def putDown (env : Env) (i : Nat) (r : Bytes) : Bytes :=
  match env (.write i) with
  | .fails n => r.take n
  | _ => r

/-- The bytes behind the last whole record, left by an append that was torn. -/
def tail (P : Postcard) (b : Bytes) : Bytes := b.drop (replay P b).2

theorem tail_clean {b : Bytes} (clean : Clean P b) : tail P b = [] := by
  rw [tail, clean, List.drop_length]

/-- Bytes put behind a file tell what they and the torn tail spell together. -/
theorem replay_behind (b w : Bytes) :
    (replay P (b ++ w)).1 = (replay P b).1.applyAll (P.format.scan (tail P b ++ w)).1 := by
  have parts : b ++ w = good P b ++ (tail P b ++ w) := by
    rw [← List.append_assoc, good, tail, List.take_append_drop]
  rw [parts, replay_scan, P.format.scan_append (good_whole P b), State.applyAll_append,
    ← (replay_good P b).1, replay_scan P (good P b), P.format.scan_whole (good_whole P b)]

/-- How a refused append ends: no record at all, or some of one behind the file. -/
theorem record_refused {s t : Running} {i : Nat} {entry : Entry} {update : State → State}
    {e : JournalError} (refused : record P env i entry update s = (.error (.failed e), t)) :
    e = .notDurable ∧ ((∃ error, encode P entry = .error error ∧ t = s.failedWith error) ∨
      ∃ r, encode P entry = .ok r ∧ t = (s.put (putDown env i r)).failedWith .os) := by
  have appended := append_appended P env i entry s
  simp only [record, bind_apply] at refused
  generalize append P env i entry s = out at appended refused
  cases appended with
  | whole made written synced => cases refused
  | unmade made =>
    cases refused
    exact ⟨rfl, Or.inl ⟨_, made, rfl⟩⟩
  | @refused r n made fate =>
    cases refused
    refine ⟨rfl, Or.inr ⟨r, made, ?_⟩⟩
    rcases fate with fails | ⟨written, -, rfl⟩
    · simp only [putDown, fails]
    · simp only [putDown, written, List.take_length]
  | died made fate => cases refused

/-! ## Refused operations -/

/-- The operations that record one fact. -/
def Single : Op → Prop
  | .dropExpired _ | .compact => False
  | _ => True

/-- What the caller sees of an operation whose append was refused. -/
def refusal : Op → Except Refusal Answer
  | .acknowledge _ => .ok (.flag false)
  | _ => .error (.journal .notDurable)

/-- An operation was refused: it had nothing to record, or its record could not be made,
or some of the record is behind the file. -/
def Refusing (P : Postcard) (env : Env) (op : Op) (s t : Running) : Prop :=
  (op.entries s.journal.state = [] ∧ t = s) ∨
    ∃ entry, op.entries s.journal.state = [entry] ∧
      ((∃ error, encode P entry = .error error ∧ t = s.failedWith error) ∨
        ∃ r, encode P entry = .ok r ∧ t = (s.put (putDown env 0 r)).failedWith .os)

theorem andThen_eq_failed {α β ε : Type} {r : Except (Stop ε) α × Running}
    {f : α → Prog Running ε β} {e : ε} {t : Running}
    (failed : andThen r f = (.error (.failed e), t)) :
    r = (.error (.failed e), t) ∨ ∃ a s, r = (.ok a, s) ∧ f a s = (.error (.failed e), t) := by
  obtain ⟨stop | a, s⟩ := r
  · cases failed
    exact Or.inl rfl
  · exact Or.inr ⟨a, s, rfl, failed⟩

theorem compactIfLarge_not_failed (s t : Running) (e : JournalError) :
    compactIfLarge P env s ≠ (.error (.failed e), t) := by
  intro failed
  simp only [compactIfLarge, bind_apply, read_apply, andThen_ok] at failed
  split at failed
  · cases failed
  · rcases andThen_eq_failed failed with here | ⟨answer, u, -, behind⟩
    · exact caught_not_failed _ _ e (congrArg Prod.fst here)
    · cases answer with
      | ok => cases behind
      | error error => cases behind

theorem recorded_refused {s t : Running} {entry : Entry} {update : State → State}
    {e : JournalError}
    (refused : andThen (record P env 0 entry update s) (fun _ => compactIfLarge P env) =
      (.error (.failed e), t)) :
    record P env 0 entry update s = (.error (.failed e), t) := by
  rcases andThen_eq_failed refused with here | ⟨_, u, -, behind⟩
  · exact here
  · exact absurd behind (compactIfLarge_not_failed u t e)

theorem answering_refused {α : Type} {answer : α → Answer} {p : Prog Running JournalError α}
    {s t : Running} {e : JournalError}
    (refused : answering answer p s = (.error (.failed (.journal e)), t)) :
    p s = (.error (.failed e), t) := by
  simp only [answering, bind_apply] at refused
  rcases andThen_eq_failed refused with here | ⟨_, _, -, behind⟩
  · unfold mapError at here
    split at here
    · cases here
    · cases here
      assumption
    · cases here
  · cases behind

theorem recordUnless_refused {s t : Running} {known : Bool} {entry : Entry}
    {update : State → State} {e : JournalError}
    (refused : recordUnless P env known entry update s = (.error (.failed e), t)) :
    known = false ∧ record P env 0 entry update s = (.error (.failed e), t) := by
  cases known with
  | true => cases refused
  | false => exact ⟨rfl, recorded_refused refused⟩

theorem op_refusing {op : Op} (single : Single op) {s t : Running}
    (refused : op.run P env s = ((refusal op).mapError Stop.failed, t)) :
    Refusing P env op s t := by
  cases op with
  | commitVote subject voter frame =>
    have ran := answering_refused refused
    simp only [commitVote, bind_apply, read_apply, andThen_ok] at ran
    split at ran
    · cases ran
    · rename_i free
      exact Or.inr ⟨_, if_neg free, (record_refused (recorded_refused ran)).2⟩
  | reserveSequence =>
    have ran := answering_refused refused
    simp only [reserveSequence, bind_apply, read_apply, andThen_ok] at ran
    rw [andThen_bind] at ran
    rcases andThen_eq_failed ran with here | ⟨_, _, -, behind⟩
    · exact Or.inr ⟨_, rfl, (record_refused (recorded_refused here)).2⟩
    · cases behind
  | acknowledge sequence =>
    obtain ⟨b, ran, flag⟩ := answering_eq_ok refused
    cases flag
    simp only [acknowledge, bind_apply, read_apply, andThen_ok] at ran
    split at ran
    · rename_i absent
      cases ran
      exact Or.inl ⟨if_neg (by simp [absent]), rfl⟩
    · rename_i held
      have held := eq_true_of_ne_false held
      obtain ⟨answer, u, recorded, rest⟩ := andThen_eq_ok ran
      cases answer with
      | error e =>
        cases rest
        unfold caught at recorded
        split at recorded
        · cases recorded
        · rename_i refused
          cases recorded
          exact Or.inr ⟨_, if_pos held, (record_refused refused).2⟩
        · cases recorded
      | ok =>
        obtain ⟨_, _, -, answered⟩ := andThen_eq_ok rest
        cases answered
  | witness author frame =>
    obtain ⟨absent, ran⟩ := recordUnless_refused (answering_refused refused)
    exact Or.inr ⟨_, if_neg (by simp [absent]), (record_refused ran).2⟩
  | enterEpoch epoch =>
    obtain ⟨later, ran⟩ := recordUnless_refused (answering_refused refused)
    exact Or.inr ⟨_, if_neg (by simp [later]), (record_refused ran).2⟩
  | markSeen sender sequence =>
    obtain ⟨higher, ran⟩ := recordUnless_refused (answering_refused refused)
    exact Or.inr ⟨_, if_neg (by simp [higher]), (record_refused ran).2⟩
  | dropExpired now => exact single.elim
  | compact => exact single.elim

/-- Every entry an operation sets out to record changes the state it was made for, but for
the reservation of the last number, whose successor does not exist. -/
theorem entry_absorbed {state : State} {op : Op} (single : Single op) {entry : Entry}
    (telling : op.entries state = [entry]) :
    state.apply entry = state ↔
      op = .reserveSequence ∧ state.nextSequence.toNat = 2 ^ 64 - 1 := by
  cases op with
  | commitVote subject voter frame =>
    simp only [Op.entries] at telling
    split at telling
    · cases telling
    · rename_i free
      cases telling
      constructor
      · intro same
        have held : lockKey subject voter ∈
            (state.apply (voteEntry (lockKey subject voter) frame)).locks := by
          rw [apply_vote, mem_insert_iff]
          exact Or.inl rfl
        rw [same] at held
        exact absurd held free
      · rintro ⟨⟨⟩, -⟩
  | reserveSequence =>
    cases telling
    have one : (1 : UInt64).toNat = 1 := rfl
    rw [apply_reserved]
    constructor
    · intro same
      have stuck := congrArg (fun s => s.nextSequence.toNat) same
      simp only [saturatingAdd_toNat] at stuck
      exact ⟨rfl, by omega⟩
    · rintro ⟨-, top⟩
      have stuck : saturatingAdd state.nextSequence 1 = state.nextSequence := by
        apply UInt64.toNat_inj.mp
        rw [saturatingAdd_toNat]
        omega
      rw [stuck]
  | acknowledge sequence =>
    simp only [Op.entries] at telling
    split at telling
    · rename_i held
      cases telling
      constructor
      · intro same
        obtain ⟨f, found⟩ := (contains_iff _ _).mp held
        have gone : (state.apply (.retired sequence)).pending[sequence]? = none := by
          simp only [State.apply, get_erase, if_true]
        rw [same, found] at gone
        cases gone
      · rintro ⟨⟨⟩, -⟩
    · cases telling
  | witness author frame =>
    simp only [Op.entries] at telling
    split at telling
    · cases telling
    · rename_i absent
      cases telling
      have absent := Bool.eq_false_iff.mpr absent
      constructor
      · intro same
        have found : (state.apply (.witnessed author frame)).witnessed[author]? = some frame := by
          rw [apply_witnessed absent]
          simp
        rw [same, (not_contains_iff _ _).mp absent] at found
        cases found
      · rintro ⟨⟨⟩, -⟩
  | enterEpoch epoch =>
    simp only [Op.entries] at telling
    split at telling
    · cases telling
    · rename_i later
      cases telling
      have later := Bool.eq_false_iff.mpr later
      constructor
      · intro same
        have entered := congrArg State.epoch same
        rw [apply_later_epoch later] at entered
        rw [← entered] at later
        simp at later
      · rintro ⟨⟨⟩, -⟩
  | markSeen sender sequence =>
    simp only [Op.entries] at telling
    split at telling
    · cases telling
    · rename_i higher
      cases telling
      have higher := Bool.eq_false_iff.mpr higher
      constructor
      · intro same
        have marked : (state.apply (.seen sender sequence)).seen[sender]? = some sequence := by
          rw [apply_higher_mark higher]
          simp
        rw [same] at marked
        rw [marked] at higher
        simp at higher
      · rintro ⟨⟨⟩, -⟩
  | dropExpired now => exact single.elim
  | compact => exact single.elim

theorem single_entries {state : State} {op : Op} (single : Single op) {entry : Entry}
    (mem : entry ∈ op.entries state) : op.entries state = [entry] := by
  have short : (op.entries state).length ≤ 1 := by
    cases op with
    | dropExpired now => exact single.elim
    | reserveSequence | compact => simp [Op.entries]
    | _ =>
      simp only [Op.entries]
      split <;> simp
  obtain ⟨other, entries⟩ : ∃ other, op.entries state = [other] := by
    apply List.length_eq_one_iff.mp
    have some := List.length_pos_of_mem mem
    omega
  rw [entries, List.mem_singleton] at mem
  rw [entries, mem]

/-! ## A failed operation leaves no trace -/

/-- The live state, and the one an opening would find, are the ones from before. -/
def NoTrace (P : Postcard) (path : Path) (w v : World) : Prop :=
  v.live = w.live ∧ v.recovered P path = w.recovered P path

/-- Bytes behind a file that an opening reads nothing new from: the whole records they
spell together with a torn tail leave the file's state as it is. -/
def Unread (P : Postcard) (b w : Bytes) : Prop :=
  (replay P b).1.applyAll (P.format.scan (tail P b ++ w)).1 = (replay P b).1

/-- On a file of whole records nothing new is read as long as the record is not whole, or
changes nothing. -/
theorem unread_clean {b r : Bytes} {entry : Entry} (clean : Clean P b)
    (made : encode P entry = .ok r) (env : Env) :
    Unread P b (putDown env 0 r) ↔
      (putDown env 0 r).length < r.length ∨ (replay P b).1.apply entry = (replay P b).1 := by
  have framed := (encode_format P entry r).mp made
  have part : ∃ k, putDown env 0 r = r.take k := by
    unfold putDown
    split
    · exact ⟨_, rfl⟩
    · exact ⟨r.length, List.take_length.symm⟩
  obtain ⟨k, part⟩ := part
  have spelled := P.format.scan_torn .nil framed k
  rw [List.nil_append] at spelled
  rw [Unread, tail_clean clean, List.nil_append, part, spelled, List.length_take]
  split
  · rename_i short
    simp only [State.applyAll_nil, true_iff]
    exact Or.inl (by omega)
  · rename_i long
    simp only [List.nil_append, State.applyAll_cons, State.applyAll_nil]
    constructor
    · exact Or.inr
    · rintro (short | same)
      · omega
      · exact same

theorem answer_refusal {w : World} {op : Op}
    (refused : w.answer P (.operate op env) = some (refusal op)) :
    ∃ j t, w.process = some j ∧
      op.run P env ⟨w.disk, j⟩ = ((refusal op).mapError Stop.failed, t) ∧
      w.next P path (.operate op env) = ⟨t.disk, some t.journal⟩ := by
  cases shape : refusal op with
  | ok a => exact World.answer_ok P path (shape ▸ refused)
  | error e => exact World.answer_error P path (shape ▸ refused)

/-- For every journal that a run reaches and every operation on it that is refused, the
operation has left no trace if and only if nothing is read of the bytes its write put down.
On a file of whole records that the live state agrees with, this is to say that the record
is not wholly there, or that it is the reservation of the last number. -/
theorem no_trace_iff (P : Postcard) (path : Path) (disk : Disk Path) (events : List Event)
    (op : Op) (env : Env) (apart : path.extension ≠ some "compacting")
    (holds : ∀ e ∈ events, RenamesHold e) (single : Single op)
    (refused : (World.after P path ⟨disk, none⟩ events).answer P (.operate op env) =
      some (refusal op)) :
    let w := World.after P path ⟨disk, none⟩ events
    let v := w.next P path (.operate op env)
    let file := w.disk.read path
    let told := w.entries P path (.operate op env)
    (NoTrace P path w v ↔ ∀ entry ∈ told, ∀ r, encode P entry = .ok r →
      Unread P file (putDown env 0 r)) ∧
    (Clean P file → w.live = some (w.recovered P path) →
      (NoTrace P path w v ↔ ∀ entry ∈ told, ∀ r, encode P entry = .ok r →
        (putDown env 0 r).length < r.length ∨
          op = .reserveSequence ∧ (w.recovered P path).nextSequence.toNat = 2 ^ 64 - 1)) := by
  intro w v file told
  obtain ⟨j, t, alive, ran, next⟩ : ∃ j t, w.process = some j ∧
      op.run P env ⟨w.disk, j⟩ = ((refusal op).mapError Stop.failed, t) ∧
      w.next P path (.operate op env) = ⟨t.disk, some t.journal⟩ := answer_refusal refused
  obtain ⟨named, attached⟩ := run_onFile (P := P) (w := ⟨disk, none⟩) apart nofun holds j alive
  have named : j.path = path := named
  have telling : told = op.entries j.state := by simp [told, World.entries, w, alive]
  have here : bytes ⟨w.disk, j⟩ = file := by simp only [bytes, named, file]
  have traced : NoTrace P path w v ↔ ∀ entry ∈ told, ∀ r, encode P entry = .ok r →
      Unread P file (putDown env 0 r) := by
    have live : NoTrace P path w v ↔
        t.journal.state = j.state ∧ (replay P (t.disk.read path)).1 = (replay P file).1 := by
      simp [NoTrace, World.live, World.recovered, v, w, next, alive, file]
    rw [live, telling]
    rcases op_refusing single ran with
      ⟨nothing, rfl⟩ | ⟨entry, one, ⟨error, unmade, rfl⟩ | ⟨r, made, rfl⟩⟩
    · have none : op.entries j.state = [] := nothing
      simp [none, file, w]
    · have one : op.entries j.state = [entry] := one
      simp [one, unmade, Running.failedWith, file, w]
    · have one : op.entries j.state = [entry] := one
      have put := put_bytes attached (putDown env 0 r)
      rw [here, bytes, put_path, named] at put
      simp only [one, List.mem_singleton, forall_eq, made, Except.ok.injEq, forall_eq']
      rw [Unread, ← replay_behind, ← put]
      exact and_iff_right rfl
  refine ⟨traced, fun clean agree => traced.trans ?_⟩
  have agree : j.state = w.recovered P path := by
    simpa [World.live, w, alive] using agree
  have absorbed (entry : Entry) (mem : entry ∈ told) :
      (replay P file).1.apply entry = (replay P file).1 ↔
        op = .reserveSequence ∧ (w.recovered P path).nextSequence.toNat = 2 ^ 64 - 1 := by
    rw [telling, agree] at mem
    exact entry_absorbed single (single_entries single mem)
  constructor
  · intro unread entry mem r made
    exact ((unread_clean clean made env).mp (unread entry mem r made)).imp id
      (absorbed entry mem).mp
  · intro short entry mem r made
    exact (unread_clean clean made env).mpr ((short entry mem r made).imp id
      (absorbed entry mem).mpr)

/-- The write of a vote fails behind its third byte: it is as if nobody had voted. -/
theorem no_trace_torn :
    let path : Path := ⟨"member", some "journal"⟩
    let w := World.after postcard path ⟨Disk.empty, none⟩ [.reopen none calm]
    let vote := Op.commitVote someSubject "a" (.new [1, 2] 5)
    NoTrace postcard path w (w.next postcard path (.operate vote (failingAt (.write 0) 3))) := by
  intro path w vote
  have iff := (no_trace_iff postcard path Disk.empty [.reopen none calm] vote
    (failingAt (.write 0) 3) (by decide) (by simp [RenamesHold]) trivial (by decide)).1
  have fresh : w.disk.read path = [] := by decide
  refine iff.mpr ?_
  intro entry mem r made
  have long := postcard.format.encode_length ((encode_format postcard entry r).mp made)
  have short : (putDown (failingAt (.write 0) 3) 0 r).length < r.length := by
    simp [putDown, failingAt]
    omega
  have clean : Clean postcard (w.disk.read path) := by
    rw [fresh]
    rfl
  exact (unread_clean clean made _).mpr (Or.inl short)

/-- The flush of a vote fails: the caller is told that nothing happened, and a restart
finds the vote locked and pending. A second attempt leaves two pending frames. -/
theorem no_trace_unsynced :
    let path : Path := ⟨"member", some "journal"⟩
    let w := World.after postcard path ⟨Disk.empty, none⟩ [.reopen none calm]
    let first := Event.operate (.commitVote someSubject "a" (.new [1, 2] 5))
      (failingAt (.sync 0) 0)
    let second := Event.operate (.commitVote someSubject "a" (.new [1, 3] 6)) calm
    let v := w.next postcard path first
    let u := v.next postcard path second
    w.answer postcard first = some (.error (.journal .notDurable)) ∧
      lockKey someSubject "a" ∉ (w.recovered postcard path).locks ∧
      lockKey someSubject "a" ∈ (v.recovered postcard path).locks ∧
      (v.recovered postcard path).pending.toList = [(5, .new [1, 2] 5)] ∧
      v.answer postcard second = some (.ok .unit) ∧
      (u.recovered postcard path).pending.toList = [(5, .new [1, 2] 5), (6, .new [1, 3] 6)] := by
  decide +kernel

end FailedAppends
