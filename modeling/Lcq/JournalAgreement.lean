import Lcq.CrashSafety
import Lcq.InMemory

/-!
# The two journals agree

Undisturbed, the journal on disk answers every operation and every question as
the journal in memory does, however often it is closed, reopened and compacted
in between. Both do to their state what the records of the operation say.
-/

namespace JournalAgreement

open ByteFormat Contracts CrashSafety FileSystem InMemory JournalOutcomes JournalRecords
  JournalRuns JournalState LogJournal OrderedMap Program

/-! ## Machines that answer -/

section machines

variable {σ τ ι ρ : Type} {next : σ → ι → ρ × σ} {next' : τ → ι → ρ × τ}

def replies (next : σ → ι → ρ × σ) : σ → List ι → List ρ
  | _, [] => []
  | s, i :: rest => (next s i).1 :: replies next (next s i).2 rest

def behind (next : σ → ι → ρ × σ) (s : σ) (inputs : List ι) : σ :=
  inputs.foldl (fun s i => (next s i).2) s

/-- Machines in related states that answer alike and stay related answer alike for ever. -/
theorem replies_related {R : List ι → σ → τ → Prop}
    (step : ∀ i rest s t, R (i :: rest) s t →
      (next s i).1 = (next' t i).1 ∧ R rest (next s i).2 (next' t i).2) :
    ∀ inputs s t, R inputs s t → replies next s inputs = replies next' t inputs := by
  intro inputs
  induction inputs with
  | nil => exact fun _ _ _ => rfl
  | cons i rest ih =>
    intro s t related
    obtain ⟨same, later⟩ := step i rest s t related
    simp only [replies, same, ih _ _ later]

theorem behind_related {R : List ι → σ → τ → Prop}
    (step : ∀ i rest s t, R (i :: rest) s t → R rest (next s i).2 (next' t i).2) :
    ∀ inputs rest s t, R (inputs ++ rest) s t →
      R rest (behind next s inputs) (behind next' t inputs) := by
  intro inputs
  induction inputs with
  | nil => exact fun _ _ _ related => related
  | cons i inputs ih => exact fun rest s t related => ih rest _ _ (step i _ s t related)

end machines

/-! ## Steps and replies -/

inductive Step where
  | operate (op : Op)
  | ask (query : Query)
  /-- Closed and opened again. -/
  | reopen

inductive Reply where
  | answered (result : Except Refusal Answer)
  | shown (view : View)
  | opened
  | lost

def replied : Except (Stop Refusal) Answer → Reply
  | .ok answer => .answered (.ok answer)
  | .error (.failed refusal) => .answered (.error refusal)
  | .error .died => .lost

variable (P : Postcard) (path : Path)

def onDisk (s : Running) : Step → Reply × Running
  | .operate op => (replied (op.run P calm s).1, (op.run P calm s).2)
  | .ask query => (.shown (query.ofLog s.journal), s)
  | .reopen =>
    match openJournal P calm path s.disk with
    | (.ok journal, disk) => (.opened, ⟨disk, journal⟩)
    | (.error _, disk) => (.lost, ⟨disk, s.journal⟩)

def inMemory (m : MemoryJournal) : Step → Reply × MemoryJournal
  | .operate op => (.answered ((m.run op).1.mapError .journal), (m.run op).2)
  | .ask query => (.shown (query.ofMemory m), m)
  | .reopen => (.opened, m)

/-! ## Records within the limit -/

def Recordable (e : Entry) : Prop := (P.format.encode e).isSome = true

/-- What the serialiser's sizes are relied on for: a counter alone is within the limit,
and so are a lock and a frame if both of them together are. -/
structure Slim : Prop where
  sequence : ∀ n, Recordable P (.sequence n)
  lock : ∀ key f, Recordable P (voteEntry key f) → Recordable P (.lock key)
  frame : ∀ key f, Recordable P (voteEntry key f) → Recordable P (frameEntry f)

instance (e : Entry) : Decidable (Recordable P e) := inferInstanceAs (Decidable (_ = _))

/-- What a step sets out to append to the log. -/
def Step.entries (m : MemoryJournal) : Step → List Entry
  | .operate op => op.entries m.meaning
  | _ => []

/-- No step of the run sets out to append a record beyond the limit. -/
def Fits : List Step → MemoryJournal → Prop
  | [], _ => True
  | step :: steps, m =>
    (∀ e ∈ step.entries m, Recordable P e) ∧ Fits steps (inMemory m step).2

instance Fits.decidable : (steps : List Step) → (m : MemoryJournal) → Decidable (Fits P steps m)
  | [], _ => instDecidableTrue
  | step :: steps, m =>
    have := Fits.decidable steps (inMemory m step).2
    inferInstanceAs (Decidable (_ ∧ _))

/-- What a compaction of the state would write is within the limit. -/
structure Compactable (s : State) : Prop where
  epoch : ∀ epoch, s.epoch = some epoch → Recordable P (.epoch epoch)
  seen : ∀ (sender : UInt16) sequence, s.seen[sender]? = some sequence →
    Recordable P (.seen sender sequence)
  lock : ∀ key ∈ s.locks, Recordable P (.lock key)
  frame : ∀ (k : UInt64) f, s.pending[k]? = some f → Recordable P (frameEntry f)
  witnessed : ∀ (author : String) bytes, s.witnessed[author]? = some bytes →
    Recordable P (.witnessed author bytes)

variable {P path}

theorem max16_either (a b : UInt16) : max a b = a ∨ max a b = b := by
  rw [show max a b = if a ≤ b then b else a from rfl]
  split
  · exact Or.inr rfl
  · exact Or.inl rfl

theorem max64_either (a b : UInt64) : max a b = a ∨ max a b = b := by
  rw [show max a b = if a ≤ b then b else a from rfl]
  split
  · exact Or.inr rfl
  · exact Or.inl rfl

theorem compactable_initial : Compactable P State.initial := by
  constructor <;> simp [State.initial]

theorem Compactable.insert {s : State} (fits : Compactable P s) {key : String} {f : OutgoingFrame}
    (lock : Recordable P (.lock key)) (frame : Recordable P (frameEntry f)) :
    Compactable P (s.apply (voteEntry key f)) := by
  rw [apply_vote]
  refine ⟨fits.epoch, fits.seen, ?_, ?_, fits.witnessed⟩
  · intro held mem
    rcases (mem_insert_iff _ _ _).mp mem with rfl | mem
    · exact lock
    · exact fits.lock held mem
  · intro k g found
    rw [get_insert] at found
    split at found
    · cases found
      exact frame
    · exact fits.frame k g found

/-- A record within the limit adds nothing to a compaction that is not. -/
theorem Compactable.apply (slim : Slim P) {s : State} (fits : Compactable P s) {e : Entry}
    (short : Recordable P e) (noFrame : ∀ f, e ≠ frameEntry f) (noLock : ∀ key, e ≠ .lock key) :
    Compactable P (s.apply e) := by
  cases e with
  | vote key sequence bytes expiresAt =>
    rw [vote_eq] at short ⊢
    exact fits.insert (slim.lock _ _ short) (slim.frame _ _ short)
  | lock key => exact absurd rfl (noLock key)
  | frame sequence bytes expiresAt => exact absurd (frame_eq ..) (noFrame _)
  | sequence next => exact ⟨fits.epoch, fits.seen, fits.lock, fits.frame, fits.witnessed⟩
  | epoch epoch =>
    refine ⟨?_, ?_, fits.lock, fits.frame, fits.witnessed⟩
    · rintro _ ⟨⟩
      cases h : s.epoch with
      | none => exact short
      | some held =>
        rcases max16_either held epoch with top | top
        · simpa only [top] using fits.epoch held h
        · simpa only [top] using short
    · intro sender sequence found
      simp only [State.apply] at found
      split at found
      · simp at found
      · exact fits.seen sender sequence found
  | seen sender sequence =>
    refine ⟨fits.epoch, ?_, fits.lock, fits.frame, fits.witnessed⟩
    intro other mark found
    simp only [State.apply, get_insert] at found
    split at found
    · rename_i here
      subst here
      cases found
      cases h : s.seen[sender]? with
      | none =>
        have floor : max (0 : UInt64) sequence = sequence := by
          apply UInt64.toNat_inj.mp
          rw [max64_toNat]
          exact Nat.max_eq_right (Nat.zero_le _)
        simpa only [Option.getD_none, floor] using short
      | some held =>
        rcases max64_either held sequence with top | top
        · simpa only [Option.getD_some, top] using fits.seen sender held h
        · simpa only [Option.getD_some, top] using short
    · exact fits.seen other mark found
  | retired sequence =>
    refine ⟨fits.epoch, fits.seen, fits.lock, ?_, fits.witnessed⟩
    intro k f found
    simp only [State.apply, get_erase] at found
    split at found
    · cases found
    · exact fits.frame k f found
  | witnessed author bytes =>
    refine ⟨fits.epoch, fits.seen, fits.lock, fits.frame, ?_⟩
    intro other kept found
    simp only [State.apply, get_insertIfNew] at found
    split at found
    · rename_i here
      cases found
      rw [← here.1]
      exact short
    · exact fits.witnessed other kept found

theorem encodeAll_some {es : List Entry} (short : ∀ e ∈ es, Recordable P e) :
    ∃ w, P.format.encodeAll es = some w := by
  induction es with
  | nil => exact ⟨[], rfl⟩
  | cons e es ih =>
    obtain ⟨w, rest⟩ := ih fun d mem => short d (List.mem_cons_of_mem _ mem)
    obtain ⟨r, here⟩ := Option.isSome_iff_exists.mp (short e List.mem_cons_self)
    exact ⟨r ++ w, by simp [RecordLog.Format.encodeAll, here, rest]⟩

/-- A compaction of such a state writes every record of its snapshot. -/
theorem Compactable.snapshot (slim : Slim P) {s : State} (fits : Compactable P s) :
    ∃ w, P.format.encodeAll s.snapshot = some w := by
  apply encodeAll_some
  intro e mem
  simp only [State.snapshot, values, List.mem_append, List.mem_singleton, List.mem_map] at mem
  rcases mem with ((((rfl | epoch) | ⟨p, mem, rfl⟩) | ⟨key, mem, rfl⟩) | ⟨f, ⟨p, mem, rfl⟩, rfl⟩) |
    ⟨p, mem, rfl⟩
  · exact slim.sequence _
  · cases held : s.epoch with
    | none => simp [held] at epoch
    | some held' =>
      rw [held, List.mem_singleton] at epoch
      rw [epoch]
      exact fits.epoch held' held
  · exact fits.seen _ _ (Std.ExtTreeMap.mem_toList_iff_getElem?_eq_some.mp mem)
  · exact fits.lock _ (Std.ExtTreeSet.mem_toList.mp mem)
  · exact fits.frame _ _ (Std.ExtTreeMap.mem_toList_iff_getElem?_eq_some.mp mem)
  · exact fits.witnessed _ _ (Std.ExtTreeMap.mem_toList_iff_getElem?_eq_some.mp mem)

/-! ## Undisturbed -/

/-- The file and the live state agree, and the state can be compacted. -/
structure Steady (P : Postcard) (path : Path) (s : Running) : Prop where
  sound : Sound P path s
  fits : Compactable P s.journal.state

/-- The program ends with this result and has told these entries. -/
def Does {ε α : Type} (P : Postcard) (path : Path) (p : Prog Running ε α) (s : Running)
    (result : Except (Stop ε) α) (es : List Entry) : Prop :=
  ∃ t, p s = (result, t) ∧ Steady P path t ∧
    t.journal.state = s.journal.state.applyAll es

section does

variable {ε δ α β : Type} {s : Running} {es ds : List Entry}

theorem Does.pure {a : α} (steady : Steady P path s) :
    Does P path (Pure.pure a : Prog Running ε α) s (.ok a) [] :=
  ⟨s, rfl, steady, rfl⟩

theorem Does.fail {error : ε} (steady : Steady P path s) :
    Does P path (Program.fail error : Prog Running ε α) s (.error (.failed error)) [] :=
  ⟨s, rfl, steady, rfl⟩

theorem Does.bind {p : Prog Running ε α} {f : α → Prog Running ε β} {a : α}
    {result : Except (Stop ε) β} (first : Does P path p s (.ok a) es)
    (second : ∀ t, Steady P path t → t.journal.state = s.journal.state.applyAll es →
      Does P path (f a) t result ds) : Does P path (p >>= f) s result (es ++ ds) := by
  obtain ⟨t, ran, steady, state⟩ := first
  obtain ⟨u, rest, steady', state'⟩ := second t steady state
  refine ⟨u, ?_, steady', ?_⟩
  · rw [bind_apply, ran]
    exact rest
  · rw [State.applyAll_append, ← state]
    exact state'

/-- A program that tells nothing, behind one that tells something. -/
theorem Does.behind {p : Prog Running ε α} {f : α → Prog Running ε β} {a : α}
    {result : Except (Stop ε) β} (first : Does P path p s (.ok a) es)
    (second : ∀ t, Steady P path t → Does P path (f a) t result []) :
    Does P path (p >>= f) s result es := by
  have all := first.bind fun t steady _ => second t steady
  rwa [List.append_nil] at all

theorem Does.reading {f : Running → Prog Running ε α} {result : Except (Stop ε) α}
    (rest : Does P path (f s) s result es) : Does P path (read >>= f) s result es := rest

theorem Does.caught {p : Prog Running ε α} {a : α} (does : Does P path p s (.ok a) es) :
    Does P path (Program.caught p : Prog Running δ _) s (.ok (.ok a)) es := by
  obtain ⟨t, ran, rest⟩ := does
  exact ⟨t, by simp only [Program.caught, ran], rest⟩

theorem Does.mapError {p : Prog Running ε α} {f : ε → δ} {a : α}
    (does : Does P path p s (.ok a) es) : Does P path (Program.mapError f p) s (.ok a) es := by
  obtain ⟨t, ran, rest⟩ := does
  exact ⟨t, by simp only [Program.mapError, ran], rest⟩

theorem does_answering {answer : α → Answer} {p : Prog Running JournalError α} {a : α}
    (does : Does P path p s (.ok a) es) :
    Does P path (answering answer p) s (.ok (answer a)) es :=
  does.mapError.behind fun _ steady => Does.pure steady

end does

variable {s : Running}

theorem does_record (slim : Slim P) (steady : Steady P path s) (i : Nat) {entry : Entry}
    (short : Recordable P entry) (noFrame : ∀ f, entry ≠ frameEntry f)
    (noLock : ∀ key, entry ≠ .lock key) {update : State → State}
    (same : update s.journal.state = s.journal.state.apply entry) :
    Does P path (record P calm i entry update) s (.ok ()) [entry] := by
  obtain ⟨r, framed⟩ := Option.isSome_iff_exists.mp short
  have made := (encode_format P entry r).mpr framed
  have told := record_told steady.sound calm_noFailure.mild i entry same
  have ran : record P calm i entry update s =
      (.ok (), ((s.put r).counted r.length).update update) := by
    simp [record, append, caught, tryAppend, made, calm]
  rw [ran, recordable_made made] at told
  obtain ⟨-, ⟨dead, -⟩ | ⟨-, sound, state⟩⟩ := told
  · cases dead
  · refine ⟨_, ran, ⟨sound, ?_⟩, state⟩
    rw [state]
    exact steady.fits.apply slim short noFrame noLock

/-- On its own path a compaction writes the snapshot over the journal itself. -/
theorem compact_in_place (slim : Slim P) (steady : Steady P path s)
    (own : path.extension = some "compacting") :
    Does P path (compact P calm) s (.ok ()) [] := by
  obtain ⟨⟨named, attached, clean, agree⟩, fits⟩ := steady
  have filed := Sound.filed P path ⟨named, attached, clean, agree⟩
  obtain ⟨w, all⟩ := fits.snapshot slim
  have temporary : s.journal.path.withExtension "compacting" = s.journal.path := by
    rw [Path.withExtension, ← own, ← named]
  have present := attached.1
  have made : s.disk.make s.journal.path = s.disk := by
    unfold Disk.make
    split
    · rfl
    · rename_i absent
      rw [present] at absent
      cases absent
  let t : Running := { s with disk := s.disk.put s.journal.file.file [] }
  have t_empty : t.disk.content s.journal.file.file = [] := Disk.put_content_same _ _ _
  have writing := writeScratch_scratched P calm s.journal.file.file 0 s.journal.state.snapshot t
  rw [t_empty, List.length_nil] at writing
  generalize ended : writeScratch P calm s.journal.file.file 0 0 s.journal.state.snapshot t =
    out at writing
  obtain ⟨stop | written, u⟩ := out
  · rcases writing.stopped stop rfl with blame | ⟨-, none⟩
    · exact (calm_blameless blame).elim
    · rw [all] at none
      cases none
  obtain ⟨w', all', content, size⟩ := writing.written written rfl
  have u_named : u.disk.names s.journal.path = some s.journal.file.file := by
    rw [writing.names]
    exact present
  have u_path : u.journal.path = s.journal.path := congrArg Journal.path writing.journal
  have kept : u.disk.rename s.journal.path s.journal.path = u.disk := by
    simp [Disk.rename]
  have begun : compact P calm s = andThen (.ok written, u) fun written =>
      step (calm .scratchSync) .os id >>= fun _ =>
        install calm s.journal.path s.journal.path written := by
    rw [← ended]
    simp [compact, calm, temporary, made, present, t]
  have ran : compact P calm s = (.ok (), { u with journal :=
      { u.journal with
        file := ⟨s.journal.file.file, (u.disk.content s.journal.file.file).length⟩
        bytesOnDisk := written } }) := by
    rw [begun]
    simp [install, calm, kept, u_named]
  have told := replay_snapshot P filed all
  have whole : u.disk.content s.journal.file.file = w := by
    rw [content, t_empty, List.nil_append, Option.some.inj (all'.symm.trans all)]
  have state : u.journal.state = s.journal.state := congrArg Journal.state writing.journal
  let v : Running := { u with journal :=
    { u.journal with
      file := ⟨s.journal.file.file, (u.disk.content s.journal.file.file).length⟩
      bytesOnDisk := written } }
  have v_named : v.disk.names v.journal.path = some s.journal.file.file := by
    rw [show v.journal.path = u.journal.path from rfl, u_path]
    exact u_named
  have v_bytes : bytes v = w := by
    rw [bytes_attached ⟨v_named, rfl⟩]
    exact whole
  have v_state : v.journal.state = s.journal.state := state
  refine ⟨v, ran, ⟨⟨u_path.trans named, ⟨v_named, rfl⟩, ?_, ?_⟩, ?_⟩, v_state⟩
  · rw [Clean, v_bytes, told]
  · rw [v_bytes, told, v_state]
  · rw [v_state]
    exact fits

theorem does_compact (slim : Slim P) (steady : Steady P path s) :
    Does P path (compact P calm) s (.ok ()) [] := by
  by_cases own : path.extension = some "compacting"
  · exact compact_in_place slim steady own
  · obtain ⟨w, all⟩ := steady.fits.snapshot slim
    have told := compact_told steady.sound calm_noFailure.mild own
    have compacted := compact_compacted P calm s (steady.sound.path ▸ own) steady.sound.attached.1
    unfold Does
    generalize compact P calm s = out at told compacted
    cases compacted with
    | kept kept blame =>
      rcases blame with blame | ⟨-, none⟩
      · exact (calm_blameless blame).elim
      · rw [all] at none
        cases none
    | cut replaced blame handle => exact (calm_blameless blame).elim
    | @done t file replaced handle calls =>
      obtain ⟨-, ⟨dead, -⟩ | ⟨-, sound, state⟩⟩ := told
      · cases dead
      · exact ⟨t, rfl, ⟨sound, replaced.state ▸ steady.fits⟩, state⟩

theorem does_compactIfLarge (slim : Slim P) (steady : Steady P path s) :
    Does P path (compactIfLarge P calm) s (.ok ()) [] := by
  apply Does.reading
  split
  · exact Does.pure steady
  · exact (does_compact slim steady).caught.behind fun t steady => Does.pure steady

/-- Record a fact, then compact if the file has grown large. -/
theorem does_recorded (slim : Slim P) (steady : Steady P path s) {entry : Entry}
    (short : Recordable P entry) (noFrame : ∀ f, entry ≠ frameEntry f)
    (noLock : ∀ key, entry ≠ .lock key) {update : State → State}
    (same : update s.journal.state = s.journal.state.apply entry) :
    Does P path (record P calm 0 entry update >>= fun _ => compactIfLarge P calm) s (.ok ())
      [entry] :=
  (does_record slim steady 0 short noFrame noLock same).behind
    fun _ steady => does_compactIfLarge slim steady

theorem does_recordUnless (slim : Slim P) (steady : Steady P path s) {known : Bool} {entry : Entry}
    (short : ∀ e ∈ (if known then [] else [entry]), Recordable P e)
    (noFrame : ∀ f, entry ≠ frameEntry f) (noLock : ∀ key, entry ≠ .lock key)
    {update : State → State}
    (same : known = false → update s.journal.state = s.journal.state.apply entry) :
    Does P path (recordUnless P calm known entry update) s (.ok ())
      (if known then [] else [entry]) := by
  cases known with
  | true => exact Does.pure steady
  | false =>
    exact does_recorded slim steady (short entry List.mem_cons_self) noFrame noLock (same rfl)

theorem does_retireAll (slim : Slim P) (steady : Steady P path s) (i : Nat)
    (sequences : List UInt64)
    (short : ∀ e ∈ sequences.map Entry.retired, Recordable P e) :
    Does P path (retireAll P calm i sequences) s (.ok ()) (sequences.map .retired) := by
  induction sequences generalizing i s with
  | nil => exact Does.pure steady
  | cons sequence sequences ih =>
    have here := short _ List.mem_cons_self
    exact (does_record slim steady i here nofun nofun rfl).caught.bind fun t steady _ =>
      ih steady (i + 1) fun e mem => short e (List.mem_cons_of_mem _ mem)

/-- Undisturbed, an operation on disk answers what it deserves and tells its entries. -/
theorem does_run (slim : Slim P) (steady : Steady P path s) (op : Op)
    (short : ∀ e ∈ op.entries s.journal.state, Recordable P e) :
    Does P path (op.run P calm) s
      (((deserved s.journal.state op).mapError Refusal.journal).mapError Stop.failed)
      (op.entries s.journal.state) := by
  cases op with
  | commitVote subject voter frame =>
    simp only [Op.entries, deserved] at short ⊢
    split
    · rename_i held
      refine ⟨s, ?_, steady, rfl⟩
      simp [Op.run, answering, mapError, commitVote, held, Except.mapError]
    · rename_i free
      rw [if_neg free] at short
      refine does_answering (a := ()) (Does.reading ?_)
      simp only [if_neg free]
      refine does_recorded slim steady (short _ List.mem_cons_self) (by rintro _ ⟨⟩)
        (by rintro _ ⟨⟩) ?_
      rw [apply_vote]
  | reserveSequence =>
    apply does_answering (a := s.journal.state.nextSequence)
    exact (does_record slim steady 0 (short _ List.mem_cons_self) (by rintro _ ⟨⟩)
        (by rintro _ ⟨⟩)
      (apply_reserved _).symm).behind fun _ steady =>
        (does_compactIfLarge slim steady).behind fun _ steady => Does.pure steady
  | acknowledge sequence =>
    simp only [Op.entries] at short ⊢
    apply does_answering (a := s.journal.state.pending.contains sequence)
    apply Does.reading
    cases held : s.journal.state.pending.contains sequence with
    | false => exact Does.pure steady
    | true =>
      rw [held, if_pos rfl] at short
      let retire (state : State) : State := { state with pending := state.pending.erase sequence }
      have same : retire s.journal.state = s.journal.state.apply (.retired sequence) := rfl
      have retired := does_record slim steady 0 (short _ List.mem_cons_self) (by rintro _ ⟨⟩)
        (by rintro _ ⟨⟩) same
      exact retired.caught.behind fun _ steady =>
        (does_compactIfLarge slim steady).behind fun _ steady => Does.pure steady
  | dropExpired now =>
    exact does_answering (Does.reading ((does_retireAll slim steady 0 _ short).behind
      fun t steady => does_compactIfLarge slim steady))
  | witness author frame =>
    exact does_answering (Does.reading (does_recordUnless slim steady short (by rintro _ ⟨⟩)
      (by rintro _ ⟨⟩)
      fun absent => by rw [apply_witnessed absent]))
  | enterEpoch epoch =>
    exact does_answering (Does.reading (does_recordUnless slim steady short (by rintro _ ⟨⟩)
      (by rintro _ ⟨⟩)
      fun later => by rw [apply_later_epoch later]))
  | markSeen sender sequence =>
    exact does_answering (Does.reading (does_recordUnless slim steady short (by rintro _ ⟨⟩)
      (by rintro _ ⟨⟩)
      fun higher => by rw [apply_higher_mark higher]))
  | compact =>
    exact (does_compact slim steady).mapError.behind fun t steady => Does.pure steady

/-! ## Agreement -/

/-- What the two journals have in common throughout a run with these steps to come. -/
def Agree (P : Postcard) (path : Path) (steps : List Step) (s : Running) (m : MemoryJournal) :
    Prop :=
  Steady P path s ∧ s.journal.state = m.meaning ∧ Fits P steps m

theorem agree_step (slim : Slim P) (step : Step) (rest : List Step) (s : Running)
    (m : MemoryJournal) (agree : Agree P path (step :: rest) s m) :
    (onDisk P path s step).1 = (inMemory m step).1 ∧
      Agree P path rest (onDisk P path s step).2 (inMemory m step).2 := by
  obtain ⟨steady, same, short, later⟩ := agree
  cases step with
  | operate op =>
    have filed : Filed m.meaning := same ▸ steady.sound.filed
    obtain ⟨answer, meaning⟩ := run_meaning filed op
    rw [← same] at answer meaning
    have entries : ∀ e ∈ op.entries s.journal.state, Recordable P e := by
      rw [same]
      exact short
    obtain ⟨t, ran, steady', state⟩ := does_run slim steady op entries
    simp only [onDisk, inMemory, ran, answer]
    refine ⟨?_, steady', state.trans meaning.symm, later⟩
    cases deserved s.journal.state op <;> rfl
  | ask query =>
    simp only [onDisk, inMemory, ofLog_meaning same]
    exact ⟨trivial, steady, same, later⟩
  | reopen =>
    obtain ⟨journal, disk, opened⟩ := openJournal_calm P path s.disk
    obtain ⟨sound, state, -⟩ := openJournal_sound opened
    have found : journal.state = s.journal.state := by
      have agree := steady.sound.agree
      rw [bytes, steady.sound.path] at agree
      rw [state, agree]
    simp only [onDisk, inMemory, opened]
    refine ⟨trivial, ⟨sound, ?_⟩, found.trans same, later⟩
    rw [found]
    exact steady.fits

theorem filed_behind (steps : List Step) {m : MemoryJournal} (filed : Filed m.meaning) :
    Filed (behind inMemory m steps).meaning := by
  induction steps generalizing m with
  | nil => exact filed
  | cons step steps ih =>
    apply ih
    cases step with
    | operate op =>
      have meaning := (run_meaning filed op).2
      change Filed (m.run op).2.meaning
      rw [meaning]
      exact filed_applyAll filed _
    | ask query => exact filed
    | reopen => exact filed

theorem logSnapshot_meaning {journal : Journal} {m : MemoryJournal}
    (same : journal.state = m.meaning) : logSnapshot journal = m.snapshot := by
  simp only [logSnapshot, MemoryJournal.snapshot, same, MemoryJournal.meaning]

/-- On a fresh file the journal on disk answers every run of operations, questions and
reopenings as a fresh journal in memory does. A journal restored from a snapshot of either
of them, taken anywhere in a run, goes on as the one it was taken of. -/
theorem journals_agree (P : Postcard) (slim : Slim P) (path : Path) (disk : Disk Path)
    (fresh : disk.read path = []) :
    ∃ journal opened, openJournal P calm path disk = (.ok journal, opened) ∧
      (∀ steps, Fits P steps .default →
        replies (onDisk P path) ⟨opened, journal⟩ steps = replies inMemory .default steps) ∧
      (∀ before after, Fits P (before ++ after) .default →
        let s := behind (onDisk P path) ⟨opened, journal⟩ before
        replies (onDisk P path) s after =
          replies inMemory (.restored (logSnapshot s.journal)) after) ∧
      ∀ before after,
        let m := behind inMemory .default before
        replies inMemory (.restored m.snapshot) after = replies inMemory m after := by
  obtain ⟨journal, opened, ran⟩ := openJournal_calm P path disk
  obtain ⟨sound, state, -⟩ := openJournal_sound ran
  have started : journal.state = MemoryJournal.default.meaning := by
    rw [state, fresh]
    rfl
  have steady : Steady P path ⟨opened, journal⟩ := by
    refine ⟨sound, ?_⟩
    rw [started]
    exact compactable_initial
  have stepwise : ∀ step rest s m, Agree P path (step :: rest) s m → _ := agree_step slim
  refine ⟨journal, opened, ran, ?_, ?_, ?_⟩
  · intro steps fits
    exact replies_related stepwise steps _ _ ⟨steady, started, fits⟩
  · intro before after fits s
    have related := behind_related (fun i rest s t related => (stepwise i rest s t related).2)
      before after _ _ ⟨steady, started, fits⟩
    have filed := filed_behind before (m := .default) filed_initial
    rw [logSnapshot_meaning related.2.1, restored_snapshot filed]
    exact replies_related stepwise after _ _ related
  · intro before after m
    rw [restored_snapshot (filed_behind before (m := .default) filed_initial)]

/-! ## The documented serialiser -/

theorem recordable_postcard (e : Entry) :
    Recordable postcard e ↔ ∃ body, ((variantFields (variant e)).write e) = some body ∧
      (writeGroups 5 (variant e).toNat).length + body.length ≤ maxRecordBytes := by
  have payload : postcard.format.payload e =
      ((variantFields (variant e)).write e).map fun w =>
        writeGroups 5 (variant e).toNat ++ w := by
    simp only [Postcard.format, postcard, entryCoder, Coder.tagged, Coder.varint32,
      Option.bind_some]
    cases (variantFields (variant e)).write e <;> rfl
  have limit : postcard.format.limit = maxRecordBytes := rfl
  unfold Recordable RecordLog.Format.encode
  rw [payload, limit]
  cases (variantFields (variant e)).write e with
  | none => simp
  | some body =>
    by_cases short : (writeGroups 5 (variant e).toNat).length + body.length ≤ maxRecordBytes <;>
      simp [short]

/-- The fields of a vote are those of its lock and, behind them, those of its frame. -/
theorem vote_parts {key : String} {f : OutgoingFrame} {body : Bytes}
    (written : (variantFields 0).write (voteEntry key f) = some body) :
    ∃ lock frame, (variantFields 6).write (.lock key) = some lock ∧
      (variantFields 7).write (frameEntry f) = some frame ∧ body = lock ++ frame := by
  change (Coder.pair Coder.text (Coder.pair Coder.varint64 (Coder.pair Coder.lengthed
    (Coder.opt Coder.varint64)))).write
      (key, f.sequence, f.bytes, f.expiresAt.map Timestamp.secs) = some body at written
  obtain ⟨lock, first, more⟩ := Option.bind_eq_some_iff.mp written
  obtain ⟨frame, second, rfl⟩ := Option.map_eq_some_iff.mp more
  exact ⟨lock, frame, first, second, rfl⟩

theorem postcard_slim : Slim postcard := by
  refine ⟨?_, ?_, ?_⟩
  · intro n
    refine (recordable_postcard _).mpr ⟨_, rfl, ?_⟩
    have number := writeGroups_length_le 10 n.toNat
    have tag := writeGroups_length_le 5 (variant (.sequence n)).toNat
    simp only [maxRecordBytes]
    omega
  · intro key f short
    obtain ⟨body, written, short⟩ := (recordable_postcard _).mp short
    obtain ⟨lock, frame, first, -, rfl⟩ := vote_parts written
    refine (recordable_postcard _).mpr ⟨lock, first, ?_⟩
    have tags : (writeGroups 5 (variant (.lock key)).toNat).length =
        (writeGroups 5 (variant (voteEntry key f)).toNat).length := rfl
    rw [List.length_append] at short
    omega
  · intro key f short
    obtain ⟨body, written, short⟩ := (recordable_postcard _).mp short
    obtain ⟨lock, frame, -, second, rfl⟩ := vote_parts written
    refine (recordable_postcard _).mpr ⟨frame, second, ?_⟩
    have tags : (writeGroups 5 (variant (frameEntry f)).toNat).length =
        (writeGroups 5 (variant (voteEntry key f)).toNat).length := rfl
    rw [List.length_append] at short
    omega

/-- Two votes under one number, a second witness, an old epoch and a mark of zero, with a
reopening and a compaction in between, on a path that is its own scratch file's. -/
theorem journals_agree_history :
    let path : Path := ⟨"member", some "compacting"⟩
    let steps : List Step :=
      [.operate (.commitVote someSubject "a" (.new [1, 2] 5)), .operate .reserveSequence, .reopen,
        .operate (.commitVote someSubject "b" ((OutgoingFrame.new [3] 5).expiringAt ⟨9⟩)),
        .operate (.markSeen 1 0), .operate (.enterEpoch 2), .operate (.markSeen 1 7),
        .operate .compact, .operate (.enterEpoch 1), .operate (.witness "c" [1]),
        .operate (.witness "c" [2]), .operate (.dropExpired ⟨9⟩), .ask .snapshot, .reopen,
        .operate (.dropExpired ⟨10⟩), .operate (.acknowledge 5), .ask .pending, .ask .witnessed]
    ∃ journal opened, openJournal postcard calm path Disk.empty = (.ok journal, opened) ∧
      replies (onDisk postcard path) ⟨opened, journal⟩ steps = replies inMemory .default steps := by
  intro path steps
  obtain ⟨journal, opened, ran, agree, -⟩ :=
    journals_agree postcard postcard_slim path Disk.empty rfl
  exact ⟨journal, opened, ran, agree steps (by decide +kernel)⟩

end JournalAgreement
