import Lcq.JournalRuns

/-!
# A journal survives the process that wrote it

As long as no call fails, the file under the path is whole records, its replay
is the live state, and a process that dies leaves the state before or after
some append of the operation it died in. Every operation is a list of entries
that it tells the file and the live state alike.
-/

namespace CrashSafety

open ByteFormat Contracts FileSystem JournalOutcomes JournalRecords JournalRuns JournalState
  LogJournal OrderedMap Program

variable (P : Postcard)

/-! ## The file grows by whole records -/

/-- The file is nothing but whole records. -/
def Clean (b : Bytes) : Prop := (replay P b).2 = b.length

instance (b : Bytes) : Decidable (Clean P b) := inferInstanceAs (Decidable (_ = _))

theorem clean_whole {b : Bytes} (clean : Clean P b) : P.format.Whole b (P.format.scan b).1 := by
  apply P.format.whole_of_scan
  rwa [Clean, replay_scan] at clean

theorem clean_good (b : Bytes) : Clean P (good P b) := (replay_good P b).2

/-- However much of a record is down, it is read whole or not at all. -/
theorem replay_torn {b r : Bytes} {e : Entry} (clean : Clean P b) (made : encode P e = .ok r)
    (k : Nat) : replay P (b ++ r.take k) =
      if k < r.length then ((replay P b).1, b.length)
      else ((replay P b).1.apply e, b.length + r.length) := by
  have framed := (encode_format P e r).mp made
  rw [replay_scan, replay_scan, P.format.scan_torn (clean_whole P clean) framed]
  split
  · rfl
  · simp [State.applyAll_append]

theorem replay_record {b r : Bytes} {e : Entry} (clean : Clean P b) (made : encode P e = .ok r) :
    replay P (b ++ r) = ((replay P b).1.apply e, b.length + r.length) := by
  have torn := replay_torn P clean made r.length
  rwa [List.take_length, if_neg (Nat.lt_irrefl _)] at torn

theorem clean_record {b r : Bytes} {e : Entry} (clean : Clean P b) (made : encode P e = .ok r) :
    Clean P (b ++ r) := by
  rw [Clean, replay_record P clean made, List.length_append]

/-- What compaction wrote replays to the state it was made of. -/
theorem replay_snapshot {s : State} {w : Bytes} (filed : Filed s)
    (all : P.format.encodeAll s.snapshot = some w) : replay P w = (s, w.length) := by
  rw [replay_scan, P.format.scan_whole (RecordLog.Format.Whole.encoded P.format all),
    applyAll_snapshot filed]

/-! ## The journal and its file agree -/

variable (path : Path)

structure Sound (s : Running) : Prop where
  path : s.journal.path = path
  attached : Attached s
  clean : Clean P (bytes s)
  agree : (replay P (bytes s)).1 = s.journal.state

theorem Sound.filed {s : Running} (sound : Sound P path s) : Filed s.journal.state := by
  rw [← sound.agree]
  exact filed_replay P _

variable {P path}

/-- A program told these entries: alive behind it, all of them, and the file agrees;
dead in it, the first few of them. -/
def Told {ε α : Type} (P : Postcard) (path : Path) (s : Running) (es : List Entry)
    (out : Except (Stop ε) α × Running) : Prop :=
  out.2.journal.path = path ∧
    ((out.1 = .error .died ∧
        ∃ k, (replay P (bytes out.2)).1 = s.journal.state.applyAll (es.take k)) ∨
      (out.1 ≠ .error .died ∧ Sound P path out.2 ∧
        out.2.journal.state = s.journal.state.applyAll es))

section told

variable {ε δ α β : Type} {s t : Running} {es ds : List Entry}

theorem told_alive {out : Except (Stop ε) α} (alive : out ≠ .error .died)
    (sound : Sound P path t) (state : t.journal.state = s.journal.state.applyAll es) :
    Told P path s es (out, t) :=
  ⟨sound.path, Or.inr ⟨alive, sound, state⟩⟩

/-- Nothing done, nothing told. -/
theorem told_nothing {out : Except (Stop ε) α} (alive : out ≠ .error .died)
    (sound : Sound P path s) : Told P path s [] (out, s) :=
  told_alive alive sound rfl

/-- What two programs in a row tell; a program that fails leaves nothing to the next. -/
theorem told_andThen {out : Except (Stop ε) α × Running} {f : α → Prog Running ε β}
    (first : Told P path s es out)
    (second : ∀ a t, out = (.ok a, t) → Sound P path t → Told P path t ds (f a t))
    (failing : ∀ e t, out = (.error (.failed e), t) → ds = []) :
    Told P path s (es ++ ds) (andThen out f) := by
  obtain ⟨answer, t⟩ := out
  obtain ⟨named, ⟨rfl, k, cut⟩ | ⟨alive, sound, state⟩⟩ := first
  · refine ⟨named, Or.inl ⟨rfl, min k es.length, ?_⟩⟩
    rw [List.take_append_of_le_length (Nat.min_le_right _ _), ← List.take_take, List.take_length]
    exact cut
  · cases answer with
    | ok a =>
      obtain ⟨later, ⟨dead, k, cut⟩ | ⟨alive', sound', state'⟩⟩ := second a t rfl sound
      · refine ⟨later, Or.inl ⟨dead, es.length + k, ?_⟩⟩
        rw [List.take_length_add_append, State.applyAll_append, ← state]
        exact cut
      · refine ⟨later, Or.inr ⟨alive', sound', ?_⟩⟩
        rw [State.applyAll_append, ← state]
        exact state'
    | error stop =>
      cases stop with
      | died => exact absurd rfl alive
      | failed e =>
        rw [failing e t rfl, List.append_nil]
        exact told_alive (by simp) sound state

/-- A program that tells nothing, behind one that tells something. -/
theorem told_behind {out : Except (Stop ε) α × Running} {f : α → Prog Running ε β}
    (first : Told P path s es out)
    (second : ∀ a t, out = (.ok a, t) → Sound P path t → Told P path t [] (f a t)) :
    Told P path s es (andThen out f) := by
  have all := told_andThen first second fun _ _ _ => rfl
  rwa [List.append_nil] at all

theorem told_caught {p : Prog Running ε α} (told : Told P path s es (p s)) :
    Told P path s es ((caught p : Prog Running δ _) s) := by
  unfold caught
  generalize p s = out at told ⊢
  obtain ⟨answer, t⟩ := out
  obtain ⟨named, ⟨rfl, cut⟩ | ⟨alive, sound, state⟩⟩ := told
  · exact ⟨named, Or.inl ⟨rfl, cut⟩⟩
  · cases answer with
    | ok a => exact told_alive (by simp) sound state
    | error stop =>
      cases stop with
      | died => exact absurd rfl alive
      | failed e => exact told_alive (by simp) sound state

theorem told_mapError {p : Prog Running ε α} {f : ε → δ} (told : Told P path s es (p s)) :
    Told P path s es (mapError f p s) := by
  unfold mapError
  generalize p s = out at told ⊢
  obtain ⟨answer, t⟩ := out
  obtain ⟨named, ⟨rfl, cut⟩ | ⟨alive, sound, state⟩⟩ := told
  · exact ⟨named, Or.inl ⟨rfl, cut⟩⟩
  · cases answer with
    | ok a => exact told_alive (by simp) sound state
    | error stop =>
      cases stop with
      | died => exact absurd rfl alive
      | failed e => exact told_alive (by simp) sound state

end told

/-! ## Every operation tells its entries -/

variable {env : Env}

theorem not_failing {n : Nat} {c : Call} (mild : Mild env) (other : early c = false)
    (fate : env c = .fails n) : False := by
  have listed := mild c (by rw [fate]; rfl)
  rw [other] at listed
  cases listed

theorem recordable_made {e : Entry} {r : Bytes} (made : encode P e = .ok r) :
    recordable P [e] = [e] := by
  simp [recordable, (encode_format P e r).mp made]

theorem recordable_unmade {e : Entry} {error : IoError} (unmade : encode P e = .error error) :
    recordable P [e] = [] := by
  have none : P.format.encode e = none := by
    cases framed : P.format.encode e with
    | none => rfl
    | some r =>
      rw [← encode_format, unmade] at framed
      cases framed
  simp [recordable, none]

/-- One record: told, or not a record at all, or told as far as it got. -/
theorem tried_told {s : Running} {i : Nat} {entry : Entry} {f : State → State}
    {out : Except (Stop IoError) Unit × Running} (sound : Sound P path s) (mild : Mild env)
    (tried : Tried P env i entry s out)
    (same : f s.journal.state = s.journal.state.apply entry) :
    (∃ t, out = (.ok (), t) ∧ Sound P path (t.update f) ∧
        (t.update f).journal.state = s.journal.state.applyAll (recordable P [entry])) ∨
      (∃ e, out = (.error (.failed e), s) ∧ recordable P [entry] = []) ∨
      ∃ t k, out = (.error .died, t) ∧ t.journal.path = path ∧ (replay P (bytes t)).1 =
        s.journal.state.applyAll ((recordable P [entry]).take k) := by
  obtain ⟨named, attached, clean, agree⟩ := sound
  cases tried with
  | @whole r made written synced =>
    have told : (replay P (bytes s ++ r)).1 = s.journal.state.apply entry := by
      rw [replay_record P clean made, agree]
    refine Or.inl ⟨_, rfl, ⟨named, put_attached attached r, ?_, ?_⟩, ?_⟩
    · change Clean P (bytes (s.put r))
      rw [put_bytes attached]
      exact clean_record P clean made
    · change (replay P (bytes (s.put r))).1 = f s.journal.state
      rw [put_bytes attached, told, same]
    · rw [recordable_made made]
      exact same
  | unmade made => exact Or.inr (Or.inl ⟨_, rfl, recordable_unmade made⟩)
  | refused made fate =>
    rcases fate with fails | ⟨-, ⟨m, fails⟩, -⟩
    · exact (not_failing mild rfl fails).elim
    · exact (not_failing mild rfl fails).elim
  | @died r n made fate =>
    refine Or.inr (Or.inr ⟨_, if n < r.length then 0 else 1, rfl, named, ?_⟩)
    rw [recordable_made made, put_bytes attached, replay_torn P clean made]
    split
    · exact agree
    · simp [agree]

theorem Sound.failedWith {s : Running} (sound : Sound P path s) (error : IoError) :
    Sound P path (s.failedWith error) :=
  ⟨sound.path, sound.attached, sound.clean, sound.agree⟩

/-- Disk first, memory second: the entry is told, or it makes no record. -/
theorem record_told {s : Running} (sound : Sound P path s) (mild : Mild env) (i : Nat)
    (entry : Entry) {update : State → State}
    (same : update s.journal.state = s.journal.state.apply entry) :
    Told P path s (recordable P [entry]) (record P env i entry update s) := by
  simp only [record, append, caught, bind_apply]
  rcases tried_told sound mild (tryAppend_tried P env i entry s) same with
    ⟨t, out, sound', state⟩ | ⟨e, out, nothing⟩ | ⟨t, k, out, named, cut⟩
  · rw [out]
    exact told_alive (by simp) sound' state
  · rw [out, nothing]
    exact told_alive (by simp) (sound.failedWith e) rfl
  · rw [out]
    exact ⟨named, Or.inl ⟨rfl, k, cut⟩⟩

/-- Compaction tells nothing, wherever it stops. -/
theorem compact_told {s : Running} (sound : Sound P path s) (mild : Mild env)
    (apart : path.extension ≠ some "compacting") :
    Told P path s [] (compact P env s) := by
  obtain ⟨named, attached, clean, agree⟩ := sound
  have filed := Sound.filed P path ⟨named, attached, clean, agree⟩
  have compacted := compact_compacted P env s (named ▸ apart) attached.1
  generalize compact P env s = out at compacted
  cases compacted with
  | @kept stop t kept blame =>
    have sound : Sound P path t :=
      ⟨kept.journal ▸ named, kept.attached attached, by rwa [kept.bytes attached],
        by rw [kept.bytes attached, kept.journal, agree]⟩
    cases stop with
    | died => exact ⟨sound.path, Or.inl ⟨rfl, 0, by rw [kept.bytes attached, agree]; rfl⟩⟩
    | failed e => exact told_alive (by simp) sound (congrArg Journal.state kept.journal)
  | @cut stop t file replaced blame handle =>
    have told := replay_snapshot P filed replaced.snapshot
    cases stop with
    | died =>
      refine ⟨replaced.path.trans named, Or.inl ⟨rfl, 0, ?_⟩⟩
      rw [replaced.bytes, told]
      rfl
    | failed e =>
      obtain ⟨c, listed, fails⟩ := blame
      have other := late_not_early listed
      rw [mild c fails] at other
      cases other
  | @done t file replaced handle =>
    have told := replay_snapshot P filed replaced.snapshot
    have attached' : Attached t := by
      rw [Attached, handle, replaced.path]
      exact ⟨replaced.named, rfl⟩
    refine told_alive (by simp) ⟨replaced.path.trans named, attached', ?_, ?_⟩ replaced.state
    · rw [Clean, replaced.bytes, told]
    · rw [replaced.bytes, told, replaced.state]

theorem compactIfLarge_told {s : Running} (sound : Sound P path s) (mild : Mild env)
    (apart : path.extension ≠ some "compacting") :
    Told P path s [] (compactIfLarge P env s) := by
  simp only [compactIfLarge, bind_apply, read_apply, andThen_ok]
  split
  · exact told_nothing (by simp) sound
  · refine told_behind (told_caught (compact_told sound mild apart)) ?_
    intro answer t _ sound
    cases answer with
    | ok => exact told_nothing (by simp) sound
    | error error => exact told_alive (by simp) (sound.failedWith error) rfl

/-- Record a fact, then compact if the file has grown large. -/
theorem recorded_told {s : Running} (sound : Sound P path s) (mild : Mild env)
    (apart : path.extension ≠ some "compacting") (entry : Entry) {update : State → State}
    (same : update s.journal.state = s.journal.state.apply entry) :
    Told P path s (recordable P [entry])
      (andThen (record P env 0 entry update s) fun _ => compactIfLarge P env) :=
  told_behind (record_told sound mild 0 entry same)
    fun _ _ _ sound => compactIfLarge_told sound mild apart

theorem recordUnless_told {s : Running} {known : Bool} {entry : Entry} {update : State → State}
    (sound : Sound P path s) (mild : Mild env)
    (apart : path.extension ≠ some "compacting")
    (same : known = false → update s.journal.state = s.journal.state.apply entry) :
    Told P path s (recordable P (if known then [] else [entry]))
      (recordUnless P env known entry update s) := by
  cases known with
  | true => exact told_nothing (by simp) sound
  | false => exact recorded_told sound mild apart entry (same rfl)

theorem recordable_append (es ds : List Entry) :
    recordable P (es ++ ds) = recordable P es ++ recordable P ds := List.filter_append ..

theorem retireAll_told {s : Running} (sound : Sound P path s) (mild : Mild env) (i : Nat)
    (sequences : List UInt64) :
    Told P path s (recordable P (sequences.map .retired)) (retireAll P env i sequences s) := by
  induction sequences generalizing i s with
  | nil => exact told_nothing (by simp) sound
  | cons sequence sequences ih =>
    have split : recordable P ((sequence :: sequences).map .retired) =
        recordable P [.retired sequence] ++ recordable P (sequences.map .retired) :=
      recordable_append [.retired sequence] _
    rw [split]
    refine told_andThen (told_caught (record_told sound mild i (.retired sequence) rfl))
      (fun _ t _ sound => ih sound (i + 1)) ?_
    intro e t failed
    exact absurd (congrArg Prod.fst failed) (caught_not_failed _ _ e)

theorem told_then_pure {ε α β : Type} {s : Running} {es : List Entry} {a : β}
    {out : Except (Stop ε) α × Running} (told : Told P path s es out) :
    Told P path s es (andThen out fun _ => (pure a : Prog Running ε β)) :=
  told_behind told fun _ _ _ sound => told_nothing (by simp) sound

theorem told_answering {α : Type} {s : Running} {es : List Entry} {answer : α → Answer}
    {p : Prog Running JournalError α} (told : Told P path s es (p s)) :
    Told P path s es (answering answer p s) :=
  told_behind (told_mapError told) fun _ _ _ sound => told_nothing (by simp) sound

theorem commitVote_told {s : Running} (sound : Sound P path s) (mild : Mild env)
    (apart : path.extension ≠ some "compacting") (subject : Subject) (voter : String)
    (frame : OutgoingFrame) :
    Told P path s
      (recordable P (Op.entries s.journal.state (.commitVote subject voter frame)))
      (commitVote P env subject voter frame s) := by
  simp only [commitVote, bind_apply, read_apply, andThen_ok, Op.entries]
  split
  · exact told_nothing (by simp) sound
  · refine recorded_told sound mild apart _ ?_
    rw [apply_vote]

theorem reserveSequence_told {s : Running} (sound : Sound P path s) (mild : Mild env)
    (apart : path.extension ≠ some "compacting") :
    Told P path s (recordable P (Op.entries s.journal.state .reserveSequence))
      (reserveSequence P env s) := by
  simp only [reserveSequence, bind_apply, read_apply, andThen_ok, Op.entries]
  rw [andThen_bind]
  refine told_then_pure (recorded_told sound mild apart _ ?_)
  rw [apply_reserved]

/-- Each operation tells its entries, those that make a record, in their order. -/
theorem op_told {s : Running} (sound : Sound P path s) (mild : Mild env)
    (apart : path.extension ≠ some "compacting") (op : Op) :
    Told P path s (recordable P (op.entries s.journal.state)) (op.run P env s) := by
  cases op with
  | commitVote subject voter frame =>
    exact told_answering (commitVote_told sound mild apart subject voter frame)
  | reserveSequence => exact told_answering (reserveSequence_told sound mild apart)
  | acknowledge sequence =>
    apply told_answering
    simp only [acknowledge, bind_apply, read_apply, andThen_ok, Op.entries]
    cases held : s.journal.state.pending.contains sequence with
    | false => exact told_nothing (by simp) sound
    | true =>
      simp only [Bool.true_eq_false, if_true, if_false, bind_apply]
      refine told_behind (told_caught (record_told sound mild 0 (.retired sequence) rfl)) ?_
      intro answer t _ sound
      cases answer with
      | error e => exact told_nothing (by simp) sound
      | ok => exact told_then_pure (compactIfLarge_told sound mild apart)
  | dropExpired now =>
    apply told_answering
    simp only [dropExpired, bind_apply, read_apply, andThen_ok, Op.entries]
    exact told_behind (retireAll_told sound mild 0 (expired s.journal.state now))
      fun _ _ _ sound => compactIfLarge_told sound mild apart
  | witness author frame =>
    exact told_answering (recordUnless_told sound mild apart fun absent => by
      rw [apply_witnessed absent])
  | enterEpoch epoch =>
    exact told_answering (recordUnless_told sound mild apart fun later => by
      rw [apply_later_epoch later])
  | markSeen sender sequence =>
    exact told_answering (recordUnless_told sound mild apart fun higher => by
      rw [apply_higher_mark higher])
  | compact =>
    exact told_then_pure (told_mapError (compact_told sound mild apart))

/-! ## Runs -/

/-- Wherever a process is alive, its journal and the file agree. -/
def Agreeing (P : Postcard) (path : Path) (w : World) : Prop :=
  ∀ j, w.process = some j → Sound P path ⟨w.disk, j⟩

theorem agreeing_dead {d : Disk Path} : Agreeing P path ⟨d, none⟩ := nofun

theorem agreeing_recovered {w : World} (agreeing : Agreeing P path w) {j : Journal}
    (alive : w.process = some j) : w.recovered P path = j.state := by
  have sound := agreeing j alive
  have named := sound.path
  have agree := sound.agree
  rw [bytes, named] at agree
  exact agree

theorem openJournal_sound {d t : Disk Path} {j : Journal}
    (opened : openJournal P env path d = (.ok j, t)) :
    Sound P path ⟨t, j⟩ ∧ j.state = (replay P (d.read path)).1 ∧
      j.bytesOnDisk = (good P (d.read path)).length := by
  have outcome := openJournal_opened P env path d
  rw [opened] at outcome
  cases outcome with
  | opened named state size left attached =>
    refine ⟨⟨named, attached, ?_, ?_⟩, state, size⟩
    · rw [bytes, named, left]
      exact clean_good P _
    · rw [bytes, named, left, (replay_good P _).1, state]

theorem openJournal_stopped {d t : Disk Path} {stop : Stop IoError}
    (stopped : openJournal P env path d = (.error stop, t)) :
    (replay P (t.read path)).1 = (replay P (d.read path)).1 := by
  have outcome := openJournal_opened P env path d
  rw [stopped] at outcome
  cases outcome with
  | stopped blame left =>
    rcases left with same | cut
    · rw [same]
    · rw [cut, (replay_good P _).1]

/-- What a step leaves told, the first `k` entries or all of them. -/
def Stepped (P : Postcard) (path : Path) (w : World) (event : Event) : Prop :=
  Agreeing P path (w.next P path event) ∧
    ∃ k, ((w.next P path event).process ≠ none →
        (recordable P (w.entries P path event)).length ≤ k) ∧
      (w.next P path event).recovered P path =
        (w.recovered P path).applyAll ((recordable P (w.entries P path event)).take k)

theorem operate_stepped {w : World} (agreeing : Agreeing P path w) (mild : Mild env)
    (apart : path.extension ≠ some "compacting") (op : Op) :
    Stepped P path w (.operate op env) := by
  cases alive : w.process with
  | none =>
    have same : w.next P path (.operate op env) = w := by simp [World.next, alive]
    have nothing : w.entries P path (.operate op env) = [] := by simp [World.entries, alive]
    rw [Stepped, same, nothing]
    exact ⟨agreeing, 0, fun live => absurd alive live, rfl⟩
  | some j =>
    have told := op_told (agreeing j alive) mild apart op
    have result : w.next P path (.operate op env) = World.left (op.run P env ⟨w.disk, j⟩) := by
      simp [World.next, alive]
    have telling : w.entries P path (.operate op env) = op.entries j.state := by
      simp [World.entries, alive]
    rw [Stepped, result, telling, agreeing_recovered agreeing alive]
    generalize op.run P env ⟨w.disk, j⟩ = out at told
    obtain ⟨answer, t⟩ := out
    obtain ⟨named, ⟨rfl, k, cut⟩ | ⟨survived, sound, state⟩⟩ := told
    · refine ⟨agreeing_dead, k, fun live => absurd rfl live, ?_⟩
      rw [bytes, named] at cut
      exact cut
    · rw [World.left_alive survived]
      have agreeing' : Agreeing P path ⟨t.disk, some t.journal⟩ := by
        rintro _ ⟨⟩
        exact sound
      refine ⟨agreeing', _, fun _ => Nat.le_refl _, ?_⟩
      rw [List.take_length, agreeing_recovered agreeing' rfl, state]

/-- Opening as a node does: a fresh log's start is told like any other entry. -/
theorem openWithEntropy_told (path : Path) {d : Disk Path} (mild : Mild env) (finish : UInt64) :
    let es := recordable P (startEntries P (d.read path) finish)
    let out := openWithEntropy P env path finish d
    (∃ stop k, out.1 = .error stop ∧
        (replay P (out.2.read path)).1 = (replay P (d.read path)).1.applyAll (es.take k)) ∨
      ∃ j, out.1 = .ok j ∧ Sound P path ⟨out.2, j⟩ ∧
        j.state = (replay P (d.read path)).1.applyAll es := by
  intro es out
  cases opened : openJournal P env path d with
  | mk answer t =>
    cases answer with
    | error stop =>
      have result : out = (.error stop, t) := by simp [out, openWithEntropy, opened]
      rw [result]
      exact Or.inl ⟨stop, 0, rfl, openJournal_stopped opened⟩
    | ok j =>
      obtain ⟨sound, state, size⟩ := openJournal_sound opened
      have fresh : (j.bytesOnDisk = 0 ∧ j.state.nextSequence = 0) ↔
          (good P (d.read path) = [] ∧ (replay P (d.read path)).1.nextSequence = 0) := by
        rw [size, state, List.length_eq_zero_iff]
      by_cases new : good P (d.read path) = [] ∧ (replay P (d.read path)).1.nextSequence = 0
      · have started := fresh.mpr new
        have telling : es = recordable P [.sequence (randomStart finish)] := by
          simp only [es, startEntries, if_pos new]
        have same : { j.state with nextSequence := randomStart finish } =
            j.state.apply (.sequence (randomStart finish)) := by
          have counter : max (0 : UInt64) (randomStart finish) = randomStart finish := by
            apply UInt64.toNat_inj.mp
            rw [max64_toNat]
            exact Nat.max_eq_right (Nat.zero_le _)
          simp only [State.apply, started.2, counter]
        simp only [out, openWithEntropy, opened]
        rw [if_pos started, telling, ← state]
        rcases tried_told sound mild
            (tryAppend_tried P env 0 (.sequence (randomStart finish)) ⟨t, j⟩)
            (f := fun state => { state with nextSequence := randomStart finish }) same with
          ⟨u, tried, sound', state'⟩ | ⟨e, tried, nothing⟩ | ⟨u, k, tried, named, cut⟩
        · rw [tried]
          exact Or.inr ⟨_, rfl, sound', state'⟩
        · rw [tried, nothing]
          refine Or.inl ⟨_, 0, rfl, ?_⟩
          exact agreeing_recovered (w := ⟨t, some j⟩) (by rintro _ ⟨⟩; exact sound) rfl
        · rw [tried]
          refine Or.inl ⟨_, k, rfl, ?_⟩
          rw [bytes, named] at cut
          exact cut
      · have result : out = (.ok j, t) := by
          simp [out, openWithEntropy, opened, fresh, new]
        rw [result]
        refine Or.inr ⟨j, rfl, sound, ?_⟩
        simp only [es, startEntries, if_neg new, state]
        rfl

theorem reopen_stepped {w : World} (agreeing : Agreeing P path w) (mild : Mild env)
    (entropy : Option UInt64) : Stepped P path w (.reopen entropy env) := by
  cases alive : w.process with
  | some j =>
    have same : w.next P path (.reopen entropy env) = w := by simp [World.next, alive]
    have nothing : w.entries P path (.reopen entropy env) = [] := by simp [World.entries, alive]
    rw [Stepped, same, nothing]
    exact ⟨agreeing, 0, fun _ => Nat.le_refl _, rfl⟩
  | none =>
    cases entropy with
    | none =>
      have nothing : w.entries P path (.reopen none env) = [] := by simp [World.entries, alive]
      rw [Stepped, nothing]
      cases opened : openJournal P env path w.disk with
      | mk answer t =>
        cases answer with
        | error stop =>
          have result : w.next P path (.reopen none env) = ⟨t, none⟩ := by
            simp [World.next, alive, openWith, opened]
          rw [result]
          exact ⟨agreeing_dead, 0, fun live => absurd rfl live, openJournal_stopped opened⟩
        | ok j =>
          obtain ⟨sound, state, -⟩ := openJournal_sound opened
          have result : w.next P path (.reopen none env) = ⟨t, some j⟩ := by
            simp [World.next, alive, openWith, opened]
          have agreeing' : Agreeing P path ⟨t, some j⟩ := by
            rintro _ ⟨⟩
            exact sound
          rw [result]
          exact ⟨agreeing', 0, fun _ => Nat.le_refl _,
            (agreeing_recovered agreeing' rfl).trans state⟩
    | some finish =>
      have told := openWithEntropy_told (P := P) path (d := w.disk) mild finish
      have telling : w.entries P path (.reopen (some finish) env) =
          startEntries P (w.disk.read path) finish := by
        simp [World.entries, alive]
      rw [Stepped, telling]
      rcases told with ⟨stop, k, answer, cut⟩ | ⟨j, answer, sound, state⟩
      · have result : w.next P path (.reopen (some finish) env) =
            ⟨(openWithEntropy P env path finish w.disk).2, none⟩ := by
          simp only [World.next, alive, openWith]
          split
          · rename_i h
            rw [h] at answer
            cases answer
          · rename_i h
            rw [h]
        rw [result]
        exact ⟨agreeing_dead, k, fun live => absurd rfl live, cut⟩
      · have result : w.next P path (.reopen (some finish) env) =
            ⟨(openWithEntropy P env path finish w.disk).2, some j⟩ := by
          simp only [World.next, alive, openWith]
          split
          · rename_i h
            rw [h] at answer ⊢
            cases answer
            rfl
          · rename_i h
            rw [h] at answer
            cases answer
        have agreeing' : Agreeing P path
            ⟨(openWithEntropy P env path finish w.disk).2, some j⟩ := by
          rintro _ ⟨⟩
          exact sound
        rw [result]
        refine ⟨agreeing', _, fun _ => Nat.le_refl _, ?_⟩
        rw [List.take_length, agreeing_recovered agreeing' rfl, state]
        rfl

theorem crash_stepped {w : World} : Stepped P path w .crash :=
  ⟨agreeing_dead, 0, fun live => absurd rfl live, rfl⟩

theorem next_stepped {w : World} (agreeing : Agreeing P path w) {event : Event}
    (mild : event.mild) (apart : path.extension ≠ some "compacting") :
    Stepped P path w event := by
  cases event with
  | operate op env => exact operate_stepped agreeing mild apart op
  | reopen entropy env => exact reopen_stepped agreeing mild entropy
  | crash => exact crash_stepped

/-- What a run without failures tells is what is recovered behind it. -/
theorem history_recovered {w : World} (agreeing : Agreeing P path w) {events : List Event}
    (mild : ∀ e ∈ events, e.mild) (apart : path.extension ≠ some "compacting") :
    Agreeing P path (w.after P path events) ∧
      ∃ es, History P path w events es ∧
        (w.after P path events).recovered P path = (w.recovered P path).applyAll es := by
  induction events generalizing w with
  | nil => exact ⟨agreeing, [], .nil, rfl⟩
  | cons event events ih =>
    obtain ⟨agreeing', k, full, told⟩ :=
      next_stepped agreeing (mild event List.mem_cons_self) apart
    obtain ⟨final, es, history, recovered⟩ :=
      ih agreeing' fun e mem => mild e (List.mem_cons_of_mem _ mem)
    refine ⟨final, _, .cons k full history, ?_⟩
    rw [State.applyAll_append, ← told]
    exact recovered

/-! ## Crash safety -/

theorem calm_blameless {calls : Call → Bool} {ε : Type} {stop : Stop ε} :
    ¬ Blame calm calls stop := by
  cases stop <;> (rintro ⟨c, -, h⟩; cases h)

/-- Undisturbed, an opening succeeds. -/
theorem openJournal_calm (P : Postcard) (path : Path) (d : Disk Path) :
    ∃ j t, openJournal P calm path d = (.ok j, t) := by
  have outcome := openJournal_opened P calm path d
  generalize openJournal P calm path d = out at outcome
  cases outcome with
  | stopped blame left => exact (calm_blameless blame).elim
  | @opened j t named state size left attached => exact ⟨j, t, rfl⟩

/-- Opening what an opening left changes nothing. -/
theorem openJournal_again {env' : Env} {d t u : Disk Path} {j j' : Journal}
    (first : openJournal P env path d = (.ok j, t))
    (second : openJournal P env' path t = (.ok j', u)) :
    j'.state = j.state ∧ u.read path = t.read path := by
  have outcome := openJournal_opened P env path d
  rw [first] at outcome
  cases outcome with
  | opened named state size left attached =>
    have outcome' := openJournal_opened P env' path t
    rw [second] at outcome'
    cases outcome' with
    | opened named' state' size' left' attached' =>
      rw [state', left', left, state, good_good, (replay_good P _).1]
      exact ⟨rfl, rfl⟩

theorem record_ok {s t : Running} {i : Nat} {entry : Entry} {update : State → State}
    (ok : record P env i entry update s = (.ok (), t)) :
    (∃ r, encode P entry = .ok r) ∧ env (.write i) = .done ∧ env (.sync i) = .done := by
  have appended := append_appended P env i entry s
  simp only [record, bind_apply] at ok
  generalize append P env i entry s = out at appended ok
  cases appended with
  | whole made written synced => exact ⟨⟨_, made⟩, written, synced⟩
  | unmade made => cases ok
  | refused made fate => cases ok
  | died made fate => cases ok

theorem answering_eq_ok {α : Type} {s t : Running} {answer : α → Answer} {a : Answer}
    {p : Prog Running JournalError α} (ok : answering answer p s = (.ok a, t)) :
    ∃ b, p s = (.ok b, t) ∧ a = answer b := by
  obtain ⟨b, u, first, second⟩ := andThen_eq_ok ok
  cases second
  exact ⟨b, mapError_eq_ok first, rfl⟩

/-- What an accepted record makes true of its entry. -/
def Grants (P : Postcard) (env : Env) (Q : Entry → Prop) : Prop :=
  ∀ entry update s t, record P env 0 entry update s = (.ok (), t) → Q entry

theorem recordUnless_ok {Q : Entry → Prop} (grants : Grants P env Q) {s t : Running}
    {known : Bool} {entry : Entry} {update : State → State}
    (ok : recordUnless P env known entry update s = (.ok (), t)) :
    ∀ e ∈ (if known then [] else [entry]), Q e := by
  cases known with
  | true => exact nofun
  | false =>
    obtain ⟨_, _, recorded, -⟩ := andThen_eq_ok ok
    intro e mem
    rw [List.mem_singleton.mp mem]
    exact grants _ _ _ _ recorded

/-- An operation that returns `Ok` has recorded all it set out to. A sweep skips what it
cannot retire, and an acknowledgement says that it changed nothing. -/
theorem op_ok {Q : Entry → Prop} (grants : Grants P env Q) {s t : Running} {op : Op} {a : Answer}
    (ok : op.run P env s = (.ok a, t)) (changed : a ≠ .flag false)
    (single : ∀ now, op ≠ .dropExpired now) : ∀ e ∈ op.entries s.journal.state, Q e := by
  cases op with
  | commitVote subject voter frame =>
    obtain ⟨b, ran, -⟩ := answering_eq_ok ok
    simp only [commitVote, bind_apply, read_apply, andThen_ok] at ran
    intro e mem
    simp only [Op.entries] at mem
    split at ran
    · rename_i held
      rw [if_pos held] at mem
      cases mem
    · rename_i free
      obtain ⟨_, _, recorded, -⟩ := andThen_eq_ok ran
      rw [if_neg free, List.mem_singleton] at mem
      rw [mem]
      exact grants _ _ _ _ recorded
  | reserveSequence =>
    obtain ⟨b, ran, -⟩ := answering_eq_ok ok
    simp only [reserveSequence, bind_apply, read_apply, andThen_ok] at ran
    obtain ⟨_, _, recorded, -⟩ := andThen_eq_ok ran
    intro e mem
    rw [List.mem_singleton.mp mem]
    exact grants _ _ _ _ recorded
  | acknowledge sequence =>
    obtain ⟨b, ran, rfl⟩ := answering_eq_ok ok
    simp only [acknowledge, bind_apply, read_apply, andThen_ok] at ran
    intro e mem
    simp only [Op.entries] at mem
    split at ran
    · cases ran
      exact absurd rfl changed
    · rename_i held
      obtain ⟨answer, u, recorded, rest⟩ := andThen_eq_ok ran
      cases answer with
      | error e =>
        cases rest
        exact absurd rfl changed
      | ok =>
        rw [if_pos (by simpa using held), List.mem_singleton] at mem
        rw [mem]
        exact grants _ _ _ _ (caught_eq_ok recorded)
  | dropExpired now => exact absurd rfl (single now)
  | witness author frame =>
    obtain ⟨b, ran, -⟩ := answering_eq_ok ok
    exact recordUnless_ok grants ran
  | enterEpoch epoch =>
    obtain ⟨b, ran, -⟩ := answering_eq_ok ok
    exact recordUnless_ok grants ran
  | markSeen sender sequence =>
    obtain ⟨b, ran, -⟩ := answering_eq_ok ok
    exact recordUnless_ok grants ran
  | compact => nofun

theorem op_ok_recordable {s t : Running} {op : Op} {a : Answer}
    (ok : op.run P env s = (.ok a, t)) (changed : a ≠ .flag false)
    (single : ∀ now, op ≠ .dropExpired now) :
    recordable P (op.entries s.journal.state) = op.entries s.journal.state := by
  have grants : Grants P env fun e => (P.format.encode e).isSome = true := by
    intro entry update s t recorded
    obtain ⟨⟨r, made⟩, -⟩ := record_ok recorded
    rw [(encode_format P entry r).mp made]
    rfl
  exact List.filter_eq_self.mpr (op_ok grants ok changed single)

/-- In a run without failures, from any file: the live state is the file's replay; what is
recovered is what the file began with and every entry the run has told; a process that dies
in an operation leaves the state before or after one of its appends; and an opening finds
just that state, once and again. -/
theorem crash_safe (P : Postcard) (path : Path) (disk : Disk Path) (events : List Event)
    (apart : path.extension ≠ some "compacting") (crashes : ∀ e ∈ events, e.noFailure) :
    let w := World.after P path ⟨disk, none⟩ events
    (∀ j, w.process = some j → (replay P (w.disk.read path)).1 = j.state) ∧
    (∃ es, History P path ⟨disk, none⟩ events es ∧
      w.recovered P path = (replay P (disk.read path)).1.applyAll es) ∧
    (∀ j op env, w.process = some j → NoFailure env →
      let out := op.run P env ⟨w.disk, j⟩
      let told := recordable P (op.entries j.state)
      (out.1 = .error .died → ∃ k,
        (w.next P path (.operate op env)).recovered P path = j.state.applyAll (told.take k)) ∧
      (out.1 ≠ .error .died →
        (w.next P path (.operate op env)).recovered P path = j.state.applyAll told) ∧
      (∀ a, out.1 = .ok a → a ≠ .flag false → (∀ now, op ≠ .dropExpired now) →
        told = op.entries j.state)) ∧
    (∃ j d, openJournal P calm path w.disk = (.ok j, d)) ∧
    (∀ env j d, openJournal P env path w.disk = (.ok j, d) →
      j.state = w.recovered P path ∧
      ∀ env' j' d', openJournal P env' path d = (.ok j', d') →
        j'.state = j.state ∧ d'.read path = d.read path) := by
  intro w
  obtain ⟨agreeing, es, history, recovered⟩ :=
    history_recovered (w := ⟨disk, none⟩) agreeing_dead
      (fun e mem => (crashes e mem).mild) apart
  refine ⟨fun j alive => agreeing_recovered agreeing alive, ⟨es, history, recovered⟩, ?_,
    openJournal_calm P path w.disk, ?_⟩
  · intro j op env alive calls out told
    have result : w.next P path (.operate op env) = World.left out := by
      simp [World.next, alive, out]
    have telling := op_told (agreeing j alive) calls.mild apart op
    rw [result]
    refine ⟨?_, ?_, ?_⟩
    · intro dead
      obtain ⟨named, ⟨-, k, cut⟩ | ⟨lived, -⟩⟩ := telling
      · refine ⟨k, ?_⟩
        rw [bytes, named] at cut
        exact (World.left_recovered P path out).trans cut
      · exact absurd dead lived
    · intro lived
      obtain ⟨named, ⟨dead, -⟩ | ⟨-, sound, state⟩⟩ := telling
      · exact absurd dead lived
      · have agree := sound.agree
        rw [bytes, named] at agree
        exact (World.left_recovered P path out).trans (agree.trans state)
    · intro a ok changed single
      exact op_ok_recordable (t := out.2) (Prod.ext ok rfl) changed single
  · intro env j d opened
    obtain ⟨-, state, -⟩ := openJournal_sound opened
    exact ⟨state, fun env' j' d' again => openJournal_again opened again⟩

/-- A run on an empty disk: a member reserves a number and dies flushing the next one. -/
theorem crash_safe_reserving :
    let path : Path := ⟨"member", some "journal"⟩
    let events := [Event.reopen none calm, .operate .reserveSequence calm,
      .operate .reserveSequence (dyingAt (.sync 0) 0), .reopen none calm]
    let w := World.after postcard path ⟨Disk.empty, none⟩ events
    ∃ j, w.process = some j ∧ (replay postcard (w.disk.read path)).1 = j.state := by
  intro path events w
  have crashes : ∀ e ∈ events, e.noFailure := by
    simp [events, Event.noFailure, calm_noFailure, dyingAt_noFailure]
  have lives : w.process.isSome = true := by decide
  obtain ⟨j, alive⟩ := Option.isSome_iff_exists.mp lives
  exact ⟨j, alive, (crash_safe postcard path Disk.empty events (by decide) crashes).1 j alive⟩

end CrashSafety
