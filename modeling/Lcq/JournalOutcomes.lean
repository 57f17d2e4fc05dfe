import Lcq.LogJournal

/-!
# What an append and a compaction can do

The programs of the journal are run once here, call by call, and everything
they can leave behind is listed. Later modules go by these lists.
-/

namespace JournalOutcomes

open ByteFormat FileSystem JournalRecords JournalState LogJournal Program

/-- The handle is the file the path names, and it stands at the end of it. -/
def Attached (s : Running) : Prop :=
  s.disk.names s.journal.path = some s.journal.file.file ∧
    s.journal.file.cursor = (s.disk.content s.journal.file.file).length

/-- The bytes of the file the path names. -/
def bytes (s : Running) : Bytes := s.disk.read s.journal.path

theorem bytes_attached {s : Running} (attached : Attached s) :
    bytes s = s.disk.content s.journal.file.file := by
  simp only [bytes, Disk.read, attached.1]

@[simp] theorem put_path (s : Running) (b : Bytes) : (s.put b).journal.path = s.journal.path := rfl

@[simp] theorem put_state (s : Running) (b : Bytes) : (s.put b).journal.state = s.journal.state := rfl

@[simp] theorem counted_bytes (s : Running) (n : Nat) : bytes (s.counted n) = bytes s := rfl

@[simp] theorem counted_attached (s : Running) (n : Nat) : Attached (s.counted n) ↔ Attached s :=
  Iff.rfl

@[simp] theorem failedWith_bytes (s : Running) (error : IoError) :
    bytes (s.failedWith error) = bytes s := rfl

@[simp] theorem failedWith_attached (s : Running) (error : IoError) :
    Attached (s.failedWith error) ↔ Attached s := Iff.rfl

@[simp] theorem update_bytes (s : Running) (f : State → State) : bytes (s.update f) = bytes s := rfl

@[simp] theorem update_attached (s : Running) (f : State → State) :
    Attached (s.update f) ↔ Attached s := Iff.rfl

theorem put_content {s : Running} (attached : Attached s) (b : Bytes) :
    (s.put b).disk.content s.journal.file.file =
      s.disk.content s.journal.file.file ++ b := by
  obtain ⟨named, atEnd⟩ := attached
  simp only [Running.put, Disk.write, Disk.put_content_same, atEnd, overwrite_end]

/-- Writing at the end is appending. -/
theorem put_attached {s : Running} (attached : Attached s) (b : Bytes) : Attached (s.put b) := by
  refine ⟨attached.1, ?_⟩
  have same : (s.put b).journal.file.file = s.journal.file.file := rfl
  rw [same, put_content attached, List.length_append, ← attached.2]
  rfl

theorem put_bytes {s : Running} (attached : Attached s) (b : Bytes) :
    bytes (s.put b) = bytes s ++ b := by
  rw [bytes_attached (put_attached attached b), bytes_attached attached]
  exact put_content attached b

variable (P : Postcard) (env : Env)

/-! ## Appending -/

/-- How writing one record can end: whole and flushed; not a record at all; refused or
dead behind some part of it, which is all of it if it was the flush that did not succeed. -/
inductive Tried (i : Nat) (entry : Entry) (s : Running) :
    Except (Stop IoError) Unit × Running → Prop
  | whole {r : Bytes} (made : encode P entry = .ok r) (written : env (.write i) = .done)
      (synced : env (.sync i) = .done) : Tried i entry s (.ok (), (s.put r).counted r.length)
  | unmade {error : IoError} (made : encode P entry = .error error) :
      Tried i entry s (.error (.failed error), s)
  | refused {r : Bytes} {n : Nat} (made : encode P entry = .ok r)
      (fate : env (.write i) = .fails n ∨
        env (.write i) = .done ∧ (∃ m, env (.sync i) = .fails m) ∧ n = r.length) :
      Tried i entry s (.error (.failed .os), s.put (r.take n))
  | died {r : Bytes} {n : Nat} (made : encode P entry = .ok r)
      (fate : env (.write i) = .dies n ∨
        env (.write i) = .done ∧ (∃ m, env (.sync i) = .dies m) ∧ n = r.length) :
      Tried i entry s (.error .died, s.put (r.take n))

theorem tryAppend_tried (i : Nat) (entry : Entry) (s : Running) :
    Tried P env i entry s (tryAppend P env i entry s) := by
  cases made : encode P entry with
  | error error =>
    have result : tryAppend P env i entry s = (.error (.failed error), s) := by
      simp [tryAppend, made]
    rw [result]
    exact .unmade made
  | ok r =>
    cases written : env (.write i) with
    | fails n =>
      have result : tryAppend P env i entry s = (.error (.failed .os), s.put (r.take n)) := by
        simp [tryAppend, made, written]
      rw [result]
      exact .refused made (.inl written)
    | dies n =>
      have result : tryAppend P env i entry s = (.error .died, s.put (r.take n)) := by
        simp [tryAppend, made, written]
      rw [result]
      exact .died made (.inl written)
    | done =>
      cases synced : env (.sync i) with
      | done =>
        have result : tryAppend P env i entry s = (.ok (), (s.put r).counted r.length) := by
          simp [tryAppend, made, written, synced]
        rw [result]
        exact .whole made written synced
      | fails m =>
        have result : tryAppend P env i entry s =
            (.error (.failed .os), s.put (r.take r.length)) := by
          simp [tryAppend, made, written, synced]
        rw [result]
        exact .refused made (.inr ⟨written, ⟨m, synced⟩, rfl⟩)
      | dies m =>
        have result : tryAppend P env i entry s = (.error .died, s.put (r.take r.length)) := by
          simp [tryAppend, made, written, synced]
        rw [result]
        exact .died made (.inr ⟨written, ⟨m, synced⟩, rfl⟩)

/-- How an append can end, as its caller sees it. -/
inductive Appended (i : Nat) (entry : Entry) (s : Running) :
    Except (Stop JournalError) Unit × Running → Prop
  | whole {r : Bytes} (made : encode P entry = .ok r) (written : env (.write i) = .done)
      (synced : env (.sync i) = .done) :
      Appended i entry s (.ok (), (s.put r).counted r.length)
  | unmade {error : IoError} (made : encode P entry = .error error) :
      Appended i entry s (.error (.failed .notDurable), s.failedWith error)
  | refused {r : Bytes} {n : Nat} (made : encode P entry = .ok r)
      (fate : env (.write i) = .fails n ∨
        env (.write i) = .done ∧ (∃ m, env (.sync i) = .fails m) ∧ n = r.length) :
      Appended i entry s (.error (.failed .notDurable), (s.put (r.take n)).failedWith .os)
  | died {r : Bytes} {n : Nat} (made : encode P entry = .ok r)
      (fate : env (.write i) = .dies n ∨
        env (.write i) = .done ∧ (∃ m, env (.sync i) = .dies m) ∧ n = r.length) :
      Appended i entry s (.error .died, s.put (r.take n))

theorem append_appended (i : Nat) (entry : Entry) (s : Running) :
    Appended P env i entry s (append P env i entry s) := by
  have tried := tryAppend_tried P env i entry s
  simp only [append, caught, bind_apply]
  generalize tryAppend P env i entry s = out at tried
  cases tried with
  | whole made written synced => exact .whole made written synced
  | unmade made => exact .unmade made
  | refused made fate => exact .refused made fate
  | died made fate => exact .died made fate

/-! ## Compaction -/

/-- The calls of a compaction up to the rename, and those behind it. -/
def early : Call → Bool
  | .create | .scratchWrite _ | .scratchSync | .rename => true
  | _ => false

def late : Call → Bool
  | .syncRenamed | .reopen | .seekReopened => true
  | _ => false

theorem late_not_early {c : Call} (listed : late c = true) : early c = false := by
  cases c with
  | syncRenamed | reopen | seekReopened => rfl
  | _ => cases listed

/-- Why a program stopped: a call failed, or the process died at one. -/
def Blame (calls : Call → Bool) {ε : Type} : Stop ε → Prop
  | .failed _ => ∃ c, calls c = true ∧ (env c).isFailure = true
  | .died => ∃ c, calls c = true ∧ (env c).isDeath = true

/-- Nothing but the scratch file is touched, and it gets the records in order. -/
structure Scratched (file : Nat) (entries : List Entry) (s : Running)
    (out : Except (Stop IoError) Nat × Running) : Prop where
  journal : out.2.journal = s.journal
  names : out.2.disk.names = s.disk.names
  others : ∀ j, j ≠ file → out.2.disk.content j = s.disk.content j
  written : ∀ n, out.1 = .ok n → ∃ w, P.format.encodeAll entries = some w ∧
    out.2.disk.content file = s.disk.content file ++ w ∧ n = (out.2.disk.content file).length
  stopped : ∀ stop, out.1 = .error stop → Blame env early stop ∨
    stop ≠ .died ∧ P.format.encodeAll entries = none

theorem writeScratch_scratched (file i : Nat) (entries : List Entry) (s : Running) :
    Scratched P env file entries s
      (writeScratch P env file i (s.disk.content file).length entries s) := by
  induction entries generalizing i s with
  | nil =>
    refine ⟨rfl, rfl, fun _ _ => rfl, ?_, ?_⟩
    · rintro n ⟨⟩
      exact ⟨[], rfl, by simp [writeScratch], rfl⟩
    · rintro stop ⟨⟩
  | cons entry entries ih =>
    cases made : encode P entry with
    | error error =>
      have result : writeScratch P env file i (s.disk.content file).length (entry :: entries) s =
          (.error (.failed error), s) := by
        simp [writeScratch, made]
      have unmade : P.format.encode entry = none := by
        cases framed : P.format.encode entry with
        | none => rfl
        | some r =>
          rw [← encode_format, made] at framed
          cases framed
      rw [result]
      refine ⟨rfl, rfl, fun _ _ => rfl, nofun, ?_⟩
      rintro stop ⟨⟩
      exact Or.inr ⟨nofun, by simp [RecordLog.Format.encodeAll, unmade]⟩
    | ok r =>
      have framed := (encode_format P entry r).mp made
      have part (b : Bytes) : ∀ j, j ≠ file →
          (s.disk.write ⟨file, (s.disk.content file).length⟩ b).content j = s.disk.content j := by
        intro j apart
        exact Disk.put_content_other _ _ apart
      cases fate : env (.scratchWrite i) with
      | fails n =>
        have result : writeScratch P env file i (s.disk.content file).length (entry :: entries) s =
            (.error (.failed .os), { s with
              disk := s.disk.write ⟨file, (s.disk.content file).length⟩ (r.take n) }) := by
          simp [writeScratch, made, fate]
        rw [result]
        refine ⟨rfl, rfl, part _, nofun, ?_⟩
        rintro stop ⟨⟩
        exact Or.inl ⟨_, rfl, by rw [fate]; rfl⟩
      | dies n =>
        have result : writeScratch P env file i (s.disk.content file).length (entry :: entries) s =
            (.error .died, { s with
              disk := s.disk.write ⟨file, (s.disk.content file).length⟩ (r.take n) }) := by
          simp [writeScratch, made, fate]
        rw [result]
        refine ⟨rfl, rfl, part _, nofun, ?_⟩
        rintro stop ⟨⟩
        exact Or.inl ⟨_, rfl, by rw [fate]; rfl⟩
      | done =>
        let t : Running :=
          { s with disk := s.disk.write ⟨file, (s.disk.content file).length⟩ r }
        have grown : t.disk.content file = s.disk.content file ++ r := by
          simp [t, Disk.write]
        have result : writeScratch P env file i (s.disk.content file).length (entry :: entries) s =
            writeScratch P env file (i + 1) (t.disk.content file).length entries t := by
          rw [grown, List.length_append]
          simp [writeScratch, made, fate, t]
        rw [result]
        have rest := ih (i + 1) t
        refine ⟨rest.journal, rest.names, ?_, ?_, ?_⟩
        · intro j apart
          rw [rest.others j apart]
          exact part r j apart
        · intro n ok
          obtain ⟨w, all, content, size⟩ := rest.written n ok
          refine ⟨r ++ w, by simp [RecordLog.Format.encodeAll, framed, all], ?_, size⟩
          rw [content, grown, List.append_assoc]
        · intro stop stopped
          refine (rest.stopped stop stopped).imp id ?_
          rintro ⟨lives, none⟩
          exact ⟨lives, by simp [RecordLog.Format.encodeAll, framed, none]⟩

/-- The journal and the file under its path are what they were. -/
structure Kept (s t : Running) : Prop where
  journal : t.journal = s.journal
  named : t.disk.names s.journal.path = s.disk.names s.journal.path
  content : ∀ i, s.disk.names s.journal.path = some i → t.disk.content i = s.disk.content i

/-- The path names another file, which holds the snapshot, and only the handle and the
size the journal remembers may differ from before. -/
structure Replaced (s t : Running) (file : Nat) : Prop where
  path : t.journal.path = s.journal.path
  state : t.journal.state = s.journal.state
  named : t.disk.names s.journal.path = some file
  moved : s.disk.names s.journal.path ≠ some file
  snapshot : P.format.encodeAll s.journal.state.snapshot = some (t.disk.content file)

theorem Kept.bytes {s t : Running} (kept : Kept s t) (attached : Attached s) :
    JournalOutcomes.bytes t = JournalOutcomes.bytes s := by
  have path : t.journal.path = s.journal.path := congrArg Journal.path kept.journal
  simp only [JournalOutcomes.bytes, Disk.read, path, kept.named, attached.1,
    kept.content _ attached.1]

theorem Kept.attached {s t : Running} (kept : Kept s t) (attached : Attached s) : Attached t := by
  obtain ⟨named, atEnd⟩ := attached
  rw [Attached, kept.journal, kept.named, kept.content _ named]
  exact ⟨named, atEnd⟩

theorem Replaced.bytes {s t : Running} {file : Nat} (replaced : Replaced P s t file) :
    JournalOutcomes.bytes t = t.disk.content file := by
  simp only [JournalOutcomes.bytes, Disk.read, replaced.path, replaced.named]

/-- How a compaction can end: before the rename nothing has changed; behind it the path
names the snapshot, but the handle is the new file's end only if every call succeeded. -/
inductive Compacted (s : Running) : Except (Stop IoError) Unit × Running → Prop
  | kept {stop : Stop IoError} {t : Running} (kept : Kept s t)
      (blame : Blame env early stop ∨
        stop ≠ .died ∧ P.format.encodeAll s.journal.state.snapshot = none) :
      Compacted s (.error stop, t)
  | cut {stop : Stop IoError} {t : Running} {file : Nat} (replaced : Replaced P s t file)
      (blame : Blame env late stop)
      (handle : t.journal.file = s.journal.file ∨ t.journal.file = ⟨file, 0⟩) :
      Compacted s (.error stop, t)
  | done {t : Running} {file : Nat} (replaced : Replaced P s t file)
      (handle : t.journal.file = ⟨file, (t.disk.content file).length⟩)
      (calls : ∀ c, late c = true → env c = .done) :
      Compacted s (.ok (), t)

/-- A call without partial effects is done or stops the program where it stands. -/
theorem done_or_stops (σ : Type) (c : Call) (calls : Call → Bool) (listed : calls c = true) :
    env c = .done ∨ ∃ stop : Stop IoError, Blame env calls stop ∧
      ∀ (whole : σ → σ) (s : σ), step (env c) IoError.os whole s = (.error stop, s) := by
  cases fate : env c with
  | done => exact Or.inl rfl
  | fails n => exact Or.inr ⟨.failed .os, ⟨c, listed, by rw [fate]; rfl⟩, fun _ _ => rfl⟩
  | dies n => exact Or.inr ⟨.died, ⟨c, listed, by rw [fate]; rfl⟩, fun _ _ => rfl⟩

/-- Behind the rename the path names the scratch file, whatever else succeeds. -/
theorem install_compacted {s u : Running} {scratch file : Nat} {temporary : Path} (written : Nat)
    (kept : Kept s u) (named : s.disk.names s.journal.path = some file) (apart : file ≠ scratch)
    (scratch_named : u.disk.names temporary = some scratch)
    (holds : P.format.encodeAll s.journal.state.snapshot = some (u.disk.content scratch)) :
    Compacted P env s (install env s.journal.path temporary written u) := by
  rcases done_or_stops env Running .rename early rfl with renamed | ⟨stop, blame, stops⟩
  swap
  · have result : install env s.journal.path temporary written u = (.error stop, u) := by
      simp [install, stops]
    rw [result]
    exact .kept kept (.inl blame)
  let v : Running := { u with disk := u.disk.rename temporary s.journal.path }
  have v_named : (u.disk.rename temporary s.journal.path).names s.journal.path = some scratch :=
    Disk.rename_names_new _ scratch_named
  have v_content : v.disk.content = u.disk.content := Disk.rename_content _ _ _
  have replaced (handle : Handle) (size : Nat) : Replaced P s
      { v with journal := { v.journal with file := handle, bytesOnDisk := size } } scratch := by
    have path : u.journal.path = s.journal.path := congrArg Journal.path kept.journal
    have state : u.journal.state = s.journal.state := congrArg Journal.state kept.journal
    refine ⟨path, state, v_named, ?_, ?_⟩
    · rw [named]
      exact fun same => apart (Option.some.inj same)
    · exact holds.trans (congrArg some (congrFun v_content.symm scratch))
  rcases done_or_stops env Running .syncRenamed late rfl with synced | ⟨stop, blame, stops⟩
  swap
  · have result : install env s.journal.path temporary written u = (.error stop, v) := by
      simp [install, renamed, stops, v]
    rw [result]
    exact .cut (replaced v.journal.file v.journal.bytesOnDisk) blame
      (.inl (congrArg Journal.file kept.journal))
  rcases done_or_stops env Running .reopen late rfl with reopened | ⟨stop, blame, stops⟩
  swap
  · have result : install env s.journal.path temporary written u = (.error stop, v) := by
      simp [install, renamed, synced, v_named, stops, v]
    rw [result]
    exact .cut (replaced v.journal.file v.journal.bytesOnDisk) blame
      (.inl (congrArg Journal.file kept.journal))
  rcases done_or_stops env Running .seekReopened late rfl with sought | ⟨stop, blame, stops⟩
  swap
  · have result : install env s.journal.path temporary written u =
        (.error stop, { v with journal := { v.journal with file := ⟨scratch, 0⟩ } }) := by
      simp [install, renamed, synced, reopened, v_named, stops, v]
    rw [result]
    exact .cut (replaced ⟨scratch, 0⟩ v.journal.bytesOnDisk) blame (.inr rfl)
  have result : install env s.journal.path temporary written u =
      (.ok (), { v with journal :=
        { v.journal with
          file := ⟨scratch, (v.disk.content scratch).length⟩
          bytesOnDisk := written } }) := by
    simp [install, renamed, synced, reopened, sought, v_named, v]
  rw [result]
  refine .done (replaced _ _) rfl ?_
  intro c listed
  cases c with
  | syncRenamed => exact synced
  | reopen => exact reopened
  | seekReopened => exact sought
  | _ => cases listed

theorem compact_compacted (s : Running) (apart : s.journal.path.extension ≠ some "compacting")
    {file : Nat} (named : s.disk.names s.journal.path = some file) :
    Compacted P env s (compact P env s) := by
  let temporary := s.journal.path.withExtension "compacting"
  have other : s.journal.path ≠ temporary := by
    intro same
    exact apart (congrArg Path.extension same)
  obtain ⟨scratch, scratch_named, _, fresh⟩ := s.disk.make_names temporary
  obtain ⟨scratch_apart, scratch_keeps⟩ := fresh s.journal.path file other named
  -- the scratch file is there and empty
  let t : Running := { s with disk := (s.disk.make temporary).put scratch [] }
  have t_named : t.disk.names temporary = some scratch := scratch_named
  have t_path : t.disk.names s.journal.path = some file :=
    (s.disk.make_names_other other).trans named
  have t_content : t.disk.content file = s.disk.content file :=
    (Disk.put_content_other _ _ scratch_apart).trans scratch_keeps
  have t_empty : t.disk.content scratch = [] := Disk.put_content_same _ _ _
  -- the scratch file holds some of the records
  have writing := writeScratch_scratched P env scratch 0 s.journal.state.snapshot t
  rw [t_empty, List.length_nil] at writing
  generalize ended : writeScratch P env scratch 0 0 s.journal.state.snapshot t = out at writing
  obtain ⟨answer, u⟩ := out
  have u_named : u.disk.names temporary = some scratch := by rw [writing.names, t_named]
  have u_kept : Kept s u := by
    refine ⟨writing.journal, by rw [writing.names, t_path, named], ?_⟩
    intro i h
    have here : i = file := Option.some.inj (h.symm.trans named)
    subst here
    rw [writing.others i scratch_apart, t_content]
  rcases done_or_stops env Running .create early rfl with created | ⟨stop, blame, stops⟩
  swap
  · have result : compact P env s = (.error stop, s) := by simp [compact, stops]
    rw [result]
    exact .kept ⟨rfl, rfl, fun _ _ => rfl⟩ (.inl blame)
  have begun : compact P env s = andThen (answer, u) fun written =>
      step (env .scratchSync) .os id >>= fun _ =>
        install env s.journal.path temporary written := by
    rw [← ended]
    simp [compact, created, scratch_named, t, temporary]
  rw [begun]
  cases answer with
  | error stop => exact .kept u_kept (writing.stopped stop rfl)
  | ok written =>
    obtain ⟨w, all, content, size⟩ := writing.written written rfl
    rw [andThen_ok, bind_apply]
    rcases done_or_stops env Running .scratchSync early rfl with synced | ⟨stop, blame, stops⟩
    swap
    · rw [stops]
      exact .kept u_kept (.inl blame)
    rw [synced]
    have holds : P.format.encodeAll s.journal.state.snapshot = some (u.disk.content scratch) := by
      rw [content, t_empty, List.nil_append]
      exact all
    exact install_compacted P env written u_kept named scratch_apart u_named holds

/-! ## Opening -/

/-- The calls of an opening. -/
def opening : Call → Bool
  | .openFile | .syncParent | .readToEnd | .setLen | .syncCut | .seekEnd => true
  | _ => false

/-- The good part of a file: what is left of it once it has been opened. -/
def good (b : Bytes) : Bytes := b.take (replay P b).2

theorem replay_le (b : Bytes) : (replay P b).2 ≤ b.length := by
  rw [replay_scan]
  exact (P.format.scan_spec b).2.2

theorem good_whole (b : Bytes) : P.format.Whole (good P b) (P.format.scan b).1 := by
  rw [good, replay_scan]
  exact (P.format.scan_spec b).1

theorem replay_good (b : Bytes) :
    (replay P (good P b)).1 = (replay P b).1 ∧ (replay P (good P b)).2 = (good P b).length := by
  rw [replay_scan P (good P b), P.format.scan_whole (good_whole P b), replay_scan P b]
  exact ⟨rfl, rfl⟩

theorem good_good (b : Bytes) : good P (good P b) = good P b := by
  rw [good, (replay_good P b).2, List.take_length]

/-- How an opening can end: with the file as it was or cut, or with a journal whose state
is the file's replay and whose handle stands at the end of the good part. -/
inductive Opened (path : Path) (d : Disk Path) :
    Except (Stop IoError) Journal × Disk Path → Prop
  | stopped {stop : Stop IoError} {t : Disk Path} (blame : Blame env opening stop)
      (left : t.read path = d.read path ∨ t.read path = good P (d.read path)) :
      Opened path d (.error stop, t)
  | opened {j : Journal} {t : Disk Path} (named : j.path = path)
      (state : j.state = (replay P (d.read path)).1)
      (size : j.bytesOnDisk = (good P (d.read path)).length)
      (left : t.read path = good P (d.read path)) (attached : Attached ⟨t, j⟩) :
      Opened path d (.ok j, t)

/-- Cutting leaves the file whole, cut or not, and finished it leaves the good part. -/
theorem cutTail_cut (file : Nat) (t : Disk Path) :
    let b := t.content file
    let out := cutTail env file b.length (replay P b).2 t
    out.2.names = t.names ∧
      (out.1 = .ok () ∧ out.2.content file = good P b ∨
        ∃ stop, out.1 = .error stop ∧ Blame env opening stop ∧
          (out.2.content file = b ∨ out.2.content file = good P b)) := by
  intro b out
  have short := replay_le P b
  by_cases whole : (replay P b).2 = b.length
  · have result : out = (.ok (), t) := by simp [out, cutTail, whole]
    rw [result]
    refine ⟨rfl, Or.inl ⟨rfl, ?_⟩⟩
    rw [good, whole, List.take_length]
  rcases done_or_stops env (Disk Path) .setLen opening rfl with
    cut | ⟨stop, blame, stops⟩
  swap
  · have result : out = (.error stop, t) := by simp [out, cutTail, whole, stops]
    rw [result]
    exact ⟨rfl, Or.inr ⟨stop, rfl, blame, Or.inl rfl⟩⟩
  have content : (t.setLen file (replay P b).2).content file = good P b := t.setLen_content short
  rcases done_or_stops env (Disk Path) .syncCut opening rfl with
    synced | ⟨stop, blame, stops⟩
  · have result : out = (.ok (), t.setLen file (replay P b).2) := by
      simp [out, cutTail, whole, cut, synced]
    rw [result]
    exact ⟨rfl, Or.inl ⟨rfl, content⟩⟩
  · have result : out = (.error stop, t.setLen file (replay P b).2) := by
      simp [out, cutTail, whole, cut, stops]
    rw [result]
    exact ⟨rfl, Or.inr ⟨stop, rfl, blame, Or.inr content⟩⟩

theorem openJournal_opened (path : Path) (d : Disk Path) :
    Opened P env path d (openJournal P env path d) := by
  obtain ⟨file, named, content, _⟩ := d.make_names path
  let t := d.make path
  have t_read : t.read path = d.read path := by simp only [t, Disk.read, named, content]
  rcases done_or_stops env (Disk Path) .openFile opening rfl with
    made | ⟨stop, blame, stops⟩
  swap
  · have result : openJournal P env path d = (.error stop, d) := by simp [openJournal, stops]
    rw [result]
    exact .stopped blame (.inl rfl)
  rcases done_or_stops env (Disk Path) .syncParent opening rfl with
    synced | ⟨stop, blame, stops⟩
  swap
  · have result : openJournal P env path d = (.error stop, t) := by
      simp [openJournal, made, stops, t]
    rw [result]
    exact .stopped blame (.inl t_read)
  rcases done_or_stops env (Disk Path) .readToEnd opening rfl with
    reading | ⟨stop, blame, stops⟩
  swap
  · have result : openJournal P env path d = (.error stop, t) := by
      simp [openJournal, made, synced, stops, t]
    rw [result]
    exact .stopped blame (.inl t_read)
  have begun : openJournal P env path d =
      andThen (cutTail env file (d.read path).length (replay P (d.read path)).2 t) fun _ =>
        step (env .seekEnd) .os id >>= fun _ => Program.read >>= fun d' => pure
          { file := ⟨file, (d'.content file).length⟩
            path := path
            state := (replay P (d.read path)).1
            bytesOnDisk := (replay P (d.read path)).2
            lastIoError := none } := by
    simp [openJournal, made, synced, reading, named, content, t]
  obtain ⟨names, ended⟩ := cutTail_cut P env file t
  rw [begun]
  rw [content] at names ended
  generalize cutTail env file (d.read path).length (replay P (d.read path)).2 t = out at names ended ⊢
  obtain ⟨answer, u⟩ := out
  dsimp only at names ended ⊢
  have u_named : u.names path = some file := by rw [names, named]
  have u_read : u.read path = u.content file := by simp only [Disk.read, u_named]
  rcases ended with ⟨rfl, left⟩ | ⟨stop, rfl, blame, left⟩
  swap
  · exact .stopped blame (by rwa [u_read])
  rcases done_or_stops env (Disk Path) .seekEnd opening rfl with
    sought | ⟨stop, blame, stops⟩
  · simp only [andThen_ok, bind_apply, sought, step_done, read_apply, pure_apply, id_eq]
    refine .opened rfl rfl ?_ (u_read.trans left) ⟨u_named, rfl⟩
    rw [good, List.length_take, Nat.min_eq_left (replay_le P _)]
  · simp only [andThen_ok, bind_apply, stops, andThen_error]
    exact .stopped blame (Or.inr (u_read.trans left))

/-! ## The live state -/

section live

variable {P env} {I : State → Prop}

theorem append_keeps (i : Nat) (entry : Entry) :
    Keeps (fun s : Running => I s.journal.state) (append P env i entry) := by
  have tried : Keeps (fun s : Running => I s.journal.state) (tryAppend P env i entry) := by
    refine Keeps.bind (Keeps.ofExcept _) fun record => ?_
    refine Keeps.bind (Keeps.call ?_ ?_) fun _ => Keeps.bind (Keeps.step ?_) fun _ =>
      Keeps.change ?_
    · exact fun _ _ held => held
    · exact fun _ held => held
    · exact fun _ held => held
    · exact fun _ held => held
  refine Keeps.bind tried.caught fun answer => ?_
  cases answer with
  | ok => exact Keeps.pure ()
  | error error =>
    refine Keeps.bind (Keeps.change ?_) fun _ => Keeps.fail _
    exact fun _ held => held

/-- Recording changes the live state by its update, if at all. -/
theorem record_keeps (i : Nat) (entry : Entry) {update : State → State}
    (kept : ∀ state, I state → I (update state)) :
    Keeps (fun s : Running => I s.journal.state) (record P env i entry update) :=
  (append_keeps i entry).bind fun _ => Keeps.change fun s held => kept s.journal.state held

theorem writeScratch_keeps (file i written : Nat) (entries : List Entry) :
    Keeps (fun s : Running => I s.journal.state) (writeScratch P env file i written entries) := by
  induction entries generalizing i written with
  | nil => exact Keeps.pure written
  | cons entry entries ih =>
    refine Keeps.bind (Keeps.ofExcept _) fun record => ?_
    refine Keeps.bind (Keeps.call ?_ ?_) fun _ => ih _ _
    · exact fun _ _ held => held
    · exact fun _ held => held

theorem install_keeps (path temporary : Path) (written : Nat) :
    Keeps (fun s : Running => I s.journal.state) (install env path temporary written) := by
  refine Keeps.bind (Keeps.step ?_) fun _ => Keeps.bind (Keeps.step ?_) fun _ =>
    Keeps.bind Keeps.read fun s => ?_
  · exact fun _ held => held
  · exact fun _ held => held
  split
  · exact Keeps.fail _
  · refine Keeps.bind (Keeps.step ?_) fun _ => Keeps.bind (Keeps.step ?_) fun _ => Keeps.change ?_
    · exact fun _ held => held
    · exact fun _ held => held
    · exact fun _ held => held

theorem compact_keeps : Keeps (fun s : Running => I s.journal.state) (compact P env) := by
  refine Keeps.bind Keeps.read fun s => Keeps.bind (Keeps.step ?_) fun _ =>
    Keeps.bind Keeps.read fun u => ?_
  · intro s held
    dsimp only
    split <;> exact held
  · split
    · exact Keeps.fail _
    · refine Keeps.bind (writeScratch_keeps _ 0 0 _) fun written =>
        Keeps.bind (Keeps.step ?_) fun _ => install_keeps _ _ _
      exact fun _ held => held

theorem compactIfLarge_keeps :
    Keeps (fun s : Running => I s.journal.state) (compactIfLarge P env) := by
  refine Keeps.read.bind fun s => ?_
  split
  · exact Keeps.pure ()
  · refine compact_keeps.caught.bind fun answer => ?_
    cases answer with
    | ok => exact Keeps.pure ()
    | error error => exact Keeps.change fun _ held => held

theorem recordUnless_keeps (known : Bool) (entry : Entry) {update : State → State}
    (kept : ∀ state, I state → I (update state)) :
    Keeps (fun s : Running => I s.journal.state) (recordUnless P env known entry update) := by
  cases known with
  | true => exact Keeps.pure ()
  | false => exact (record_keeps 0 entry kept).bind fun _ => compactIfLarge_keeps

end live

end JournalOutcomes
