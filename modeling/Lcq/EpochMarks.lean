import Lcq.CrashSafety

/-!
# Epochs and marks over a journal's whole life

The epoch a journal is in is the highest ever entered, and what it remembers of
a sender is the highest mark made since an epoch above all before it was
entered. Compactions and reopenings in between change neither.
-/

namespace EpochMarks

open ByteFormat Contracts CrashSafety FileSystem JournalOutcomes JournalRecords JournalRuns
  JournalState LogJournal OrderedMap Program

/-! ## The greatest of a list -/

/-- The greatest of a list, if there is anything in it. -/
inductive Highest {α : Type} [LE α] : List α → Option α → Prop
  | nothing : Highest [] none
  | top {l : List α} {m : α} (mem : m ∈ l) (above : ∀ x ∈ l, x ≤ m) : Highest l (some m)

namespace Highest

section

variable {α : Type} [LE α] {l : List α} {m x : α}

theorem eq_nil (highest : Highest l none) : l = [] := by
  cases highest
  rfl

theorem mem (highest : Highest l (some m)) : m ∈ l := by
  cases highest
  assumption

theorem le (highest : Highest l (some m)) (inside : x ∈ l) : x ≤ m := by
  cases highest with
  | top _ above => exact above x inside

/-- One more, no higher than the highest. -/
theorem snoc_below (highest : Highest l (some m)) (below : x ≤ m) :
    Highest (l ++ [x]) (some m) := by
  refine top (List.mem_append_left _ highest.mem) ?_
  intro y inside
  rcases List.mem_append.mp inside with inside | inside
  · exact highest.le inside
  · rwa [List.mem_singleton.mp inside]

/-- A longer list has no lower highest. -/
theorem mono {o : Option α} {more : List α} (highest : Highest l (some m))
    (later : Highest (l ++ more) o) : ∃ m', o = some m' ∧ m ≤ m' := by
  have inside : m ∈ l ++ more := List.mem_append_left _ highest.mem
  cases o with
  | none =>
    rw [later.eq_nil] at inside
    cases inside
  | some m' => exact ⟨m', rfl, later.le inside⟩

end

variable {α : Type} [LE α] [Std.IsLinearOrder α] {l : List α} {o : Option α} {x : α}

/-- One more, and higher than the highest. -/
theorem snoc_above (highest : Highest l o) (above : ∀ m, o = some m → ¬ x ≤ m) :
    Highest (l ++ [x]) (some x) := by
  refine top (List.mem_append_right _ List.mem_cons_self) ?_
  intro y inside
  rcases List.mem_append.mp inside with inside | inside
  · cases o with
    | none =>
      rw [highest.eq_nil] at inside
      cases inside
    | some m =>
      have higher : m ≤ x := (Std.le_total).resolve_left (above m rfl)
      exact Std.le_trans (highest.le inside) higher
  · rw [List.mem_singleton.mp inside]
    exact Std.le_refl x

theorem unique {o' : Option α} (first : Highest l o) (second : Highest l o') : o = o' := by
  cases first with
  | nothing =>
    cases second with
    | nothing => rfl
    | top mem => cases mem
  | top mem above =>
    cases second with
    | nothing => cases mem
    | top mem' above' => exact congrArg some (Std.le_antisymm (above' _ mem) (above _ mem'))

end Highest

/-! ## What is done with a journal -/

/-- The journal's epoch and marks are moved, it is compacted, or it is dropped and opened
again, with a hasher's output as a node opens it. -/
inductive Step where
  | enterEpoch (epoch : UInt16)
  | markSeen (sender : UInt16) (sequence : UInt64)
  | compact
  | reopen (entropy : Option UInt64)
  deriving DecidableEq

/-- The step as events of a run in which every call of the operating system succeeds. -/
def Step.events : Step → List Event
  | .enterEpoch epoch => [.operate (.enterEpoch epoch) calm]
  | .markSeen sender sequence => [.operate (.markSeen sender sequence) calm]
  | .compact => [.operate .compact calm]
  | .reopen entropy => [.crash, .reopen entropy calm]

/-- A file opened for the first time, and what is then done with the journal. -/
def life (path : Path) (disk : Disk Path) (entropy : Option UInt64) (steps : List Step) : World :=
  World.after postcard path ⟨disk, none⟩
    (.reopen entropy calm :: steps.flatMap Step.events)

/-- The epochs entered, in order. -/
def entered (steps : List Step) : List UInt16 :=
  steps.filterMap fun
    | .enterEpoch epoch => some epoch
    | _ => none

/-- The marks made for a sender, in order. -/
def marked (sender : UInt16) (steps : List Step) : List UInt64 :=
  steps.filterMap fun
    | .markSeen s sequence => if s = sender then some sequence else none
    | _ => none

/-- What was done since an epoch higher than all before it was last entered: all of it, if
none was ever entered. -/
inductive Since : List Step → List Step → Prop
  | never {steps : List Step} (none : entered steps = []) : Since steps steps
  | raised {before since : List Step} {epoch : UInt16} (higher : ∀ e ∈ entered before, e < epoch)
      (after : ∀ e ∈ entered since, e ≤ epoch) :
      Since (before ++ .enterEpoch epoch :: since) since

@[simp] theorem entered_append (before after : List Step) :
    entered (before ++ after) = entered before ++ entered after := List.filterMap_append

@[simp] theorem marked_append (sender : UInt16) (before after : List Step) :
    marked sender (before ++ after) = marked sender before ++ marked sender after :=
  List.filterMap_append

theorem mem_entered {steps : List Step} {epoch : UInt16} :
    epoch ∈ entered steps ↔ .enterEpoch epoch ∈ steps := by
  simp only [entered, List.mem_filterMap]
  constructor
  · rintro ⟨step, inside, named⟩
    cases step <;> cases named
    exact inside
  · intro inside
    exact ⟨_, inside, rfl⟩

/-- The last raise splits a run in one way only. -/
theorem Since.unique {steps since other : List Step} (first : Since steps since)
    (second : Since steps other) : since = other := by
  have ends {before since before' since' : List Step} {epoch epoch' : UInt16}
      (same : before ++ .enterEpoch epoch :: since = before' ++ .enterEpoch epoch' :: since')
      (after : ∀ e ∈ entered since, e ≤ epoch) (higher : ∀ e ∈ entered before', e < epoch') :
      ∃ between, since' = between ++ since := by
    rcases List.append_eq_append_iff.mp same with ⟨gap, rfl, rest⟩ | ⟨gap, rfl, rest⟩
    · cases gap with
      | nil =>
        cases rest
        exact ⟨[], rfl⟩
      | cons step gap =>
        obtain ⟨rfl, rfl⟩ := List.cons.inj rest
        have lower := higher epoch (by simp [mem_entered])
        have upper := after epoch' (by simp [mem_entered])
        exact absurd lower (UInt16.not_lt.mpr upper)
    · cases gap with
      | nil =>
        cases rest
        exact ⟨[], rfl⟩
      | cons step gap =>
        obtain ⟨-, rfl⟩ := List.cons.inj rest
        exact ⟨gap ++ [.enterEpoch epoch], by simp⟩
  cases first with
  | never none =>
    cases second with
    | never => rfl
    | raised => simp [entered] at none
  | @raised before since epoch higher after =>
    generalize split : before ++ .enterEpoch epoch :: since = steps at second
    cases second with
    | never none =>
      subst split
      simp [entered] at none
    | @raised before' other epoch' higher' after' =>
      obtain ⟨front, here⟩ := ends split after higher'
      obtain ⟨back, there⟩ := ends split.symm after' higher
      have total := congrArg List.length here
      have total' := congrArg List.length there
      rw [List.length_append] at total total'
      have short : front = [] := List.length_eq_zero_iff.mp (by omega)
      rw [here, short, List.nil_append]

/-- A step that enters no epoch is done since the last raise. -/
theorem Since.quiet {steps since : List Step} (held : Since steps since) {step : Step}
    (silent : entered [step] = []) : Since (steps ++ [step]) (since ++ [step]) := by
  cases held with
  | never none => exact .never (by rw [entered_append, none, silent, List.nil_append])
  | @raised before _ epoch higher after =>
    rw [List.append_assoc, List.cons_append]
    refine .raised higher ?_
    rw [entered_append, silent, List.append_nil]
    exact after

/-- Entering an epoch no higher than the highest is done since the last raise. -/
theorem Since.lower {steps since : List Step} (held : Since steps since) {top epoch : UInt16}
    (highest : Highest (entered steps) (some top)) (lower : epoch ≤ top) :
    Since (steps ++ [.enterEpoch epoch]) (since ++ [.enterEpoch epoch]) := by
  cases held with
  | never none =>
    have inside := highest.mem
    rw [none] at inside
    cases inside
  | @raised before _ raise higher after =>
    rw [List.append_assoc, List.cons_append]
    refine .raised higher ?_
    have below : top ≤ raise := by
      have inside := highest.mem
      simp only [mem_entered, List.mem_append, List.mem_cons, Step.enterEpoch.injEq] at inside
      rcases inside with inside | same | inside
      · exact UInt16.le_of_lt (higher top (mem_entered.mpr inside))
      · rw [same]
        exact UInt16.le_refl _
      · exact after top (mem_entered.mpr inside)
    intro e inside
    rw [entered_append] at inside
    rcases List.mem_append.mp inside with inside | inside
    · exact after e inside
    · rw [List.mem_singleton.mp inside]
      exact UInt16.le_trans lower below

/-! ## What a state knows of epochs and marks -/

/-- The state has the highest epoch entered, and of each sender the highest mark made since
the last raise. -/
def Knows (steps : List Step) (s : State) : Prop :=
  Highest (entered steps) s.epoch ∧
    ∃ since, Since steps since ∧ ∀ sender, Highest (marked sender since) s.seen[sender]?

theorem knows_initial : Knows [] State.initial := by
  refine ⟨.nothing, [], .never rfl, ?_⟩
  intro sender
  simp only [State.initial, Std.ExtTreeMap.getElem?_empty]
  exact .nothing

/-- A step that touches neither. -/
theorem Knows.aside {steps : List Step} {s t : State} {step : Step} (knows : Knows steps s)
    (silent : entered [step] = []) (unmarked : ∀ sender, marked sender [step] = [])
    (epoch : t.epoch = s.epoch) (seen : t.seen = s.seen) : Knows (steps ++ [step]) t := by
  obtain ⟨highest, since, split, marks⟩ := knows
  refine ⟨?_, _, split.quiet silent, ?_⟩
  · rw [entered_append, silent, List.append_nil, epoch]
    exact highest
  · intro sender
    rw [marked_append, unmarked, List.append_nil, seen]
    exact marks sender

/-- What entering an epoch makes of the state. -/
theorem Knows.enter {steps : List Step} {s : State} (knows : Knows steps s) (epoch : UInt16) :
    Knows (steps ++ [.enterEpoch epoch])
      (if s.epoch.any fun held => decide (epoch ≤ held) then s else s.apply (.epoch epoch)) := by
  obtain ⟨highest, since, split, marks⟩ := knows
  have one : entered [.enterEpoch epoch] = [epoch] := rfl
  cases later : s.epoch.any fun held => decide (epoch ≤ held) with
  | true =>
    rw [if_pos rfl]
    cases known : s.epoch with
    | none => simp [known] at later
    | some held =>
      have lower : epoch ≤ held := by simpa [known] using later
      rw [known] at highest
      refine ⟨?_, _, split.lower highest lower, ?_⟩
      · rw [entered_append, one, known]
        exact highest.snoc_below lower
      · intro sender
        rw [marked_append]
        simpa [marked] using marks sender
  | false =>
    have above : ∀ m, s.epoch = some m → ¬ epoch ≤ m := by
      intro m held
      simpa [held] using later
    rw [if_neg Bool.false_ne_true, apply_later_epoch later]
    refine ⟨?_, [], .raised ?_ (by simp [entered]), ?_⟩
    · rw [entered_append, one]
      exact highest.snoc_above above
    · intro e inside
      cases held : s.epoch with
      | none =>
        rw [held] at highest
        rw [highest.eq_nil] at inside
        cases inside
      | some m =>
        rw [held] at highest
        exact UInt16.lt_of_le_of_lt (highest.le inside) (UInt16.not_le.mp (above m held))
    · intro sender
      simp only [Std.ExtTreeMap.getElem?_empty]
      exact .nothing

/-- What a mark makes of the state. -/
theorem Knows.mark {steps : List Step} {s : State} (knows : Knows steps s) (sender : UInt16)
    (sequence : UInt64) :
    Knows (steps ++ [.markSeen sender sequence])
      (if s.seen[sender]?.any fun held => decide (sequence ≤ held) then s
        else s.apply (.seen sender sequence)) := by
  obtain ⟨highest, since, split, marks⟩ := knows
  have silent : entered [.markSeen sender sequence] = [] := rfl
  have one : marked sender [.markSeen sender sequence] = [sequence] := by simp [marked]
  have others : ∀ other, sender ≠ other → marked other [.markSeen sender sequence] = [] := by
    intro other apart
    simp [marked, apart]
  cases stale : s.seen[sender]?.any fun held => decide (sequence ≤ held) with
  | true =>
    rw [if_pos rfl]
    refine ⟨?_, _, split.quiet silent, ?_⟩
    · rw [entered_append, silent, List.append_nil]
      exact highest
    · intro other
      rw [marked_append]
      by_cases same : sender = other
      · subst same
        have held := marks sender
        rw [one]
        cases known : s.seen[sender]? with
        | none => simp [known] at stale
        | some m =>
          rw [known] at held
          exact held.snoc_below (by simpa [known] using stale)
      · rw [others other same, List.append_nil]
        exact marks other
  | false =>
    rw [if_neg Bool.false_ne_true, apply_higher_mark stale]
    refine ⟨?_, _, split.quiet silent, ?_⟩
    · rw [entered_append, silent, List.append_nil]
      exact highest
    · intro other
      rw [marked_append, get_insert]
      by_cases same : sender = other
      · subst same
        rw [one, if_pos rfl]
        refine (marks sender).snoc_above ?_
        intro m held
        simpa [held] using stale
      · rw [others other same, List.append_nil, if_neg same]
        exact marks other

/-! ## Calls that all succeed -/

section calm

variable {P : Postcard} {path : Path} {s : Running}

/-- The snapshot of the state can be written. -/
def Writable (P : Postcard) (state : State) : Prop :=
  ∃ w, P.format.encodeAll state.snapshot = some w

theorem tryAppend_calm (i : Nat) (entry : Entry) (made : ∃ r, encode P entry = .ok r) :
    ∃ t, tryAppend P calm i entry s = (.ok (), t) := by
  obtain ⟨r, made⟩ := made
  have tried := tryAppend_tried P calm i entry s
  generalize tryAppend P calm i entry s = out at tried
  cases tried with
  | whole => exact ⟨_, rfl⟩
  | unmade unmade =>
    rw [made] at unmade
    cases unmade
  | refused _ fate =>
    rcases fate with fails | ⟨-, ⟨m, fails⟩, -⟩
    · cases fails
    · cases fails
  | died _ fate =>
    rcases fate with dies | ⟨-, ⟨m, dies⟩, -⟩
    · cases dies
    · cases dies

/-- One record is written, and the file agrees. -/
theorem record_calm (sound : Sound P path s) (i : Nat) {entry : Entry} {update : State → State}
    (made : ∃ r, encode P entry = .ok r)
    (same : update s.journal.state = s.journal.state.apply entry) :
    ∃ t, record P calm i entry update s = (.ok (), t) ∧ Sound P path t ∧
      t.journal.state = s.journal.state.apply entry := by
  obtain ⟨t, appended⟩ := tryAppend_calm (s := s) i entry made
  obtain ⟨r, made⟩ := made
  have told := tried_told sound calm_noFailure.mild (tryAppend_tried P calm i entry s) same
  rw [appended] at told
  rcases told with ⟨u, out, sound', state⟩ | ⟨e, out, -⟩ | ⟨u, k, out, -, -⟩
  · cases out
    rw [recordable_made made] at state
    exact ⟨_, by simp [record, append, caught, appended], sound', state⟩
  · cases out
  · cases out

theorem writeScratch_calm {file : Nat} {w : Bytes} (empty : s.disk.content file = [])
    (all : P.format.encodeAll s.journal.state.snapshot = some w) :
    ∃ t, writeScratch P calm file 0 0 s.journal.state.snapshot s = (.ok w.length, t) ∧
      t.journal = s.journal ∧ t.disk.names = s.disk.names ∧ t.disk.content file = w := by
  have writing := writeScratch_scratched P calm file 0 s.journal.state.snapshot s
  rw [empty, List.length_nil] at writing
  generalize ended : writeScratch P calm file 0 0 s.journal.state.snapshot s = out at writing
  obtain ⟨answer, t⟩ := out
  cases answer with
  | error stop =>
    rcases writing.stopped stop rfl with blame | ⟨-, unmade⟩
    · exact (calm_blameless blame).elim
    · rw [all] at unmade
      cases unmade
  | ok n =>
    obtain ⟨w', all', content, size⟩ := writing.written n rfl
    rw [all] at all'
    cases all'
    rw [empty, List.nil_append] at content
    dsimp only at content size
    rw [content] at size
    exact ⟨t, by rw [size], writing.journal, writing.names, content⟩

/-- A compaction goes through, whatever the journal's name: one under the very name of the
scratch file is emptied, written again and renamed onto itself. -/
theorem compact_calm (sound : Sound P path s) (writable : Writable P s.journal.state) :
    ∃ t, compact P calm s = (.ok (), t) ∧ Sound P path t ∧
      t.journal.state = s.journal.state := by
  obtain ⟨w, all⟩ := writable
  by_cases apart : path.extension ≠ some "compacting"
  · have told := compact_told sound calm_noFailure.mild apart
    have compacted := compact_compacted P calm s (sound.path ▸ apart) sound.attached.1
    generalize compact P calm s = out at told compacted
    cases compacted with
    | kept _ blame =>
      rcases blame with blame | ⟨-, unmade⟩
      · exact (calm_blameless blame).elim
      · rw [all] at unmade
        cases unmade
    | cut _ blame => exact (calm_blameless blame).elim
    | @done t =>
      obtain ⟨-, ⟨dead, -⟩ | ⟨-, sound', state⟩⟩ := told
      · cases dead
      · exact ⟨t, rfl, sound', state⟩
  · have own : s.journal.path.withExtension "compacting" = s.journal.path := by
      have extension := not_not.mp apart
      rw [sound.path]
      cases path
      cases extension
      rfl
    have named := sound.attached.1
    let file := s.journal.file.file
    have made : s.disk.make s.journal.path = s.disk := by
      unfold Disk.make
      split
      · rfl
      · rename_i none
        rw [named] at none
        cases none
    let t : Running := { s with disk := s.disk.put file [] }
    obtain ⟨u, written, journal, names, content⟩ :=
      writeScratch_calm (s := t) (s.disk.put_content_same file []) all
    have u_named : u.disk.names s.journal.path = some file := by
      rw [names]
      exact named
    have renamed : u.disk.rename s.journal.path s.journal.path = u.disk := by
      simp [Disk.rename]
    let v : Running :=
      { u with journal :=
        { u.journal with file := ⟨file, (u.disk.content file).length⟩, bytesOnDisk := w.length } }
    have begun : compact P calm s =
        andThen (writeScratch P calm file 0 0 s.journal.state.snapshot t) fun written =>
          step (calm .scratchSync) .os id >>= fun _ =>
            install calm s.journal.path s.journal.path written := by
      simp [compact, own, made, named, calm, t, file]
    have result : compact P calm s = (.ok (), v) := by
      rw [begun, show writeScratch P calm file 0 0 s.journal.state.snapshot t = (.ok w.length, u)
        from written]
      simp [install, calm, u_named, renamed, v]
    have same : v.journal.path = s.journal.path := by
      simp only [v, journal]
      rfl
    have told : replay P (bytes v) = (s.journal.state, w.length) := by
      rw [bytes, Disk.read, same, show v.disk.names s.journal.path = some file from u_named]
      simp only [v, content]
      exact replay_snapshot P (Sound.filed P path sound) all
    refine ⟨v, result, ⟨same.trans sound.path, ⟨?_, rfl⟩, ?_, ?_⟩, ?_⟩
    · rw [same]
      exact u_named
    · rw [Clean, told, bytes, Disk.read, same, show v.disk.names s.journal.path = some file from
        u_named]
      exact congrArg List.length content.symm
    · rw [told]
      simp only [v, journal]
      rfl
    · simp only [v, journal]
      rfl

theorem compactIfLarge_calm (sound : Sound P path s) (writable : Writable P s.journal.state) :
    ∃ t, compactIfLarge P calm s = (.ok (), t) ∧ Sound P path t ∧
      t.journal.state = s.journal.state := by
  simp only [compactIfLarge, bind_apply, read_apply, andThen_ok]
  split
  · exact ⟨s, rfl, sound, rfl⟩
  · obtain ⟨t, compacted, sound', state⟩ := compact_calm sound writable
    exact ⟨t, by simp [caught, compacted], sound', state⟩

/-- A fact is recorded unless it is known, and the call answers `Ok`. -/
theorem recordUnless_calm (sound : Sound P path s) {known : Bool} {entry : Entry}
    {update : State → State} (made : ∃ r, encode P entry = .ok r)
    (same : known = false → update s.journal.state = s.journal.state.apply entry)
    (writable : Writable P (s.journal.state.apply entry)) :
    ∃ t, recordUnless P calm known entry update s = (.ok (), t) ∧ Sound P path t ∧
      t.journal.state = if known then s.journal.state else s.journal.state.apply entry := by
  cases known with
  | true => exact ⟨s, rfl, sound, rfl⟩
  | false =>
    obtain ⟨t, recorded, sound', state⟩ := record_calm sound 0 made (same rfl)
    obtain ⟨u, compacted, sound'', kept⟩ := compactIfLarge_calm sound' (state ▸ writable)
    refine ⟨u, ?_, sound'', kept.trans state⟩
    simp [recordUnless, recorded, compacted]

end calm

/-! ## What the serialiser writes -/

/-- The records of numbers alone. -/
def plain : Entry → Bool
  | .sequence _ | .seen _ _ | .epoch _ => true
  | _ => false

theorem plain_made (entry : Entry) (numbers : plain entry = true) :
    ∃ r, encode postcard entry = .ok r := by
  have short {p : Bytes} (written : postcard.toAllocvec entry = .ok p) (few : p.length ≤ 18) :
      ∃ r, encode postcard entry = .ok r := by
    rw [encode, written]
    exact ⟨_, if_neg (by rw [maxRecordBytes]; omega)⟩
  have front := writeGroups_length_le 5 (variant entry).toNat
  cases entry with
  | sequence next =>
    refine short rfl ?_
    have number := writeGroups_length_le 10 next.toNat
    rw [List.length_append]
    omega
  | seen sender sequence =>
    refine short rfl ?_
    have who := writeGroups_length_le 3 sender.toNat
    have number := writeGroups_length_le 10 sequence.toNat
    rw [List.length_append, List.length_append]
    dsimp only
    omega
  | epoch epoch =>
    refine short rfl ?_
    have number := writeGroups_length_le 3 epoch.toNat
    rw [List.length_append]
    omega
  | _ => cases numbers

/-- A state of numbers alone: no vote, no frame, no witnessed vote. -/
structure Bare (s : State) : Prop where
  locks : s.locks = ∅
  pending : s.pending = ∅
  witnessed : s.witnessed = ∅

theorem encodeAll_made {P : Postcard} {es : List Entry}
    (made : ∀ e ∈ es, ∃ r, encode P e = .ok r) : ∃ w, P.format.encodeAll es = some w := by
  induction es with
  | nil => exact ⟨[], rfl⟩
  | cons e es ih =>
    obtain ⟨r, one⟩ := made e List.mem_cons_self
    obtain ⟨w, rest⟩ := ih fun e inside => made e (List.mem_cons_of_mem _ inside)
    exact ⟨r ++ w, by simp [RecordLog.Format.encodeAll, (encode_format P e r).mp one, rest]⟩

theorem Bare.writable {s : State} (bare : Bare s) : Writable postcard s := by
  apply encodeAll_made
  intro e inside
  apply plain_made
  have nothing : values (∅ : Map UInt64 OutgoingFrame) = [] := by
    rw [values, Std.ExtTreeMap.toList_eq_nil_iff.mpr rfl]
    rfl
  have free : (∅ : Keys String).toList = [] := Std.ExtTreeSet.toList_eq_nil_iff.mpr rfl
  have none : (∅ : Map String Bytes).toList = [] := Std.ExtTreeMap.toList_eq_nil_iff.mpr rfl
  simp only [State.snapshot, bare.locks, bare.pending, bare.witnessed, nothing, free,
    none, List.map_nil, List.append_nil, List.mem_append, List.mem_singleton, List.mem_map]
    at inside
  rcases inside with (rfl | inside) | ⟨mark, -, rfl⟩
  · rfl
  · split at inside
    · cases inside
    · rw [List.mem_singleton.mp inside]
      rfl
  · rfl

theorem Bare.apply {s : State} (bare : Bare s) {e : Entry} (numbers : plain e = true) :
    Bare (s.apply e) := by
  cases e with
  | sequence | seen | epoch => exact ⟨bare.locks, bare.pending, bare.witnessed⟩
  | _ => cases numbers

/-! ## The journal over its whole life -/

/-- Opened, whichever way, the journal is what the file replays to, but for a fresh log's
first number. -/
theorem openWith_calm (path : Path) (d : Disk Path) (entropy : Option UInt64) :
    ∃ j t, openWith postcard calm path entropy d = (.ok j, t) ∧ Sound postcard path ⟨t, j⟩ ∧
      (j.state = (replay postcard (d.read path)).1 ∨
        ∃ next, j.state = (replay postcard (d.read path)).1.apply (.sequence next)) := by
  obtain ⟨j, t, opened⟩ := openJournal_calm postcard path d
  cases entropy with
  | none =>
    obtain ⟨sound, state, -⟩ := openJournal_sound opened
    exact ⟨j, t, opened, sound, Or.inl state⟩
  | some finish =>
    have ends : ∃ k u, openWithEntropy postcard calm path finish d = (.ok k, u) := by
      simp only [openWithEntropy, opened]
      split
      · obtain ⟨u, appended⟩ := tryAppend_calm (P := postcard) (s := ⟨t, j⟩) 0
          (.sequence (randomStart finish)) (plain_made _ rfl)
        rw [appended]
        exact ⟨_, _, rfl⟩
      · exact ⟨_, _, rfl⟩
    obtain ⟨k, u, ends⟩ := ends
    have told := openWithEntropy_told (P := postcard) path (d := d) calm_noFailure.mild finish
    rw [ends] at told
    rcases told with ⟨stop, n, failed, -⟩ | ⟨j', same, sound, state⟩
    · cases failed
    · cases same
      refine ⟨k, u, ends, sound, ?_⟩
      obtain ⟨r, made⟩ := plain_made (.sequence (randomStart finish)) rfl
      unfold startEntries at state
      split at state
      · rw [recordable_made made] at state
        exact Or.inr ⟨_, state⟩
      · exact Or.inl state

/-- The journal is open and agrees with its file, and knows what was done with it. -/
def Standing (path : Path) (steps : List Step) (w : World) : Prop :=
  ∃ j, w.process = some j ∧ Sound postcard path ⟨w.disk, j⟩ ∧ Bare j.state ∧
    Knows steps j.state

/-- Opening brings a journal back that knows as much as the file did. -/
theorem standing_opened {path : Path} {steps : List Step} {d : Disk Path}
    (bare : Bare (replay postcard (d.read path)).1)
    (knows : Knows steps (replay postcard (d.read path)).1) (entropy : Option UInt64) :
    Standing path steps (World.next postcard path ⟨d, none⟩ (.reopen entropy calm)) := by
  obtain ⟨j, t, opened, sound, state⟩ := openWith_calm path d entropy
  have result : World.next postcard path ⟨d, none⟩ (.reopen entropy calm) = ⟨t, some j⟩ := by
    simp only [World.next, opened]
  rw [result]
  refine ⟨j, rfl, sound, ?_⟩
  rcases state with state | ⟨next, state⟩
  · rw [state]
    exact ⟨bare, knows⟩
  · rw [state]
    exact ⟨bare.apply rfl, knows⟩

/-- A fact about numbers recorded in a live process. -/
theorem operate_calm {path : Path} {w : World} {j : Journal} (alive : w.process = some j)
    (sound : Sound postcard path ⟨w.disk, j⟩) (bare : Bare j.state) (op : Op) (entry : Entry)
    {known : Bool} {update : State → State} (numbers : plain entry = true)
    (runs : op.run postcard calm ⟨w.disk, j⟩ =
      answering (fun _ => .unit) (recordUnless postcard calm known entry update) ⟨w.disk, j⟩)
    (same : known = false → update j.state = j.state.apply entry) :
    ∃ j', (w.next postcard path (.operate op calm)).process = some j' ∧
      Sound postcard path ⟨(w.next postcard path (.operate op calm)).disk, j'⟩ ∧
      Bare j'.state ∧ j'.state = if known then j.state else j.state.apply entry := by
  obtain ⟨t, ran, sound', state⟩ := recordUnless_calm sound (plain_made _ numbers) same
    (bare.apply numbers).writable
  have result : w.next postcard path (.operate op calm) = ⟨t.disk, some t.journal⟩ := by
    simp [World.next, alive, runs, answering, mapError, ran, World.left]
  rw [result]
  refine ⟨t.journal, rfl, sound', ?_, state⟩
  rw [state]
  cases known with
  | true => exact bare
  | false => exact bare.apply numbers

/-- Every step leaves the journal open, and knowing of the step too. -/
theorem standing_step {path : Path} {steps : List Step} {w : World}
    (standing : Standing path steps w) (step : Step) :
    Standing path (steps ++ [step]) (w.after postcard path step.events) := by
  obtain ⟨j, alive, sound, bare, knows⟩ := standing
  cases step with
  | enterEpoch epoch =>
    obtain ⟨j', alive', sound', bare', state⟩ := operate_calm alive sound bare
      (.enterEpoch epoch) (.epoch epoch) rfl rfl fun later => (apply_later_epoch later).symm
    refine ⟨j', alive', sound', bare', ?_⟩
    rw [state]
    exact knows.enter epoch
  | markSeen sender sequence =>
    obtain ⟨j', alive', sound', bare', state⟩ := operate_calm alive sound bare
      (.markSeen sender sequence) (.seen sender sequence) rfl rfl
      fun higher => (apply_higher_mark higher).symm
    refine ⟨j', alive', sound', bare', ?_⟩
    rw [state]
    exact knows.mark sender sequence
  | compact =>
    obtain ⟨t, ran, sound', state⟩ := compact_calm sound bare.writable
    have result : w.after postcard path Step.compact.events = ⟨t.disk, some t.journal⟩ := by
      simp [World.after, Step.events, World.next, alive, Op.run, mapError, ran, World.left]
    rw [result]
    refine ⟨t.journal, rfl, sound', ?_, ?_⟩
    · rw [state]
      exact bare
    · rw [state]
      exact knows.aside rfl (fun _ => rfl) rfl rfl
  | reopen entropy =>
    have file := agreeing_recovered (P := postcard) (w := w)
      (fun k same => by
        rw [alive] at same
        cases same
        exact sound) alive
    have known : Knows (steps ++ [.reopen entropy]) j.state :=
      knows.aside rfl (fun _ => rfl) rfl rfl
    refine standing_opened (d := w.disk) ?_ ?_ entropy
    · rw [show (replay postcard (w.disk.read path)).1 = j.state from file]
      exact bare
    · rw [show (replay postcard (w.disk.read path)).1 = j.state from file]
      exact known

theorem standing_life (path : Path) (disk : Disk Path) (fresh : disk.read path = [])
    (entropy : Option UInt64) (steps : List Step) :
    Standing path steps (life path disk entropy steps) := by
  induction steps using List.reverseRecOn with
  | nil =>
    have start : (replay postcard (disk.read path)).1 = State.initial := by
      rw [fresh]
      rfl
    refine standing_opened ?_ ?_ entropy
    · rw [start]
      exact ⟨rfl, rfl, rfl⟩
    · rw [start]
      exact knows_initial
  | append_singleton steps step ih =>
    have split : life path disk entropy (steps ++ [step]) =
        (life path disk entropy steps).after postcard path step.events := by
      simp only [life, World.after, List.flatMap_append, List.flatMap_singleton, List.foldl_cons,
        List.foldl_append]
    rw [split]
    exact standing_step ih step

/-- In every life of a journal whose calls succeed its epoch is the highest ever entered and
never goes down, and what it remembers of a sender is the highest mark made for it since an
epoch above all before it was last entered. -/
theorem epochs_and_marks (path : Path) (disk : Disk Path) (fresh : disk.read path = [])
    (entropy : Option UInt64) (steps : List Step) :
    ∃ j, (life path disk entropy steps).process = some j ∧
      Highest (entered steps) (epoch j) ∧
      (∀ more held, epoch j = some held →
        ∃ j' later, (life path disk entropy (steps ++ more)).process = some j' ∧
          epoch j' = some later ∧ held ≤ later) ∧
      (∃ since, Since steps since) ∧
      ∀ since, Since steps since → ∀ sender,
        Highest (marked sender since) (highestSeen j sender) := by
  obtain ⟨j, alive, -, -, highest, since, split, marks⟩ :=
    standing_life path disk fresh entropy steps
  refine ⟨j, alive, highest, ?_, ⟨since, split⟩, ?_⟩
  · intro more held known
    obtain ⟨j', alive', -, -, highest', -⟩ :=
      standing_life path disk fresh entropy (steps ++ more)
    rw [epoch] at known
    rw [known] at highest
    rw [entered_append] at highest'
    obtain ⟨later, known', above⟩ := highest.mono highest'
    exact ⟨j', later, alive', known', above⟩
  · intro other split' sender
    rw [← split.unique split']
    exact marks sender

/-- An epoch, a mark under it, a compaction and a reopening, and then a lower epoch, on a
journal under the very name of its own scratch file. -/
def stepsOfOne : List Step :=
  [.markSeen 1 9, .enterEpoch 3, .markSeen 1 5, .compact, .reopen none, .enterEpoch 2,
    .markSeen 1 4]

theorem epochs_and_marks_of_one :
    ∃ j, (life ⟨"member", some "compacting"⟩ Disk.empty none stepsOfOne).process = some j ∧
      epoch j = some 3 ∧ highestSeen j 1 = some 5 := by
  obtain ⟨j, alive, highest, -, -, marks⟩ :=
    epochs_and_marks ⟨"member", some "compacting"⟩ Disk.empty rfl none stepsOfOne
  have since : Since stepsOfOne (stepsOfOne.drop 2) :=
    @Since.raised [.markSeen 1 9] _ 3 (by simp [entered]) (by simp [entered])
  have mark := marks _ since 1
  refine ⟨j, alive, ?_, ?_⟩
  · exact highest.unique (.top (by simp [entered, stepsOfOne]) (by simp [entered, stepsOfOne]))
  · exact mark.unique (.top (by simp [marked, stepsOfOne]) (by simp [marked, stepsOfOne]))

end EpochMarks
