import Lcq.FailedAppends
import Lcq.VoteLocks

/-!
# Durability across failed writes

In one life of a journal some appends fail and the process goes on. What the
file replays to then covers the live state as long as nothing is appended
behind torn bytes and no record that a failed flush left in the file takes
back a fact of the live state.
-/

namespace DurableWrites

open ByteFormat Contracts CrashSafety FailedAppends FileSystem JournalOutcomes JournalRecords
  JournalRuns JournalState LogJournal OrderedMap Program VoteLocks

/-! ## One state covers another -/

/-- Every fact of the first state holds in the second. -/
structure Covers (live found : State) : Prop where
  locks : ∀ key ∈ live.locks, key ∈ found.locks
  pending : ∀ (k : UInt64) f, live.pending[k]? = some f → found.pending[k]? = some f
  counter : live.nextSequence.toNat ≤ found.nextSequence.toNat
  witnessed : ∀ (a : String) f, live.witnessed[a]? = some f → found.witnessed[a]? = some f
  epoch : ∀ e, live.epoch = some e → ∃ e', found.epoch = some e' ∧ e.toNat ≤ e'.toNat
  seen : ∀ (s : UInt16) n, live.seen[s]? = some n →
    ∃ m, found.seen[s]? = some m ∧ n.toNat ≤ m.toNat

theorem Covers.refl (s : State) : Covers s s where
  locks _ held := held
  pending _ _ h := h
  counter := Nat.le_refl _
  witnessed _ _ h := h
  epoch e h := ⟨e, h, Nat.le_refl _⟩
  seen _ n h := ⟨n, h, Nat.le_refl _⟩

theorem Covers.lock {live found : State} (covers : Covers live found) (key : String) :
    Covers { live with locks := live.locks.insert key }
      { found with locks := found.locks.insert key } where
  locks other held := by
    rw [mem_insert_iff] at held ⊢
    exact held.imp id (covers.locks other)
  pending := covers.pending
  counter := covers.counter
  witnessed := covers.witnessed
  epoch := covers.epoch
  seen := covers.seen

theorem Covers.file {live found : State} (covers : Covers live found) (f : OutgoingFrame) :
    Covers (live.apply (frameEntry f)) (found.apply (frameEntry f)) := by
  rw [apply_frame, apply_frame]
  constructor
  · exact covers.locks
  · intro k g h
    rw [get_insert] at h ⊢
    split
    · rename_i here
      rwa [if_pos here] at h
    · rename_i other
      rw [if_neg other] at h
      exact covers.pending k g h
  · have counter := covers.counter
    simp only [max64_toNat]
    omega
  · exact covers.witnessed
  · exact covers.epoch
  · exact covers.seen

/-- The file has no other witness for the author the entry is about. -/
def Lands (found : State) : Entry → Prop
  | .witnessed a f => found.witnessed[a]? = none ∨ found.witnessed[a]? = some f
  | _ => True

/-- Appended to both, an entry keeps the cover. -/
theorem covers_apply {live found : State} (covers : Covers live found) {e : Entry}
    (lands : Lands found e) : Covers (live.apply e) (found.apply e) := by
  cases e with
  | vote key k bytes expiresAt =>
    have filed := (covers.lock key).file ⟨bytes, k, expiresAt.map Timestamp.mk⟩
    rw [apply_frame, apply_frame] at filed
    rw [vote_eq, apply_vote, apply_vote]
    exact filed
  | frame k bytes expiresAt =>
    rw [frame_eq]
    exact covers.file _
  | lock key => exact covers.lock key
  | sequence next =>
    refine { covers with counter := ?_ }
    have counter := covers.counter
    simp only [State.apply, max64_toNat]
    omega
  | retired k =>
    refine { covers with pending := ?_ }
    intro k' f h
    simp only [State.apply, get_erase] at h ⊢
    split at h
    · cases h
    · rename_i other
      rw [if_neg other]
      exact covers.pending k' f h
  | seen sender sequence =>
    refine { covers with seen := ?_ }
    intro s n h
    simp only [State.apply, get_insert] at h ⊢
    split at h
    · rename_i here
      subst here
      cases h
      refine ⟨_, if_pos rfl, ?_⟩
      rw [max64_toNat, max64_toNat]
      cases held : live.seen[sender]? with
      | none =>
        have zero : (0 : UInt64).toNat = 0 := rfl
        simp only [Option.getD_none]
        omega
      | some n =>
        obtain ⟨m, found, le⟩ := covers.seen sender n held
        simp only [found, Option.getD_some]
        omega
    · rename_i other
      rw [if_neg other]
      exact covers.seen s n h
  | epoch epoch =>
    constructor
    · exact covers.locks
    · exact covers.pending
    · exact covers.counter
    · exact covers.witnessed
    · intro x h
      refine ⟨_, rfl, ?_⟩
      simp only [State.apply, Option.some.injEq] at h
      subst h
      cases held : live.epoch with
      | none =>
        cases found.epoch with
        | none => exact Nat.le_refl _
        | some r =>
          rw [max16_toNat]
          exact Nat.le_max_right _ _
      | some l =>
        obtain ⟨r, there, le⟩ := covers.epoch l held
        simp only [there, max16_toNat]
        omega
    · intro s n h
      simp only [State.apply] at h ⊢
      split at h
      · simp at h
      · rename_i later
        have still : ¬ found.epoch.all (fun held => decide (held < epoch)) = true := by
          intro all
          apply later
          cases held : live.epoch with
          | none => rfl
          | some l =>
            obtain ⟨r, there, le⟩ := covers.epoch l held
            rw [there] at all
            have lt : r < epoch := by simpa using all
            have lt := UInt16.lt_iff_toNat_lt.mp lt
            have below : l < epoch := UInt16.lt_iff_toNat_lt.mpr (by omega)
            simpa using below
        rw [if_neg still]
        exact covers.seen s n h
  | witnessed author bytes =>
    refine { covers with witnessed := ?_ }
    intro a f h
    simp only [State.apply, get_insertIfNew] at h ⊢
    by_cases here : author = a
    · subst here
      cases held : live.witnessed[author]? with
      | none =>
        simp only [held, and_self, if_true, Option.some.injEq] at h
        subst h
        rcases lands with absent | same
        · simp only [absent, and_self, if_true]
        · simp only [same, reduceCtorEq, and_false, if_false]
      | some g =>
        simp only [held, reduceCtorEq, and_false, if_false] at h
        have there := covers.witnessed author g held
        simp only [there, reduceCtorEq, and_false, if_false]
        exact h
    · rw [if_neg (fun both => here both.1)] at h ⊢
      exact covers.witnessed a f h

/-- A record the live state knows nothing of takes back none of its facts. -/
def Harmless (live found : State) : Entry → Prop
  | .retired k => live.pending[k]? = none
  | .vote _ k bytes expiresAt | .frame k bytes expiresAt =>
    live.pending[k]? = none ∨
      live.pending[k]? = some ⟨bytes, k, expiresAt.map Timestamp.mk⟩
  | .epoch e => live.seen = ∅ ∨ found.epoch.any (fun held => decide (e ≤ held)) = true
  | _ => True

/-- A frame filed where the live state has none, or has the same one. -/
theorem Covers.over {live found : State} (covers : Covers live found) (f : OutgoingFrame)
    (same : live.pending[f.sequence]? = none ∨ live.pending[f.sequence]? = some f) :
    Covers live (found.apply (frameEntry f)) := by
  have counter := Nat.le_trans covers.counter (nextSequence_apply found (frameEntry f))
  rw [apply_frame] at counter ⊢
  refine { covers with counter := counter, pending := ?_ }
  intro k g h
  rw [get_insert]
  split
  · rename_i here
    subst here
    rcases same with absent | same
    · rw [absent] at h
      cases h
    · rw [← h, same]
  · exact covers.pending k g h

theorem covers_harmless {live found : State} (covers : Covers live found) {e : Entry}
    (harmless : Harmless live found e) : Covers live (found.apply e) := by
  -- whatever else the entry does, locks and the counter only grow
  have locks : ∀ key ∈ live.locks, key ∈ (found.apply e).locks := fun key held =>
    locks_apply found e (covers.locks key held)
  have counter := Nat.le_trans covers.counter (nextSequence_apply found e)
  cases e with
  | vote key k bytes expiresAt =>
    have locked : Covers live { found with locks := found.locks.insert key } := by
      refine { covers with locks := ?_ }
      intro other held
      rw [mem_insert_iff]
      exact Or.inr (covers.locks other held)
    have filed := locked.over ⟨bytes, k, expiresAt.map Timestamp.mk⟩ harmless
    rw [apply_frame] at filed
    rw [vote_eq, apply_vote]
    exact filed
  | frame k bytes expiresAt =>
    rw [frame_eq]
    exact covers.over _ harmless
  | lock key => exact { covers with locks := locks }
  | sequence next => exact { covers with counter := counter }
  | retired k =>
    refine { covers with pending := ?_ }
    intro k' f h
    simp only [State.apply, get_erase]
    split
    · rename_i here
      subst here
      rw [harmless] at h
      cases h
    · exact covers.pending k' f h
  | seen sender sequence =>
    refine { covers with seen := ?_ }
    intro s n h
    obtain ⟨m, there, le⟩ := covers.seen s n h
    simp only [State.apply, get_insert]
    split
    · rename_i here
      subst here
      refine ⟨_, rfl, ?_⟩
      rw [max64_toNat, there]
      simp only [Option.getD_some]
      omega
    · exact ⟨m, there, le⟩
  | epoch epoch =>
    constructor
    · exact locks
    · exact covers.pending
    · exact counter
    · exact covers.witnessed
    · intro x h
      obtain ⟨r, there, le⟩ := covers.epoch x h
      refine ⟨_, rfl, ?_⟩
      simp only [there, max16_toNat]
      omega
    · intro s n h
      rcases harmless with none | still
      · simp [none] at h
      · have kept : ¬ found.epoch.all (fun held => decide (held < epoch)) = true := by
          intro all
          cases held : found.epoch with
          | none => simp [held] at still
          | some r =>
            rw [held] at all still
            have lt : r < epoch := by simpa using all
            have le : epoch ≤ r := by simpa using still
            exact UInt16.not_le.mpr lt le
        simp only [State.apply, if_neg kept]
        exact covers.seen s n h
  | witnessed author bytes =>
    refine { covers with witnessed := ?_ }
    intro a f h
    have there := covers.witnessed a f h
    simp only [State.apply, get_insertIfNew]
    split
    · rename_i here
      obtain ⟨rfl, absent⟩ := here
      rw [absent] at there
      cases there
    · exact there

/-! ## The appends of an operation -/

/-- An append about to be made: its number in the operation, its entry, and what is there. -/
structure Attempt where
  number : Nat
  entry : Entry
  before : Running

variable (P : Postcard) (env : Env)

/-- The appends of a sweep, each with what the ones before it have left. -/
def sweep : Nat → List UInt64 → Running → List Attempt
  | _, [], _ => []
  | i, sequence :: rest, s =>
    ⟨i, .retired sequence, s⟩ :: sweep (i + 1) rest (retire P env i sequence s).2

def attempts (s : Running) : Op → List Attempt
  | .dropExpired now => sweep P env 0 (expired s.journal.state now) s
  | op => (op.entries s.journal.state).map fun e => ⟨0, e, s⟩

/-- The write and the flush of an append both succeed. -/
def Accepts (i : Nat) : Prop := env (.write i) = .done ∧ env (.sync i) = .done

instance (i : Nat) : Decidable (Accepts env i) := inferInstanceAs (Decidable (_ ∧ _))

/-- The state the file would replay to. -/
def found (s : Running) : State := (replay P (bytes s)).1

/-- When an append does no harm. A record that is accepted must not land behind torn
bytes, nor beside another witness that a failed flush left, nor be the reservation of the
last number. One that is refused must not be wholly there and take back a live fact; behind
torn bytes it must spell nothing. -/
structure Careful (a : Attempt) : Prop where
  accepted : Accepts env a.number → Clean P (bytes a.before) ∧ Lands (found P a.before) a.entry ∧
    ∀ next, a.entry = .sequence next → a.before.journal.state.nextSequence.toNat < 2 ^ 64 - 1
  refused : ¬ Accepts env a.number → ∀ r, encode P a.entry = .ok r →
    (Clean P (bytes a.before) → (putDown env a.number r).length < r.length ∨
      Harmless a.before.journal.state (found P a.before) a.entry) ∧
    (¬ Clean P (bytes a.before) →
      (P.format.scan (tail P (bytes a.before) ++ putDown env a.number r)).1 = [])

/-- The entries an operation gets recorded. -/
def taken (s : Running) (op : Op) : List Entry :=
  ((attempts P env s op).filter fun a =>
    decide (Accepts env a.number) && (P.format.encode a.entry).isSome).map Attempt.entry

/-- Appends may fail in the operation; every other call succeeds. -/
def AppendsOnly : Prop :=
  ∀ c, env c = .done ∨ ∃ i n, (c = .write i ∨ c = .sync i) ∧ env c = .fails n

/-! ## What holds between the file and the live state -/

/-- The file covers the live state, and a frame it has beyond that is one of `refused`. -/
structure Holding (path : Path) (refused : OutgoingFrame → Prop) (s : Running) : Prop where
  onFile : OnFile path s
  filed : Filed s.journal.state
  covers : Covers s.journal.state (found P s)
  beyond : ∀ (k : UInt64) f, (found P s).pending[k]? = some f →
    s.journal.state.pending[k]? = some f ∨ refused f

variable {P env} {path : Path} {refused : OutgoingFrame → Prop}

theorem appendsOnly_alive (only : AppendsOnly env) {c : Call} {n : Nat} : env c ≠ .dies n := by
  intro dies
  rcases only c with done | ⟨i, m, -, fails⟩
  · rw [done] at dies
    cases dies
  · rw [fails] at dies
    cases dies

/-- Told to both, an entry keeps the frames beyond the live state among the refused. -/
theorem beyond_apply {live there : State}
    (beyond : ∀ (k : UInt64) f, there.pending[k]? = some f →
      live.pending[k]? = some f ∨ refused f) (e : Entry) (k : UInt64) (f : OutgoingFrame)
    (h : (there.apply e).pending[k]? = some f) :
    (live.apply e).pending[k]? = some f ∨ refused f := by
  by_cases leaves : Leaves k e
  · rw [pending_leaves _ _ leaves] at h ⊢
    exact beyond k f h
  · cases e with
    | vote key k' bytes expiresAt =>
      have here : k' = k := not_not.mp leaves
      rw [vote_eq, apply_vote] at h ⊢
      simp only [get_insert, if_pos here] at h ⊢
      exact Or.inl h
    | frame k' bytes expiresAt =>
      have here : k' = k := not_not.mp leaves
      rw [frame_eq, apply_frame] at h ⊢
      simp only [get_insert, if_pos here] at h ⊢
      exact Or.inl h
    | retired k' =>
      have here : k' = k := not_not.mp leaves
      simp only [State.apply, get_erase, if_pos here] at h
      cases h
    | _ => exact absurd trivial leaves

/-- The three ways an append of a live process ends. -/
theorem record_cases (only : AppendsOnly env) (s : Running) (i : Nat) (entry : Entry)
    (update : State → State) :
    (∃ r, encode P entry = .ok r ∧ Accepts env i ∧
        record P env i entry update s = (.ok (), ((s.put r).counted r.length).update update)) ∨
      (∃ error, encode P entry = .error error ∧
        record P env i entry update s = (.error (.failed .notDurable), s.failedWith error)) ∨
      ∃ r, encode P entry = .ok r ∧ ¬ Accepts env i ∧ record P env i entry update s =
        (.error (.failed .notDurable), (s.put (putDown env i r)).failedWith .os) := by
  have appended := append_appended P env i entry s
  simp only [record, bind_apply]
  generalize append P env i entry s = out at appended
  cases appended with
  | whole made written synced => exact Or.inl ⟨_, made, ⟨written, synced⟩, rfl⟩
  | unmade made => exact Or.inr (Or.inl ⟨_, made, rfl⟩)
  | @refused r n made fate =>
    refine Or.inr (Or.inr ⟨r, made, ?_, ?_⟩)
    · rintro ⟨written, synced⟩
      rcases fate with fails | ⟨-, ⟨m, fails⟩, -⟩
      · rw [written] at fails
        cases fails
      · rw [synced] at fails
        cases fails
    · have part : putDown env i r = r.take n := by
        rcases fate with fails | ⟨written, -, rfl⟩
        · simp only [putDown, fails]
        · simp only [putDown, written, List.take_length]
      rw [part]
      rfl
  | died made fate =>
    rcases fate with dies | ⟨-, ⟨m, dies⟩, -⟩
    · exact absurd dies (appendsOnly_alive only)
    · exact absurd dies (appendsOnly_alive only)

/-- What a careful append that is refused leaves readable: nothing, or a harmless entry. -/
theorem careful_spelled {a : Attempt} (careful : Careful P env a)
    (turned : ¬ Accepts env a.number) {r : Bytes} (made : encode P a.entry = .ok r) :
    let spelled := (P.format.scan (tail P (bytes a.before) ++ putDown env a.number r)).1
    spelled = [] ∨
      spelled = [a.entry] ∧ Harmless a.before.journal.state (found P a.before) a.entry := by
  intro spelled
  obtain ⟨whole, torn⟩ := careful.refused turned r made
  by_cases clean : Clean P (bytes a.before)
  · have part : ∃ k, putDown env a.number r = r.take k := by
      unfold putDown
      split
      · exact ⟨_, rfl⟩
      · exact ⟨r.length, List.take_length.symm⟩
    obtain ⟨k, part⟩ := part
    have scanned := P.format.scan_torn .nil ((encode_format P a.entry r).mp made) k
    have shape : spelled = if k < r.length then [] else [a.entry] := by
      simp only [spelled, tail_clean clean, part]
      rw [scanned]
      split <;> rfl
    split at shape
    · exact Or.inl shape
    · rename_i long
      refine Or.inr ⟨shape, (whole clean).resolve_left ?_⟩
      rw [part, List.length_take]
      omega
  · exact Or.inl (torn clean)

theorem record_holding {s : Running} (holding : Holding P path refused s)
    (only : AppendsOnly env) (i : Nat) (entry : Entry) (update : State → State)
    (careful : Careful P env ⟨i, entry, s⟩)
    (same : update s.journal.state = s.journal.state.apply entry)
    (keeps : ∀ f, ((∃ key, entry = voteEntry key f) ∨ entry = frameEntry f) →
      (record P env i entry update s).1 ≠ .ok () → refused f) :
    let out := record P env i entry update s
    Holding P path refused out.2 ∧
      ((out.1 = .ok () ∧ Accepts env i ∧ (P.format.encode entry).isSome ∧
          out.2.journal.state = s.journal.state.apply entry) ∨
        (out.1 = .error (.failed .notDurable) ∧
          ¬ (Accepts env i ∧ (P.format.encode entry).isSome) ∧
          out.2.journal.state = s.journal.state)) := by
  intro out
  obtain ⟨⟨named, attached⟩, filed, covers, beyond⟩ := holding
  rcases record_cases only s i entry update with
    ⟨r, made, accepts, ended⟩ | ⟨error, unmade, ended⟩ | ⟨r, made, turned, ended⟩
  · have framed := (encode_format P entry r).mp made
    obtain ⟨clean, lands, -⟩ := careful.accepted accepts
    have told : found P out.2 = (found P s).apply entry := by
      simp only [out, ended, found, update_bytes, counted_bytes]
      rw [put_bytes attached, replay_record P clean made]
    have state : out.2.journal.state = s.journal.state.apply entry := by
      simp only [out, ended]
      exact same
    refine ⟨⟨?_, ?_, ?_, ?_⟩, Or.inl ⟨?_, accepts, by rw [framed]; rfl, state⟩⟩
    · simp only [out, ended]
      exact ⟨named, put_attached attached r⟩
    · rw [state]
      exact filed_apply filed entry
    · rw [state, told]
      exact covers_apply covers lands
    · rw [state, told]
      exact beyond_apply beyond entry
    · simp only [out, ended]
  · refine ⟨?_, Or.inr ⟨?_, ?_, ?_⟩⟩
    · simp only [out, ended]
      exact ⟨⟨named, attached⟩, filed, covers, beyond⟩
    · simp only [out, ended]
    · have nothing := recordable_unmade unmade
      intro both
      simp [recordable, both.2] at nothing
    · simp only [out, ended]
      rfl
  · have told : found P out.2 = (found P s).applyAll
        (P.format.scan (tail P (bytes s) ++ putDown env i r)).1 := by
      simp only [out, ended, found, failedWith_bytes]
      rw [put_bytes attached, replay_behind]
    have state : out.2.journal.state = s.journal.state := by
      simp only [out, ended]
      rfl
    have answer : out.1 = .error (.failed .notDurable) := by simp only [out, ended]
    refine ⟨⟨?_, ?_, ?_, ?_⟩, Or.inr ⟨answer, fun both => turned both.1, state⟩⟩
    · simp only [out, ended]
      exact ⟨named, put_attached attached _⟩
    · rw [state]
      exact filed
    · rw [state, told]
      rcases careful_spelled careful turned made with nothing | ⟨one, harmless⟩
      · dsimp only at nothing
        rw [nothing]
        exact covers
      · dsimp only at one
        rw [one]
        exact covers_harmless covers harmless
    · rw [state, told]
      intro k f h
      rcases careful_spelled careful turned made with nothing | ⟨one, harmless⟩
      · dsimp only at nothing
        rw [nothing] at h
        exact beyond k f h
      · dsimp only at one
        rw [one] at h
        rcases pending_apply h with before | vote | frame
        · exact beyond k f before
        · exact Or.inr (keeps f (Or.inl vote) (by simp [ended]))
        · exact Or.inr (keeps f (Or.inr frame) (by simp [ended]))

theorem appendsOnly_renames (only : AppendsOnly env) : RenameHolds env := by
  intro c listed
  rcases only c with done | ⟨i, n, rfl | rfl, -⟩
  · rw [done]
    rfl
  · cases listed
  · cases listed

theorem appendsOnly_blame (only : AppendsOnly env) {ε : Type} (calls : Call → Bool) :
    ¬ Blame env calls (.died : Stop ε) := by
  rintro ⟨c, -, dies⟩
  cases fate : env c with
  | dies n => exact appendsOnly_alive only fate
  | done | fails => simp [fate, Fate.isDeath] at dies

theorem compact_lives (apart : path.extension ≠ some "compacting") (only : AppendsOnly env)
    {s : Running} (onFile : OnFile path s) : (compact P env s).1 ≠ .error .died := by
  obtain ⟨named, attached⟩ := onFile
  have compacted := compact_compacted P env s (named ▸ apart) attached.1
  generalize compact P env s = out at compacted
  cases compacted with
  | kept kept blame =>
    rintro ⟨⟩
    rcases blame with blame | ⟨lives, -⟩
    · exact appendsOnly_blame only _ blame
    · exact lives rfl
  | cut replaced blame handle =>
    rintro ⟨⟩
    exact appendsOnly_blame only _ blame
  | done replaced handle => nofun

/-- A compaction changes nothing live and leaves the file at least as good. -/
theorem compact_holding (apart : path.extension ≠ some "compacting") (only : AppendsOnly env)
    {s : Running} (holding : Holding P path refused s) :
    Holding P path refused (compact P env s).2 ∧ (compact P env s).1 ≠ .error .died ∧
      (compact P env s).2.journal.state = s.journal.state := by
  have holds := appendsOnly_renames only
  have lives : (compact P env s).1 ≠ .error .died := compact_lives apart only holding.onFile
  have onFile := compact_onFile apart holds s holding.onFile lives
  obtain ⟨state, file⟩ := compact_settled apart holds holding.onFile holding.filed lives
  refine ⟨⟨onFile, by rw [state]; exact holding.filed, ?_, ?_⟩, lives, state⟩
  · rw [state, found]
    rcases file with same | snapshot
    · rw [same]
      exact holding.covers
    · rw [snapshot]
      exact Covers.refl _
  · rw [state, found]
    rcases file with same | snapshot
    · rw [same]
      exact holding.beyond
    · rw [snapshot]
      exact fun k f h => Or.inl h

theorem compactIfLarge_holding (apart : path.extension ≠ some "compacting")
    (only : AppendsOnly env) {s : Running} (holding : Holding P path refused s) :
    Holding P path refused (compactIfLarge P env s).2 ∧ (compactIfLarge P env s).1 = .ok () ∧
      (compactIfLarge P env s).2.journal.state = s.journal.state := by
  simp only [compactIfLarge, bind_apply, read_apply, andThen_ok]
  split
  · exact ⟨holding, rfl, rfl⟩
  · obtain ⟨holding', lives, state⟩ := compact_holding (P := P) apart only holding
    simp only [bind_apply, caught]
    generalize compact P env s = out at holding' lives state
    obtain ⟨(e | _) | a, t⟩ := out
    · exact ⟨⟨holding'.onFile, holding'.filed, holding'.covers, holding'.beyond⟩, rfl, state⟩
    · exact absurd rfl lives
    · exact ⟨holding', rfl, state⟩

/-- What an entry tells if its append is accepted. -/
def tells (P : Postcard) (env : Env) (i : Nat) (entry : Entry) : List Entry :=
  if Accepts env i ∧ (P.format.encode entry).isSome then [entry] else []

/-- A program of a live process keeps the file covering the live state, which it changes by
the given entries. -/
def Steps {ε α : Type} (P : Postcard) (path : Path) (refused : OutgoingFrame → Prop)
    (s : Running) (es : List Entry) (out : Except (Stop ε) α × Running) : Prop :=
  Holding P path refused out.2 ∧ out.1 ≠ .error .died ∧
    out.2.journal.state = s.journal.state.applyAll es

section steps

variable {ε δ α β : Type} {s : Running} {es ds : List Entry}

theorem steps_nothing {out : Except (Stop ε) α} (holding : Holding P path refused s)
    (lives : out ≠ .error .died) : Steps P path refused s [] (out, s) := ⟨holding, lives, rfl⟩

theorem steps_andThen {out : Except (Stop ε) α × Running} {f : α → Prog Running ε β}
    (first : Steps P path refused s es out)
    (second : ∀ a t, out = (.ok a, t) → Holding P path refused t →
      Steps P path refused t ds (f a t))
    (failing : ∀ e t, out = (.error (.failed e), t) → ds = []) :
    Steps P path refused s (es ++ ds) (andThen out f) := by
  obtain ⟨(e | _) | a, t⟩ := out
  · rw [failing e t rfl, List.append_nil]
    exact ⟨first.1, by simp, first.2.2⟩
  · exact absurd rfl first.2.1
  · obtain ⟨holding, lives, state⟩ := second a t rfl first.1
    refine ⟨holding, lives, ?_⟩
    rw [State.applyAll_append, ← first.2.2]
    exact state

theorem steps_behind {out : Except (Stop ε) α × Running} {f : α → Prog Running ε β}
    (first : Steps P path refused s es out)
    (second : ∀ a t, out = (.ok a, t) → Holding P path refused t →
      Steps P path refused t [] (f a t)) :
    Steps P path refused s es (andThen out f) := by
  have all := steps_andThen first second fun _ _ _ => rfl
  rwa [List.append_nil] at all

theorem steps_caught {p : Prog Running ε α} (steps : Steps P path refused s es (p s)) :
    Steps P path refused s es ((caught p : Prog Running δ _) s) := by
  simp only [caught]
  generalize p s = out at steps
  obtain ⟨(e | _) | a, t⟩ := out
  · exact ⟨steps.1, by simp, steps.2.2⟩
  · exact absurd rfl steps.2.1
  · exact ⟨steps.1, by simp, steps.2.2⟩

theorem steps_mapError {p : Prog Running ε α} {f : ε → δ}
    (steps : Steps P path refused s es (p s)) : Steps P path refused s es (mapError f p s) := by
  simp only [mapError]
  generalize p s = out at steps
  obtain ⟨(e | _) | a, t⟩ := out
  · exact ⟨steps.1, by simp, steps.2.2⟩
  · exact absurd rfl steps.2.1
  · exact ⟨steps.1, by simp, steps.2.2⟩

theorem steps_answering {answer : α → Answer} {p : Prog Running JournalError α}
    (steps : Steps P path refused s es (p s)) :
    Steps P path refused s es (answering answer p s) :=
  steps_behind (steps_mapError steps) fun _ _ _ holding => steps_nothing holding (by simp)

end steps

theorem record_steps {s : Running} (holding : Holding P path refused s)
    (only : AppendsOnly env) {i : Nat} {entry : Entry} {update : State → State}
    (careful : Careful P env ⟨i, entry, s⟩)
    (same : update s.journal.state = s.journal.state.apply entry)
    (keeps : ∀ f, ((∃ key, entry = voteEntry key f) ∨ entry = frameEntry f) →
      (record P env i entry update s).1 ≠ .ok () → refused f) :
    Steps P path refused s (tells P env i entry) (record P env i entry update s) := by
  obtain ⟨holding', ended⟩ := record_holding holding only i entry update careful same keeps
  rcases ended with ⟨answer, accepts, made, state⟩ | ⟨answer, turned, state⟩
  · refine ⟨holding', by simp [answer], ?_⟩
    rw [tells, if_pos ⟨accepts, made⟩, state]
    rfl
  · refine ⟨holding', by simp [answer], ?_⟩
    rw [tells, if_neg turned, state]
    rfl

theorem compactIfLarge_steps (apart : path.extension ≠ some "compacting")
    (only : AppendsOnly env) {s : Running} (holding : Holding P path refused s) :
    Steps P path refused s [] (compactIfLarge P env s) := by
  obtain ⟨holding', answer, state⟩ := compactIfLarge_holding (P := P) apart only holding
  exact ⟨holding', by simp [answer], state⟩

/-- Record a fact that is no frame, then compact if the file has grown large. -/
theorem recorded_steps (apart : path.extension ≠ some "compacting") {s : Running}
    (holding : Holding P path refused s) (only : AppendsOnly env) {entry : Entry}
    {update : State → State} (careful : Careful P env ⟨0, entry, s⟩)
    (same : update s.journal.state = s.journal.state.apply entry)
    (noFrame : ∀ f, (∀ key, entry ≠ voteEntry key f) ∧ entry ≠ frameEntry f) :
    Steps P path refused s (tells P env 0 entry)
      (andThen (record P env 0 entry update s) fun _ => compactIfLarge P env) := by
  refine steps_behind (record_steps holding only careful same ?_)
    fun _ _ _ holding => compactIfLarge_steps apart only holding
  rintro f (⟨key, vote⟩ | frame)
  · exact absurd vote ((noFrame f).1 key)
  · exact absurd frame (noFrame f).2

theorem attempts_plain {s : Running} {op : Op} (single : ∀ now, op ≠ .dropExpired now) :
    attempts P env s op = (op.entries s.journal.state).map fun e => ⟨0, e, s⟩ := by
  cases op with
  | dropExpired now => exact absurd rfl (single now)
  | _ => rfl

theorem attempts_single {s : Running} {op : Op} (single : Single op) :
    attempts P env s op = (op.entries s.journal.state).map fun e => ⟨0, e, s⟩ := by
  apply attempts_plain
  rintro now rfl
  exact single

theorem taken_one {s : Running} {op : Op} (single : Single op) {entry : Entry}
    (telling : op.entries s.journal.state = [entry]) :
    taken P env s op = tells P env 0 entry := by
  rw [taken, attempts_single single, telling, tells]
  by_cases accepts : Accepts env 0 <;> by_cases made : (P.format.encode entry).isSome <;>
    simp [accepts, made]

theorem taken_none {s : Running} {op : Op} (single : Single op)
    (telling : op.entries s.journal.state = []) : taken P env s op = [] := by
  rw [taken, attempts_single single, telling]
  rfl

theorem retireAll_steps {s : Running} (holding : Holding P path refused s)
    (only : AppendsOnly env) (i : Nat) (sequences : List UInt64)
    (careful : ∀ a ∈ sweep P env i sequences s, Careful P env a) :
    Steps P path refused s
      (((sweep P env i sequences s).filter fun a =>
        decide (Accepts env a.number) && (P.format.encode a.entry).isSome).map Attempt.entry)
      (retireAll P env i sequences s) := by
  induction sequences generalizing i s with
  | nil => exact steps_nothing holding (by simp)
  | cons sequence sequences ih =>
    rw [sweep, List.forall_mem_cons] at careful
    have retired : Steps P path refused s (tells P env i (.retired sequence))
        (retire P env i sequence s) :=
      record_steps holding only careful.1 rfl (by rintro f (⟨key, vote⟩ | frame) <;> contradiction)
    have shape : ((sweep P env i (sequence :: sequences) s).filter fun a =>
          decide (Accepts env a.number) && (P.format.encode a.entry).isSome).map Attempt.entry =
        tells P env i (.retired sequence) ++
          ((sweep P env (i + 1) sequences (retire P env i sequence s).2).filter fun a =>
            decide (Accepts env a.number) && (P.format.encode a.entry).isSome).map
              Attempt.entry := by
      rw [sweep, tells]
      by_cases accepts : Accepts env i <;>
        by_cases made : (P.format.encode (.retired sequence)).isSome <;> simp [accepts, made]
    rw [shape]
    refine steps_andThen (steps_caught retired) ?_ ?_
    · intro answer t ended holding'
      have here : t = (retire P env i sequence s).2 := by
        simp only [caught] at ended
        split at ended
        · rename_i ran
          rw [ran]
          exact (congrArg Prod.snd ended).symm
        · rename_i ran
          rw [ran]
          exact (congrArg Prod.snd ended).symm
        · cases ended
      subst here
      exact ih holding' (i + 1) careful.2
    · intro e t failed
      exact absurd (congrArg Prod.fst failed) (caught_not_failed _ _ e)

/-- An operation that records a fact unless the live state has it already. -/
theorem unless_steps (apart : path.extension ≠ some "compacting") {s : Running}
    (holding : Holding P path refused s) (only : AppendsOnly env) {op : Op} {known : Bool}
    {entry : Entry} {update : State → State} (single : Single op)
    (telling : op.entries s.journal.state = if known then [] else [entry])
    (careful : ∀ a ∈ attempts P env s op, Careful P env a)
    (same : known = false → update s.journal.state = s.journal.state.apply entry)
    (noFrame : ∀ f, (∀ key, entry ≠ voteEntry key f) ∧ entry ≠ frameEntry f) :
    Steps P path refused s (taken P env s op)
      (answering (fun _ => Answer.unit) (recordUnless P env known entry update) s) := by
  apply steps_answering
  cases known with
  | true =>
    rw [taken_none single telling]
    exact steps_nothing holding (by simp)
  | false =>
    rw [attempts_single single, telling] at careful
    rw [taken_one single telling]
    exact recorded_steps apart holding only (careful _ List.mem_cons_self) (same rfl) noFrame

/-- Every operation of a live process steps by the entries it gets recorded. -/
theorem op_steps (apart : path.extension ≠ some "compacting") {s : Running}
    (holding : Holding P path refused s) (only : AppendsOnly env) (op : Op)
    (careful : ∀ a ∈ attempts P env s op, Careful P env a)
    (keeps : ∀ subject voter f, op = .commitVote subject voter f →
      (op.run P env s).1 = .error (.failed (.journal .notDurable)) → refused f) :
    Steps P path refused s (taken P env s op) (op.run P env s) := by
  have compacting {t : Running} (holding : Holding P path refused t) :
      Steps P path refused t [] (compactIfLarge P env t) :=
    compactIfLarge_steps apart only holding
  cases op with
  | commitVote subject voter frame =>
    have single : Single (.commitVote subject voter frame) := trivial
    by_cases held : lockKey subject voter ∈ s.journal.state.locks
    · rw [taken_none single (if_pos held), commit_held held]
      exact steps_nothing holding (by simp)
    · have telling : Op.entries s.journal.state (.commitVote subject voter frame) =
          [voteEntry (lockKey subject voter) frame] := if_neg held
      rw [attempts_single single, telling] at careful
      rw [taken_one single telling]
      apply steps_answering
      simp only [commitVote, bind_apply, read_apply, andThen_ok, if_neg held]
      refine steps_behind (record_steps holding only (careful _ List.mem_cons_self)
        (by rw [apply_vote]) ?_) fun _ _ _ holding => compacting holding
      rintro f vote turned
      have here : f = frame := by
        rcases vote with ⟨key, same⟩ | same
        · exact (voteEntry_inj same).2.symm
        · cases same
      subst here
      refine keeps subject voter f rfl ?_
      simp only [Op.run, answering, commitVote, mapError, bind_apply, read_apply, andThen_ok,
        if_neg held]
      rcases record_cases only s 0 (voteEntry (lockKey subject voter) f) (fun state =>
          { state with
            locks := state.locks.insert (lockKey subject voter)
            nextSequence := max state.nextSequence (saturatingAdd f.sequence 1)
            pending := state.pending.insert f.sequence f }) with
        ⟨_, _, _, ended⟩ | ⟨_, _, ended⟩ | ⟨_, _, _, ended⟩
      · exact absurd (congrArg Prod.fst ended) turned
      · rw [ended]
        rfl
      · rw [ended]
        rfl
  | reserveSequence =>
    have single : Single .reserveSequence := trivial
    rw [attempts_single single] at careful
    rw [taken_one single rfl]
    apply steps_answering
    simp only [reserveSequence, bind_apply, read_apply, andThen_ok]
    rw [andThen_bind]
    refine steps_behind (recorded_steps apart holding only (careful _ List.mem_cons_self)
      (by rw [apply_reserved]) (fun _ => ⟨by simp [voteEntry], by simp [frameEntry]⟩)) ?_
    exact fun _ _ _ holding => steps_nothing holding (by simp)
  | acknowledge sequence =>
    have single : Single (.acknowledge sequence) := trivial
    apply steps_answering
    simp only [acknowledge, bind_apply, read_apply, andThen_ok]
    cases held : s.journal.state.pending.contains sequence with
    | false =>
      rw [taken_none single (if_neg (by simp [held]))]
      exact steps_nothing holding (by simp)
    | true =>
      have telling : Op.entries s.journal.state (.acknowledge sequence) = [.retired sequence] :=
        if_pos held
      rw [attempts_single single, telling] at careful
      rw [taken_one single telling]
      simp only [Bool.true_eq_false, if_false, bind_apply]
      have retired : Steps P path refused s (tells P env 0 (.retired sequence))
          (retire P env 0 sequence s) :=
        record_steps holding only (careful _ List.mem_cons_self) rfl
          (by rintro f (⟨key, vote⟩ | frame) <;> contradiction)
      refine steps_behind (steps_caught retired) ?_
      intro answer t _ holding'
      cases answer with
      | error e => exact steps_nothing holding' (by simp)
      | ok =>
        exact steps_behind (compacting holding') fun _ _ _ holding =>
          steps_nothing holding (by simp)
  | dropExpired now =>
    apply steps_answering
    simp only [dropExpired, bind_apply, read_apply, andThen_ok]
    exact steps_behind (retireAll_steps holding only 0 _ careful)
      fun _ _ _ holding => compacting holding
  | witness author frame =>
    exact unless_steps apart holding only trivial rfl careful
      (fun absent => by rw [apply_witnessed absent])
        (fun _ => ⟨by simp [voteEntry], by simp [frameEntry]⟩)
  | enterEpoch epoch =>
    exact unless_steps apart holding only trivial rfl careful
      (fun later => by rw [apply_later_epoch later])
        (fun _ => ⟨by simp [voteEntry], by simp [frameEntry]⟩)
  | markSeen sender sequence =>
    exact unless_steps apart holding only trivial rfl careful
      (fun higher => by rw [apply_higher_mark higher])
        (fun _ => ⟨by simp [voteEntry], by simp [frameEntry]⟩)
  | compact =>
    have compacted := compact_holding (P := P) apart only holding
    have none : taken P env s .compact = [] := rfl
    rw [none]
    exact steps_behind (steps_mapError compacted) fun _ _ _ holding =>
      steps_nothing holding (by simp)

/-! ## A life of the journal -/

/-- The journal after some operations of one process. -/
def life (P : Postcard) (s : Running) (steps : List (Op × Env)) : Running :=
  steps.foldl (fun s step => (step.1.run P step.2 s).2) s

/-- Every append of every step is careful. -/
def AllCareful (P : Postcard) : Running → List (Op × Env) → Prop
  | _, [] => True
  | s, (op, env) :: rest =>
    (∀ a ∈ attempts P env s op, Careful P env a) ∧ AllCareful P (op.run P env s).2 rest

/-- The frames of the votes the journal refused to commit. -/
def refusedFrames (P : Postcard) : Running → List (Op × Env) → List OutgoingFrame
  | _, [] => []
  | s, (op, env) :: rest =>
    (match op, (op.run P env s).1 with
      | .commitVote _ _ f, .error (.failed (.journal .notDurable)) => [f]
      | _, _ => []) ++ refusedFrames P (op.run P env s).2 rest

theorem life_append (s : Running) (first second : List (Op × Env)) :
    life P s (first ++ second) = life P (life P s first) second := List.foldl_append

/-- What a run of steps keeps and how it moves the live state. -/
theorem life_steps (apart : path.extension ≠ some "compacting") {s : Running}
    {steps : List (Op × Env)} (holding : Holding P path refused s)
    (only : ∀ step ∈ steps, AppendsOnly step.2) (careful : AllCareful P s steps)
    (keeps : ∀ f ∈ refusedFrames P s steps, refused f) :
    Holding P path refused (life P s steps) ∧
      ∀ before op env after, steps = before ++ (op, env) :: after →
        let t := life P s before
        (∀ a ∈ attempts P env t op, Careful P env a) ∧
          Steps P path refused t (taken P env t op) (op.run P env t) ∧
          AllCareful P (op.run P env t).2 after ∧
          ∀ f ∈ refusedFrames P (op.run P env t).2 after, refused f := by
  induction steps generalizing s with
  | nil =>
    refine ⟨holding, ?_⟩
    intro before op env after split
    simp at split
  | cons step steps ih =>
    obtain ⟨op, env⟩ := step
    have here : Steps P path refused s (taken P env s op) (op.run P env s) := by
      refine op_steps apart holding (only _ List.mem_cons_self) op careful.1 ?_
      rintro subject voter f rfl answer
      refine keeps f ?_
      simp [refusedFrames, answer]
    obtain ⟨final, each⟩ := ih here.1 (fun step mem => only step (List.mem_cons_of_mem _ mem))
      careful.2 (fun f mem => keeps f (List.mem_append_right _ mem))
    refine ⟨final, ?_⟩
    intro before op' env' after split
    cases before with
    | nil =>
      cases split
      exact ⟨careful.1, here, careful.2, fun f mem => keeps f (List.mem_append_right _ mem)⟩
    | cons first before =>
      obtain ⟨rfl, rest⟩ := List.cons.inj split
      exact each before op' env' after rest

theorem sweep_entries (sequences : List UInt64) (i : Nat) (s : Running) :
    (sweep P env i sequences s).map Attempt.entry = sequences.map .retired := by
  induction sequences generalizing i s with
  | nil => rfl
  | cons sequence sequences ih => rw [sweep, List.map_cons, List.map_cons, ih]

theorem attempts_entries (s : Running) (op : Op) :
    (attempts P env s op).map Attempt.entry = op.entries s.journal.state := by
  have single (es : List Entry) :
      (es.map fun e => (⟨0, e, s⟩ : Attempt)).map Attempt.entry = es := by
    rw [List.map_map]
    exact List.map_id' _
  cases op with
  | dropExpired now => exact sweep_entries _ 0 s
  | _ => exact single _

theorem taken_entries {s : Running} {op : Op} {e : Entry} (mem : e ∈ taken P env s op) :
    e ∈ op.entries s.journal.state := by
  obtain ⟨a, kept, rfl⟩ := List.mem_map.mp mem
  have attempted := List.mem_map_of_mem (f := Attempt.entry) (List.mem_filter.mp kept).1
  rwa [attempts_entries] at attempted

/-- The live state gains what the steps get recorded. -/
theorem life_gains (apart : path.extension ≠ some "compacting") {s : Running}
    {steps : List (Op × Env)} (holding : Holding P path refused s)
    (only : ∀ step ∈ steps, AppendsOnly step.2) (careful : AllCareful P s steps)
    (keeps : ∀ f ∈ refusedFrames P s steps, refused f) :
    ∃ es, (life P s steps).journal.state = s.journal.state.applyAll es := by
  induction steps generalizing s with
  | nil => exact ⟨[], rfl⟩
  | cons step steps ih =>
    obtain ⟨op, env⟩ := step
    obtain ⟨-, (here : Steps P path refused s (taken P env s op) (op.run P env s)),
        careful', keeps'⟩ := (life_steps apart holding only careful keeps).2 [] op env steps rfl
    obtain ⟨es, state⟩ :=
      ih here.1 (fun step mem => only step (List.mem_cons_of_mem _ mem)) careful' keeps'
    refine ⟨taken P env s op ++ es, ?_⟩
    have first := here.2.2
    rw [State.applyAll_append, ← first]
    exact state

/-- A frame that no step retires or replaces stays pending. -/
theorem life_pending (apart : path.extension ≠ some "compacting") {s : Running}
    {steps : List (Op × Env)} (holding : Holding P path refused s)
    (only : ∀ step ∈ steps, AppendsOnly step.2) (careful : AllCareful P s steps)
    (keeps : ∀ f ∈ refusedFrames P s steps, refused f) {f : OutgoingFrame}
    (pending : s.journal.state.pending[f.sequence]? = some f)
    (spares : ∀ step ∈ steps, Spares f (.operate step.1 step.2)) :
    (life P s steps).journal.state.pending[f.sequence]? = some f := by
  induction steps generalizing s with
  | nil => exact pending
  | cons step steps ih =>
    obtain ⟨op, env⟩ := step
    obtain ⟨-, (here : Steps P path refused s (taken P env s op) (op.run P env s)),
        careful', keeps'⟩ := (life_steps apart holding only careful keeps).2 [] op env steps rfl
    refine ih here.1 (fun step mem => only step (List.mem_cons_of_mem _ mem)) careful' keeps' ?_
      (fun step mem => spares step (List.mem_cons_of_mem _ mem))
    have spared := spares (op, env) List.mem_cons_self
    have moved := here.2.2
    simp only [moved]
    rw [pending_leaves_all, pending]
    intro e mem
    rcases op_entries (taken_entries mem) with ⟨_, _, g, rfl, rfl⟩ | ⟨k, rfl, by_op⟩ | ⟨leaves, -⟩
    · exact spared
    · rcases by_op with rfl | ⟨now, rfl, swept⟩
      · exact spared
      · rintro rfl
        have old := expired_frame holding.filed pending swept
        rw [spared] at old
        cases old
    · exact leaves _

/-- An operation that returns `Ok` gets recorded all it set out to. -/
theorem op_ok_taken {s t : Running} {op : Op} {a : Answer} (ok : op.run P env s = (.ok a, t))
    (changed : a ≠ .flag false) (single : ∀ now, op ≠ .dropExpired now) :
    (∀ e ∈ op.entries s.journal.state, Accepts env 0) ∧
      taken P env s op = op.entries s.journal.state := by
  have grants : Grants P env fun e => Accepts env 0 ∧ (P.format.encode e).isSome = true := by
    intro entry update s t recorded
    obtain ⟨⟨r, made⟩, accepts⟩ := record_ok recorded
    rw [(encode_format P entry r).mp made]
    exact ⟨accepts, rfl⟩
  have all := op_ok grants ok changed single
  refine ⟨fun e mem => (all e mem).1, ?_⟩
  rw [taken, attempts_plain single, List.filter_eq_self.mpr, List.map_map]
  · exact List.map_id' _
  · intro a attempted
    obtain ⟨e, mem, rfl⟩ := List.mem_map.mp attempted
    simpa using all e mem

/-- Only a reservation answers a number, and it is the counter it found. -/
theorem number_reserved {s t : Running} {op : Op} {n : UInt64}
    (ok : op.run P env s = (.ok (.number n), t)) :
    op = .reserveSequence ∧ n = s.journal.state.nextSequence := by
  cases op with
  | reserveSequence =>
    obtain ⟨number, ran, same⟩ := answering_eq_ok ok
    cases same
    simp only [reserveSequence, bind_apply, read_apply, andThen_ok] at ran
    obtain ⟨_, _, -, compacted⟩ := andThen_eq_ok ran
    obtain ⟨_, _, -, last⟩ := andThen_eq_ok compacted
    cases last
    exact ⟨rfl, rfl⟩
  | compact =>
    obtain ⟨_, _, -, last⟩ := andThen_eq_ok ok
    cases last
  | _ =>
    obtain ⟨_, _, same⟩ := answering_eq_ok ok
    cases same

/-- In a life of a journal opened on any file, in which appends may fail in any way as long
as each of them is careful: the file covers the live state, and has beyond it no frame but
those of refused votes; every operation that returned `Ok` is in the live state with all it
set out to record; a number handed out is below the recovered counter; and a vote that was
committed has its lock recovered, and its frame too until it is retired or replaced. -/
theorem durable_writes (P : Postcard) (path : Path) (disk d : Disk Path) (opening : Env)
    (j : Journal) (steps : List (Op × Env)) (apart : path.extension ≠ some "compacting")
    (opened : openJournal P opening path disk = (.ok j, d))
    (only : ∀ step ∈ steps, AppendsOnly step.2) (careful : AllCareful P ⟨d, j⟩ steps) :
    let s := life P ⟨d, j⟩ steps
    let recovered := (replay P (s.disk.read path)).1
    Covers s.journal.state recovered ∧
    (∀ (k : UInt64) f, recovered.pending[k]? = some f →
      s.journal.state.pending[k]? = some f ∨ f ∈ refusedFrames P ⟨d, j⟩ steps) ∧
    (∀ before op env after a u, steps = before ++ (op, env) :: after →
      let t := life P ⟨d, j⟩ before
      op.run P env t = (.ok a, u) →
      (a ≠ .flag false → (∀ now, op ≠ .dropExpired now) →
        u.journal.state = t.journal.state.applyAll (op.entries t.journal.state)) ∧
      (∀ n, a = .number n → n.toNat < recovered.nextSequence.toNat) ∧
      (∀ subject voter f, op = .commitVote subject voter f →
        lockKey subject voter ∈ recovered.locks ∧
        ((∀ step ∈ after, Spares f (.operate step.1 step.2)) →
          recovered.pending[f.sequence]? = some f))) := by
  intro s recovered
  obtain ⟨sound, -, -⟩ := openJournal_sound opened
  have holding : Holding P path (· ∈ refusedFrames P ⟨d, j⟩ steps) ⟨d, j⟩ := by
    have same : found P ⟨d, j⟩ = j.state := sound.agree
    refine ⟨⟨sound.path, sound.attached⟩, sound.filed, ?_, ?_⟩
    · rw [same]
      exact Covers.refl _
    · rw [same]
      exact fun k f h => Or.inl h
  obtain ⟨final, each⟩ := life_steps apart holding only careful fun f mem => mem
  have here : found P s = recovered := by
    have named : s.journal.path = path := final.onFile.1
    simp only [found, bytes, named, recovered]
  refine ⟨here ▸ final.covers, here ▸ final.beyond, ?_⟩
  intro before op env after a u split t ran
  obtain ⟨attempted, moved, careful', keeps'⟩ := each before op env after split
  have state := moved.2.2
  rw [show op.run P env t = (.ok a, u) from ran] at moved state careful' keeps'
  have later : ∀ step ∈ after, AppendsOnly step.2 := by
    intro step mem
    refine only step ?_
    rw [split]
    exact List.mem_append_right _ (List.mem_cons_of_mem _ mem)
  have ending : s = life P u after := by
    simp only [s, split]
    rw [life_append]
    change life P (op.run P env t).2 after = _
    rw [ran]
  obtain ⟨es, gained⟩ := life_gains apart moved.1 later careful' keeps'
  rw [← ending] at gained
  have covers : Covers s.journal.state recovered := here ▸ final.covers
  have whole (changed : a ≠ .flag false) (single : ∀ now, op ≠ .dropExpired now) :
      u.journal.state = t.journal.state.applyAll (op.entries t.journal.state) := by
    rw [← (op_ok_taken ran changed single).2]
    exact state
  refine ⟨whole, ?_, ?_⟩
  · rintro n rfl
    obtain ⟨rfl, rfl⟩ := number_reserved ran
    have accepts := (op_ok_taken ran (by simp) (by simp)).1 _ List.mem_cons_self
    have below := ((attempted ⟨0, _, t⟩ List.mem_cons_self).accepted accepts).2.2 _ rfl
    have counter : u.journal.state.nextSequence = saturatingAdd t.journal.state.nextSequence 1 := by
      rw [whole (by simp) (by simp)]
      simp only [Op.entries, State.applyAll_cons, State.applyAll_nil, apply_reserved]
    have grown := nextSequence_applyAll es u.journal.state
    rw [← gained, counter, saturatingAdd_toNat] at grown
    have recovers := covers.counter
    have one : (1 : UInt64).toNat = 1 := rfl
    dsimp only at below
    omega
  · rintro subject voter f rfl
    have free : lockKey subject voter ∉ t.journal.state.locks := by
      intro held
      rw [commit_held held] at ran
      cases ran
    have answer : a = .unit := by
      obtain ⟨_, _, same⟩ := answering_eq_ok ran
      exact same
    have committed := whole (by simp [answer]) (by simp)
    rw [Op.entries, if_neg free, State.applyAll_cons, State.applyAll_nil, apply_vote] at committed
    constructor
    · refine covers.locks _ ?_
      rw [gained]
      exact locks_applyAll es _ (by simp [committed])
    · intro spares
      refine covers.pending _ f ?_
      rw [ending]
      exact life_pending apart moved.1 later careful' keeps' (by simp [committed]) spares

theorem appendsOnly_calm : AppendsOnly calm := fun _ => Or.inl rfl

theorem appendsOnly_sync (i n : Nat) : AppendsOnly (failingAt (.sync i) n) := by
  intro c
  by_cases here : c = .sync i
  · exact Or.inr ⟨i, n, Or.inr here, if_pos here⟩
  · exact Or.inl (if_neg here)

/-- With a counter that can grow, a reservation behind whole records is careful. -/
theorem reserve_careful {P : Postcard} {env : Env} {s : Running} (clean : Clean P (bytes s))
    (below : s.journal.state.nextSequence.toNat < 2 ^ 64 - 1) :
    ∀ a ∈ attempts P env s .reserveSequence, Careful P env a := by
  intro a mem
  have shape := List.mem_singleton.mp mem
  subst shape
  constructor
  · exact fun _ => ⟨clean, trivial, fun _ _ => below⟩
  · exact fun _ r _ => ⟨fun _ => Or.inr trivial, fun torn => absurd clean torn⟩

/-- The flush of a reservation fails and the next one succeeds: its number is recovered. -/
theorem durable_writes_unsynced :
    let path : Path := ⟨"member", some "journal"⟩
    let steps := [(Op.reserveSequence, failingAt (.sync 0) 0), (Op.reserveSequence, calm)]
    ∃ j d, openJournal postcard calm path Disk.empty = (.ok j, d) ∧
      0 < (replay postcard
        ((life postcard ⟨d, j⟩ steps).disk.read path)).1.nextSequence.toNat := by
  intro path steps
  let d := (openJournal postcard calm path Disk.empty).2
  let j : Journal := ⟨⟨0, 0⟩, path, .initial, 0, none⟩
  have ran : openJournal postcard calm path Disk.empty = (.ok j, d) := rfl
  let t := life postcard ⟨d, j⟩ [(Op.reserveSequence, failingAt (.sync 0) 0)]
  have careful : AllCareful postcard ⟨d, j⟩ steps :=
    ⟨reserve_careful (by decide) (by decide),
      reserve_careful (s := t) (by decide) (by decide), trivial⟩
  have laws := durable_writes postcard path Disk.empty d calm j steps (by decide) ran
    (by simp [steps, appendsOnly_calm, appendsOnly_sync]) careful
  have answer : (Op.run postcard calm .reserveSequence t).1 = .ok (.number 0) := by
    decide
  refine ⟨j, d, ran, ?_⟩
  exact (laws.2.2 [_] _ _ [] (.number 0) _ rfl (Prod.ext answer rfl)).2.1 0 rfl

/-- The write of a reservation fails behind its fourth byte. The next reservation answers
0, and so does the first one of the next life. -/
theorem durable_writes_torn :
    let path : Path := ⟨"member", some "journal"⟩
    let w := World.after postcard path ⟨Disk.empty, none⟩ [.reopen none calm]
    let v := w.next postcard path (.operate .reserveSequence (failingAt (.write 0) 4))
    let u := v.next postcard path (.operate .reserveSequence calm)
    let again := World.after postcard path u [.crash, .reopen none calm]
    w.answer postcard (.operate .reserveSequence (failingAt (.write 0) 4)) =
        some (.error (.journal .notDurable)) ∧
      v.answer postcard (.operate .reserveSequence calm) = some (.ok (.number 0)) ∧
      (u.recovered postcard path).nextSequence = 0 ∧
      again.answer postcard (.operate .reserveSequence calm) = some (.ok (.number 0)) := by
  decide

end DurableWrites
