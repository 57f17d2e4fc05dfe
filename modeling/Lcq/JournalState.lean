import Lcq.Contracts
import Lcq.OrderedMap

/-!
# What the journal knows, and the records that say it

The live state of a journal, the eight kinds of record, and the effect of each
on the state. A log means the fold of its records over the empty state, and
the records a compaction writes fold back to the very state they were made of.
-/

namespace JournalState

open ByteFormat Contracts OrderedMap

/-- Bytes waiting to go out, with the sequence number they were reserved under. -/
structure OutgoingFrame where
  bytes : Bytes
  sequence : UInt64
  expiresAt : Option Timestamp
  deriving DecidableEq

namespace OutgoingFrame

def new (bytes : Bytes) (sequence : UInt64) : OutgoingFrame :=
  ⟨bytes, sequence, none⟩

def expiringAt (f : OutgoingFrame) (deadline : Timestamp) : OutgoingFrame :=
  { f with expiresAt := some deadline }

end OutgoingFrame

/-- One durable fact. -/
inductive Entry where
  | vote (key : String) (sequence : UInt64) (bytes : Bytes) (expiresAt : Option UInt64)
  | sequence (next : UInt64)
  | seen (sender : UInt16) (sequence : UInt64)
  | epoch (epoch : UInt16)
  | retired (sequence : UInt64)
  | witnessed (author : String) (bytes : Bytes)
  | lock (key : String)
  | frame (sequence : UInt64) (bytes : Bytes) (expiresAt : Option UInt64)
  deriving DecidableEq

structure State where
  epoch : Option UInt16
  seen : Map UInt16 UInt64
  locks : Keys String
  pending : Map UInt64 OutgoingFrame
  nextSequence : UInt64
  witnessed : Map String Bytes

namespace State

def initial : State where
  epoch := none
  seen := ∅
  locks := ∅
  pending := ∅
  nextSequence := 0
  witnessed := ∅

def addFrame (s : State) (sequence : UInt64) (bytes : Bytes) (expiresAt : Option UInt64) :
    State :=
  let frame := OutgoingFrame.new bytes sequence
  let frame := match expiresAt with
    | none => frame
    | some secs => frame.expiringAt ⟨secs⟩
  { s with
    pending := s.pending.insert sequence frame
    nextSequence := max s.nextSequence (saturatingAdd sequence 1) }

def apply (s : State) : Entry → State
  | .vote key sequence bytes expiresAt =>
    { s with locks := s.locks.insert key }.addFrame sequence bytes expiresAt
  | .lock key => { s with locks := s.locks.insert key }
  | .frame sequence bytes expiresAt => s.addFrame sequence bytes expiresAt
  | .sequence next => { s with nextSequence := max s.nextSequence next }
  | .epoch epoch =>
    { s with
      -- a later epoch says nothing about marks made under an older one
      seen := if s.epoch.all fun held => decide (held < epoch) then ∅ else s.seen
      epoch := some (match s.epoch with
        | none => epoch
        | some held => max held epoch) }
  | .seen sender sequence =>
    { s with seen := s.seen.insert sender (max (s.seen[sender]?.getD 0) sequence) }
  | .retired sequence => { s with pending := s.pending.erase sequence }
  | .witnessed author bytes => { s with witnessed := s.witnessed.insertIfNew author bytes }

def applyAll (s : State) (es : List Entry) : State := es.foldl apply s

@[simp] theorem applyAll_nil (s : State) : s.applyAll [] = s := rfl

@[simp] theorem applyAll_cons (s : State) (e : Entry) (es : List Entry) :
    s.applyAll (e :: es) = (s.apply e).applyAll es := rfl

theorem applyAll_append (s : State) (es ds : List Entry) :
    s.applyAll (es ++ ds) = (s.applyAll es).applyAll ds := List.foldl_append

end State

/-- The record of a frame whose lock is recorded elsewhere. -/
def frameEntry (f : OutgoingFrame) : Entry :=
  .frame f.sequence f.bytes (f.expiresAt.map Timestamp.secs)

/-- The record of a lock and the frame it authorises. -/
def voteEntry (key : String) (f : OutgoingFrame) : Entry :=
  .vote key f.sequence f.bytes (f.expiresAt.map Timestamp.secs)

theorem vote_eq (key : String) (k : UInt64) (bytes : Bytes) (expiresAt : Option UInt64) :
    Entry.vote key k bytes expiresAt = voteEntry key ⟨bytes, k, expiresAt.map Timestamp.mk⟩ := by
  cases expiresAt <;> rfl

theorem frame_eq (k : UInt64) (bytes : Bytes) (expiresAt : Option UInt64) :
    Entry.frame k bytes expiresAt = frameEntry ⟨bytes, k, expiresAt.map Timestamp.mk⟩ := by
  cases expiresAt <;> rfl

theorem voteEntry_inj {key other : String} {f g : OutgoingFrame}
    (same : voteEntry key f = voteEntry other g) : key = other ∧ f = g := by
  obtain ⟨bytes, sequence, expiresAt⟩ := f
  obtain ⟨bytes', sequence', expiresAt'⟩ := g
  simp only [voteEntry, Entry.vote.injEq] at same
  obtain ⟨rfl, rfl, rfl, expiry⟩ := same
  have deadline : expiresAt = expiresAt' := by
    rcases expiresAt with _ | ⟨⟨secs⟩⟩ <;> rcases expiresAt' with _ | ⟨⟨secs'⟩⟩ <;> simp_all
  exact ⟨rfl, by rw [deadline]⟩

/-- The records compaction writes, in its order. -/
def State.snapshot (s : State) : List Entry :=
  [.sequence s.nextSequence]
    ++ (match s.epoch with
      | none => []
      | some epoch => [.epoch epoch])
    ++ s.seen.toList.map (fun p => .seen p.1 p.2)
    ++ s.locks.toList.map .lock
    ++ (values s.pending).map frameEntry
    ++ s.witnessed.toList.map (fun p => .witnessed p.1 p.2)

/-! ## The effect of a record -/

theorem apply_vote (s : State) (key : String) (f : OutgoingFrame) :
    s.apply (voteEntry key f) =
      { s with
        locks := s.locks.insert key
        pending := s.pending.insert f.sequence f
        nextSequence := max s.nextSequence (saturatingAdd f.sequence 1) } := by
  obtain ⟨bytes, sequence, expiresAt⟩ := f
  cases expiresAt <;> rfl

theorem apply_frame (s : State) (f : OutgoingFrame) :
    s.apply (frameEntry f) =
      { s with
        pending := s.pending.insert f.sequence f
        nextSequence := max s.nextSequence (saturatingAdd f.sequence 1) } := by
  obtain ⟨bytes, sequence, expiresAt⟩ := f
  cases expiresAt <;> rfl

theorem apply_reserved (s : State) :
    s.apply (.sequence (saturatingAdd s.nextSequence 1)) =
      { s with nextSequence := saturatingAdd s.nextSequence 1 } := by
  have forward : max s.nextSequence (saturatingAdd s.nextSequence 1) =
      saturatingAdd s.nextSequence 1 := by
    have below := s.nextSequence.toNat_lt
    have one : (1 : UInt64).toNat = 1 := rfl
    apply UInt64.toNat_inj.mp
    rw [max64_toNat, saturatingAdd_toNat]
    omega
  simp only [State.apply, forward]

theorem apply_witnessed {s : State} {author : String}
    (absent : s.witnessed.contains author = false) (bytes : Bytes) :
    s.apply (.witnessed author bytes) =
      { s with witnessed := s.witnessed.insert author bytes } := by
  have none : s.witnessed[author]? = none := (not_contains_iff _ _).mp absent
  have same : s.witnessed.insertIfNew author bytes = s.witnessed.insert author bytes := by
    apply get_ext
    intro a
    rw [get_insertIfNew, get_insert]
    simp only [none, and_true]
  simp only [State.apply, same]

/-- A later epoch clears the marks. -/
theorem apply_later_epoch {s : State} {epoch : UInt16}
    (later : s.epoch.any (fun held => decide (epoch ≤ held)) = false) :
    s.apply (.epoch epoch) = { s with seen := ∅, epoch := some epoch } := by
  cases h : s.epoch with
  | none => simp [State.apply, h]
  | some held =>
    have above : held < epoch := by
      rw [h] at later
      simpa [UInt16.not_le] using later
    have top : max held epoch = epoch := by
      have lt := UInt16.lt_iff_toNat_lt.mp above
      apply UInt16.toNat_inj.mp
      rw [max16_toNat]
      omega
    simp [State.apply, h, above, top]

/-- A higher mark replaces the one held. -/
theorem apply_higher_mark {s : State} {sender : UInt16} {sequence : UInt64}
    (higher : s.seen[sender]?.any (fun held => decide (sequence ≤ held)) = false) :
    s.apply (.seen sender sequence) = { s with seen := s.seen.insert sender sequence } := by
  have top : max (s.seen[sender]?.getD 0) sequence = sequence := by
    apply UInt64.toNat_inj.mp
    rw [max64_toNat]
    cases h : s.seen[sender]? with
    | none =>
      have zero : (0 : UInt64).toNat = 0 := rfl
      simp only [Option.getD_none]
      omega
    | some held =>
      rw [h] at higher
      have lt : held < sequence := by simpa [UInt64.not_le] using higher
      have lt := UInt64.lt_iff_toNat_lt.mp lt
      simp only [Option.getD_some]
      omega
  simp only [State.apply, top]

/-- No record gives the counter back. -/
theorem nextSequence_apply (s : State) (e : Entry) :
    s.nextSequence.toNat ≤ (s.apply e).nextSequence.toNat := by
  cases e <;> simp only [State.apply, State.addFrame, max64_toNat] <;> omega

/-- No record releases a lock. -/
theorem locks_apply (s : State) (e : Entry) {key : String} (held : key ∈ s.locks) :
    key ∈ (s.apply e).locks := by
  cases e <;> simp only [State.apply, State.addFrame, mem_insert_iff, held, or_true]

theorem nextSequence_applyAll (es : List Entry) (s : State) :
    s.nextSequence.toNat ≤ (s.applyAll es).nextSequence.toNat := by
  induction es generalizing s with
  | nil => exact Nat.le_refl _
  | cons e es ih => exact Nat.le_trans (nextSequence_apply s e) (ih (s.apply e))

theorem locks_applyAll (es : List Entry) (s : State) {key : String} (held : key ∈ s.locks) :
    key ∈ (s.applyAll es).locks := by
  induction es generalizing s with
  | nil => exact held
  | cons e es ih => exact ih (s.apply e) (locks_apply s e held)

/-! ## Pending frames are filed under their own numbers -/

/-- Every pending frame is under its own sequence, and the counter is past it. -/
def Filed (s : State) : Prop :=
  ∀ k f, s.pending[k]? = some f →
    f.sequence = k ∧ (saturatingAdd k 1).toNat ≤ s.nextSequence.toNat

theorem filed_initial : Filed State.initial := by
  intro k f found
  simp [State.initial] at found

theorem filed_insert {s : State} (filed : Filed s) (f : OutgoingFrame) :
    Filed { s with
      pending := s.pending.insert f.sequence f
      nextSequence := max s.nextSequence (saturatingAdd f.sequence 1) } := by
  intro k g found
  simp only [get_insert] at found
  simp only [max64_toNat]
  split at found
  · rename_i here
    cases found
    subst here
    exact ⟨rfl, by omega⟩
  · obtain ⟨own, past⟩ := filed k g found
    exact ⟨own, by omega⟩

theorem filed_apply {s : State} (filed : Filed s) (e : Entry) : Filed (s.apply e) := by
  cases e with
  | vote key sequence bytes expiresAt =>
    have locked : Filed { s with locks := s.locks.insert key } := filed
    cases expiresAt with
    | none => exact filed_insert locked ⟨bytes, sequence, none⟩
    | some secs => exact filed_insert locked ⟨bytes, sequence, some ⟨secs⟩⟩
  | frame sequence bytes expiresAt =>
    cases expiresAt with
    | none => exact filed_insert filed ⟨bytes, sequence, none⟩
    | some secs => exact filed_insert filed ⟨bytes, sequence, some ⟨secs⟩⟩
  | sequence next =>
    intro k f found
    obtain ⟨own, past⟩ := filed k f found
    refine ⟨own, ?_⟩
    simp only [State.apply, max64_toNat]
    omega
  | retired sequence =>
    intro k f found
    simp only [State.apply, get_erase] at found
    split at found
    · cases found
    · exact filed k f found
  | seen | epoch | witnessed | lock => exact filed

theorem filed_applyAll {s : State} (filed : Filed s) (es : List Entry) :
    Filed (s.applyAll es) := by
  induction es generalizing s with
  | nil => exact filed
  | cons e es ih => exact ih (filed_apply filed e)

/-! ## A snapshot folds back to its state -/

theorem applyAll_seen (s : State) (l : List (UInt16 × UInt64)) :
    s.applyAll (l.map fun p => .seen p.1 p.2) =
      { s with seen := l.foldl (fun m p => m.insert p.1 (max (m[p.1]?.getD 0) p.2)) s.seen } := by
  induction l generalizing s with
  | nil => rfl
  | cons p l ih => exact ih _

theorem applyAll_locks (s : State) (l : List String) :
    s.applyAll (l.map .lock) = { s with locks := l.foldl (fun t k => t.insert k) s.locks } := by
  induction l generalizing s with
  | nil => rfl
  | cons p l ih => exact ih _

theorem applyAll_witnessed (s : State) (l : List (String × Bytes)) :
    s.applyAll (l.map fun p => .witnessed p.1 p.2) =
      { s with witnessed := l.foldl (fun m p => m.insertIfNew p.1 p.2) s.witnessed } := by
  induction l generalizing s with
  | nil => rfl
  | cons p l ih => exact ih _

/-- Frames the counter is already past move nothing but the pending map. -/
theorem applyAll_frames (s : State) (l : List (UInt64 × OutgoingFrame))
    (filed : ∀ p ∈ l, p.2.sequence = p.1 ∧
      (saturatingAdd p.1 1).toNat ≤ s.nextSequence.toNat) :
    s.applyAll ((l.map Prod.snd).map frameEntry) =
      { s with pending := l.foldl (fun m p => m.insert p.1 p.2) s.pending } := by
  induction l generalizing s with
  | nil => rfl
  | cons p l ih =>
    obtain ⟨own, past⟩ := filed p List.mem_cons_self
    have counter : max s.nextSequence (saturatingAdd p.1 1) = s.nextSequence := by
      apply UInt64.toNat_inj.mp
      rw [max64_toNat]
      omega
    rw [List.map_cons, List.map_cons, State.applyAll_cons, apply_frame, own, counter]
    exact ih _ fun q mem => filed q (List.mem_cons_of_mem _ mem)

/-- Compaction forgets nothing and makes nothing up. -/
theorem applyAll_snapshot {s : State} (filed : Filed s) :
    State.initial.applyAll s.snapshot = s := by
  have counter : max (0 : UInt64) s.nextSequence = s.nextSequence := by
    apply UInt64.toNat_inj.mp
    rw [max64_toNat]
    exact Nat.max_eq_right (Nat.zero_le _)
  have started : (State.initial.apply (.sequence s.nextSequence)).applyAll
      (match s.epoch with
        | none => []
        | some epoch => [.epoch epoch]) =
      { State.initial with nextSequence := s.nextSequence, epoch := s.epoch } := by
    cases h : s.epoch <;> simp [State.apply, State.initial, counter]
  have marks : s.seen.toList.foldl (fun m p => m.insert p.1 (max (m[p.1]?.getD 0) p.2)) ∅ =
      s.seen := by
    refine foldl_toList (fun m k v => m.insert k (max (m[k]?.getD 0) v)) ?_ s.seen
    intro m k v absent
    have floor : max (0 : UInt64) v = v := by
      apply UInt64.toNat_inj.mp
      rw [max64_toNat]
      exact Nat.max_eq_right (Nat.zero_le _)
    simp only [absent, Option.getD_none, floor]
  have frames : s.pending.toList.foldl (fun m p => m.insert p.1 p.2) ∅ = s.pending :=
    foldl_toList (fun m k v => m.insert k v) (fun _ _ _ _ => rfl) s.pending
  have witnesses : s.witnessed.toList.foldl (fun m p => m.insertIfNew p.1 p.2) ∅ =
      s.witnessed := by
    refine foldl_toList (fun m k v => m.insertIfNew k v) ?_ s.witnessed
    intro m k v absent
    apply get_ext
    intro a
    rw [get_insertIfNew, get_insert]
    simp only [absent, and_true]
  have listed : ∀ p ∈ s.pending.toList, p.2.sequence = p.1 ∧
      (saturatingAdd p.1 1).toNat ≤ s.nextSequence.toNat := by
    intro p mem
    exact filed p.1 p.2 (Std.ExtTreeMap.mem_toList_iff_getElem?_eq_some.mp mem)
  simp only [State.snapshot, values, State.applyAll_append, State.applyAll_cons,
    State.applyAll_nil, started]
  rw [applyAll_seen, applyAll_locks, applyAll_frames, applyAll_witnessed]
  · simp only [State.initial, marks, frames, witnesses, foldl_insert_toList]
  · exact listed

end JournalState
