import Lcq.ByteFormat

/-!
# Files and their names

A name points at a file and a handle points at a file, not at a name: after a
rename the handle still writes where it always wrote. A handle writes at its
cursor, over what is there.
-/

namespace FileSystem

open ByteFormat

/-- The bytes of a file after a write at `cursor`; a gap before it reads as zeros. -/
def overwrite (content : Bytes) (cursor : Nat) (bytes : Bytes) : Bytes :=
  (content ++ List.replicate (cursor - content.length) 0).take cursor ++ bytes
    ++ content.drop (cursor + bytes.length)

@[simp] theorem overwrite_end (content bytes : Bytes) :
    overwrite content content.length bytes = content ++ bytes := by
  simp [overwrite]

/-- Every file has one name at most, and a number below `fresh` once it has one. -/
structure Disk (π : Type) where
  names : π → Option Nat
  content : Nat → Bytes
  fresh : Nat
  named_below : ∀ {p i}, names p = some i → i < fresh
  one_name : ∀ {p q i}, names p = some i → names q = some i → p = q

structure Handle where
  file : Nat
  cursor : Nat
  deriving DecidableEq

namespace Disk

variable {π : Type}

/-- A disk with nothing on it. -/
def empty : Disk π where
  names _ := none
  content _ := []
  fresh := 0
  named_below h := by cases h
  one_name h := by cases h

/-- What reading the name from its first byte gives. -/
def read (d : Disk π) (p : π) : Bytes :=
  match d.names p with
  | none => []
  | some i => d.content i

/-- Give a file other bytes. -/
def put (d : Disk π) (file : Nat) (bytes : Bytes) : Disk π :=
  { d with content := fun i => if i = file then bytes else d.content i }

def write (d : Disk π) (h : Handle) (bytes : Bytes) : Disk π :=
  d.put h.file (overwrite (d.content h.file) h.cursor bytes)

/-- Cut a file to `n` bytes, or fill it up with zeros. -/
def setLen (d : Disk π) (file n : Nat) : Disk π :=
  d.put file ((d.content file ++ List.replicate (n - (d.content file).length) 0).take n)

@[simp] theorem put_names (d : Disk π) (file : Nat) (bytes : Bytes) :
    (d.put file bytes).names = d.names := rfl

@[simp] theorem put_content_same (d : Disk π) (file : Nat) (bytes : Bytes) :
    (d.put file bytes).content file = bytes := by
  simp [put]

theorem put_content_other (d : Disk π) {file other : Nat} (bytes : Bytes) (apart : other ≠ file) :
    (d.put file bytes).content other = d.content other := by
  simp [put, apart]

@[simp] theorem write_names (d : Disk π) (h : Handle) (bytes : Bytes) :
    (d.write h bytes).names = d.names := rfl

@[simp] theorem setLen_names (d : Disk π) (file n : Nat) : (d.setLen file n).names = d.names := rfl

theorem setLen_content (d : Disk π) {file n : Nat} (short : n ≤ (d.content file).length) :
    (d.setLen file n).content file = (d.content file).take n := by
  simp [setLen, Nat.sub_eq_zero_of_le short]

variable [DecidableEq π]

/-- Make an empty file under the name if it names none. -/
def make (d : Disk π) (p : π) : Disk π :=
  match named : d.names p with
  | some _ => d
  | none =>
    { names := fun q => if q = p then some d.fresh else d.names q
      content := fun i => if i = d.fresh then [] else d.content i
      fresh := d.fresh + 1
      named_below := by
        intro q i h
        by_cases here : q = p
        · rw [if_pos here] at h
          cases h
          omega
        · rw [if_neg here] at h
          have := d.named_below h
          omega
      one_name := by
        intro q r i hq hr
        by_cases q_here : q = p <;> by_cases r_here : r = p
        · rw [q_here, r_here]
        · rw [if_pos q_here] at hq
          rw [if_neg r_here] at hr
          cases hq
          have := d.named_below hr
          omega
        · rw [if_neg q_here] at hq
          rw [if_pos r_here] at hr
          cases hr
          have := d.named_below hq
          omega
        · rw [if_neg q_here] at hq
          rw [if_neg r_here] at hr
          exact d.one_name hq hr }

/-- Point the second name at the first one's file; the first name is gone. -/
def rename (d : Disk π) (old new : π) : Disk π :=
  if old = new ∨ d.names old = none then d
  else
    { d with
      names := fun q => if q = new then d.names old else if q = old then none else d.names q
      named_below := by
        intro q i h
        split at h
        · exact d.named_below h
        · split at h
          · cases h
          · exact d.named_below h
      one_name := by
        intro q r i hq hr
        by_cases q_new : q = new <;> by_cases r_new : r = new <;>
          simp only [q_new, r_new, if_true, if_false] at hq hr
        · rw [q_new, r_new]
        · split at hr
          · cases hr
          · rename_i r_old
            exact absurd (d.one_name hr hq) r_old
        · split at hq
          · cases hq
          · rename_i q_old
            exact absurd (d.one_name hq hr) q_old
        · split at hq
          · cases hq
          · split at hr
            · cases hr
            · exact d.one_name hq hr }

theorem make_names_other (d : Disk π) {p q : π} (apart : q ≠ p) :
    (d.make p).names q = d.names q := by
  unfold make
  split
  · rfl
  · simp [apart]

/-- The name names a file afterwards: the one it named, or a new empty one. -/
theorem make_names (d : Disk π) (p : π) :
    ∃ i, (d.make p).names p = some i ∧ (d.make p).content i = d.read p ∧
      ∀ q j, q ≠ p → d.names q = some j → j ≠ i ∧ (d.make p).content j = d.content j := by
  unfold make
  split
  · rename_i i named
    refine ⟨i, named, by simp [read, named], ?_⟩
    intro q j apart hj
    refine ⟨?_, rfl⟩
    rintro rfl
    exact apart (d.one_name hj named)
  · rename_i named
    refine ⟨d.fresh, by simp, by simp [read, named], ?_⟩
    intro q j apart hj
    have below := d.named_below hj
    have other : j ≠ d.fresh := by omega
    exact ⟨other, if_neg other⟩

@[simp] theorem rename_content (d : Disk π) (old new : π) :
    (d.rename old new).content = d.content := by
  unfold rename
  split <;> rfl

theorem rename_names_new (d : Disk π) {old new : π} {i : Nat} (named : d.names old = some i) :
    (d.rename old new).names new = some i := by
  unfold rename
  by_cases same : old = new
  · rw [if_pos (Or.inl same), ← same, named]
  · rw [if_neg (by simp [same, named])]
    simpa using named

end Disk
end FileSystem
