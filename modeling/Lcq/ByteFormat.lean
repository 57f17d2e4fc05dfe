import Mathlib.Algebra.Order.Ring.Int
import Mathlib.Data.List.Basic

/-!
# Self-delimiting byte formats

A `Coder` writes a value as bytes, where it can, and reads one value off the
front of any bytes that start with what it wrote. The combinators build the
coder of a record or of a tagged union from those of its parts, so a round trip
is proved once for each combinator and never for a whole format.
-/

namespace ByteFormat

abbrev Bytes := List UInt8

/-- Reading undoes writing, whatever follows; reading leaves the rest alone. -/
structure Coder (α : Type) where
  write : α → Option Bytes
  read : Bytes → Option (α × Bytes)
  read_write : ∀ a w rest, write a = some w → read (w ++ rest) = some (a, rest)

/-! ## Bits -/

/-- A bit of two joined bytes is set in one of them. -/
theorem or_and (b i j : UInt8) : ((b ||| i) &&& j != 0) = ((b &&& j != 0) || (i &&& j != 0)) := by
  have spread : (b ||| i) &&& j = (b &&& j) ||| (i &&& j) := by
    apply UInt8.toBitVec_inj.mp
    simp [BitVec.and_or_distrib_right]
  rw [spread]
  apply Bool.eq_iff_iff.mpr
  simp only [bne_iff_ne, Bool.or_eq_true, ne_eq, UInt8.or_eq_zero_iff, not_and_or]

/-! ## Numbers -/

/-- Base 128, low group first, a set top bit on every byte but the last. -/
def writeGroups : Nat → Nat → Bytes
  | 0, _ => []
  | fuel + 1, n =>
    if n < 128 then [UInt8.ofNat n]
    else UInt8.ofNat (n % 128 + 128) :: writeGroups fuel (n / 128)

/-- At most `fuel` bytes are read; the last one allowed may not pass `top`. -/
def readGroups (top : Nat) : Nat → Bytes → Option (Nat × Bytes)
  | 0, _ => none
  | _ + 1, [] => none
  | fuel + 1, b :: rest =>
    if b.toNat < 128 then
      if fuel = 0 ∧ top < b.toNat then none else some (b.toNat, rest)
    else match readGroups top fuel rest with
      | none => none
      | some (high, rest) => some (b.toNat - 128 + 128 * high, rest)

theorem readGroups_writeGroups (top fuel n : Nat) (rest : Bytes)
    (enough : 0 < fuel) (small : n < (top + 1) * 128 ^ (fuel - 1)) (fits : top < 128) :
    readGroups top fuel (writeGroups fuel n ++ rest) = some (n, rest) := by
  induction fuel generalizing n with
  | zero => omega
  | succ fuel ih =>
    by_cases last : n < 128
    · have value : (UInt8.ofNat n).toNat = n := by
        rw [UInt8.toNat_ofNat']
        omega
      have low : ¬ (fuel = 0 ∧ top < n) := by
        rintro ⟨rfl, above⟩
        simp at small
        omega
      simp [writeGroups, readGroups, last, value, low]
    · have value : (UInt8.ofNat (n % 128 + 128)).toNat = n % 128 + 128 := by
        rw [UInt8.toNat_ofNat']
        omega
      have more : 0 < fuel := by
        by_contra none
        have empty : fuel = 0 := by omega
        subst empty
        simp at small
        omega
      have lower : n / 128 < (top + 1) * 128 ^ (fuel - 1) := by
        rw [Nat.div_lt_iff_lt_mul (by omega), Nat.mul_assoc, ← Nat.pow_succ]
        have shape : fuel - 1 + 1 = fuel := by omega
        simpa [shape] using small
      have high : ¬ n % 128 + 128 < 128 := by omega
      have tail := ih (n / 128) more lower
      simp only [writeGroups, if_neg last, List.cons_append, readGroups, value, if_neg high, tail]
      have whole : n % 128 + 128 - 128 + 128 * (n / 128) = n := by omega
      rw [whole]

theorem writeGroups_length_le (fuel n : Nat) : (writeGroups fuel n).length ≤ fuel := by
  induction fuel generalizing n with
  | zero => simp [writeGroups]
  | succ fuel ih =>
    simp only [writeGroups]
    split
    · simp
    · simpa using ih (n / 128)

/-- The low `width` bytes of a number, the most significant first. -/
def be : Nat → Nat → Bytes
  | 0, _ => []
  | width + 1, n => be width (n / 256) ++ [UInt8.ofNat n]

def ofBe (bytes : Bytes) : Nat := bytes.foldl (fun n b => 256 * n + b.toNat) 0

@[simp] theorem be_length (width n : Nat) : (be width n).length = width := by
  induction width generalizing n with
  | zero => rfl
  | succ width ih => simp [be, ih]

theorem ofBe_be (width n : Nat) (fits : n < 256 ^ width) : ofBe (be width n) = n := by
  induction width generalizing n with
  | zero =>
    rw [Nat.pow_zero] at fits
    simp only [be, ofBe, List.foldl_nil]
    omega
  | succ width ih =>
    have high : n / 256 < 256 ^ width := by
      rw [Nat.div_lt_iff_lt_mul (by omega), ← Nat.pow_succ]
      exact fits
    have front := ih (n / 256) high
    have low : (UInt8.ofNat n).toNat = n % 256 := UInt8.toNat_ofNat'
    simp only [ofBe] at front
    simp only [be, ofBe, List.foldl_append, front, List.foldl_cons, List.foldl_nil, low]
    omega

theorem be_injective {width n m : Nat} (fits : n < 256 ^ width) (fits' : m < 256 ^ width)
    (same : be width n = be width m) : n = m := by
  rw [← ofBe_be width n fits, ← ofBe_be width m fits', same]

namespace Coder

/-- Write nothing, read nothing. -/
def never {α : Type} : Coder α where
  write _ := none
  read _ := none
  read_write _ _ _ h := by cases h

/-- Write the fields of a value with another coder and build the value back from them. -/
def along {α β : Type} (c : Coder α) (fields : β → Option α) (build : α → Option β)
    (build_fields : ∀ b a, fields b = some a → build a = some b) : Coder β where
  write b := (fields b).bind c.write
  read bytes := (c.read bytes).bind fun r => (build r.1).map fun b => (b, r.2)
  read_write b w rest h := by
    obtain ⟨a, parts, written⟩ := Option.bind_eq_some_iff.mp h
    simp [c.read_write a w rest written, build_fields b a parts]

def pair {α β : Type} (c : Coder α) (d : Coder β) : Coder (α × β) where
  write p := (c.write p.1).bind fun v => (d.write p.2).map fun w => v ++ w
  read bytes := (c.read bytes).bind fun r => (d.read r.2).map fun q => ((r.1, q.1), q.2)
  read_write p w rest h := by
    obtain ⟨v, first, more⟩ := Option.bind_eq_some_iff.mp h
    obtain ⟨u, second, rfl⟩ := Option.map_eq_some_iff.mp more
    simp [List.append_assoc, c.read_write p.1 v _ first, d.read_write p.2 u _ second]

/-- One raw byte. -/
def byte : Coder UInt8 where
  write b := some [b]
  read
    | [] => none
    | b :: rest => some (b, rest)
  read_write _ _ _ h := by
    cases h
    rfl

def varint16 : Coder UInt16 where
  write n := some (writeGroups 3 n.toNat)
  read bytes := (readGroups 3 3 bytes).map fun r => (UInt16.ofNat r.1, r.2)
  read_write n w rest h := by
    cases h
    have small := n.toNat_lt
    rw [readGroups_writeGroups 3 3 n.toNat rest (by omega) (by omega) (by omega)]
    simp

def varint32 : Coder UInt32 where
  write n := some (writeGroups 5 n.toNat)
  read bytes := (readGroups 15 5 bytes).map fun r => (UInt32.ofNat r.1, r.2)
  read_write n w rest h := by
    cases h
    have small := n.toNat_lt
    rw [readGroups_writeGroups 15 5 n.toNat rest (by omega) (by omega) (by omega)]
    simp

def varint64 : Coder UInt64 where
  write n := some (writeGroups 10 n.toNat)
  read bytes := (readGroups 1 10 bytes).map fun r => (UInt64.ofNat r.1, r.2)
  read_write n w rest h := by
    cases h
    have small := n.toNat_lt
    rw [readGroups_writeGroups 1 10 n.toNat rest (by omega) (by omega) (by omega)]
    simp

/-- An optional value: a byte 0, or a byte 1 and the value. -/
def opt {α : Type} (c : Coder α) : Coder (Option α) where
  write
    | none => some [0]
    | some a => (c.write a).map fun w => 1 :: w
  read
    | 0 :: rest => some (none, rest)
    | 1 :: rest => (c.read rest).map fun r => (some r.1, r.2)
    | _ => none
  read_write a w rest h := by
    cases a with
    | none =>
      cases h
      rfl
    | some a =>
      obtain ⟨v, written, rfl⟩ := Option.map_eq_some_iff.mp h
      simp [c.read_write a v rest written]

/-- Exactly `n` bytes, no length in front. -/
def fixed (n : Nat) : Coder {bytes : Bytes // bytes.length = n} where
  write bytes := some bytes.1
  read bytes :=
    if enough : n ≤ bytes.length then
      some (⟨bytes.take n, by simp [enough]⟩, bytes.drop n)
    else none
  read_write bytes w rest h := by
    cases h
    obtain ⟨bytes, rfl⟩ := bytes
    simp

/-- A length, then that many bytes. -/
def lengthed : Coder Bytes where
  write bytes :=
    if bytes.length < 2 ^ 64 then
      (varint64.write (UInt64.ofNat bytes.length)).map fun w => w ++ bytes
    else none
  read bytes := (varint64.read bytes).bind fun r =>
    if r.1.toNat ≤ r.2.length then some (r.2.take r.1.toNat, r.2.drop r.1.toNat) else none
  read_write bytes w rest h := by
    split at h
    · rename_i short
      obtain ⟨v, written, rfl⟩ := Option.map_eq_some_iff.mp h
      have value : (UInt64.ofNat bytes.length).toNat = bytes.length :=
        UInt64.toNat_ofNat_of_lt' short
      simp [List.append_assoc, varint64.read_write _ v _ written, value]
    · cases h

/-- Text as its UTF-8 bytes, a length in front. -/
def text : Coder String :=
  lengthed.along (fun s => some s.toUTF8.data.toList)
    (fun bytes => String.fromUTF8? ⟨bytes.toArray⟩)
    (by
      rintro s _ ⟨⟩
      exact dif_pos s.isValidUTF8)

/-- A union: the number of the alternative, then the value as that alternative writes it. -/
def tagged {α : Type} (tag : α → UInt32) (arm : UInt32 → Coder α) : Coder α where
  write a := (varint32.write (tag a)).bind fun v => ((arm (tag a)).write a).map fun w => v ++ w
  read bytes := (varint32.read bytes).bind fun r => (arm r.1).read r.2
  read_write a w rest h := by
    obtain ⟨v, number, more⟩ := Option.bind_eq_some_iff.mp h
    obtain ⟨u, body, rfl⟩ := Option.map_eq_some_iff.mp more
    simp [List.append_assoc, varint32.read_write _ v _ number, (arm (tag a)).read_write a u rest body]

/-! ## Widths -/

/-- No value takes more than `n` bytes. -/
def Within {α : Type} (c : Coder α) (n : Nat) : Prop := ∀ a w, c.write a = some w → w.length ≤ n

theorem Within.along {α β : Type} {c : Coder α} {n : Nat} (within : c.Within n)
    (fields : β → Option α) (build : α → Option β)
    (build_fields : ∀ b a, fields b = some a → build a = some b) :
    (c.along fields build build_fields).Within n := by
  intro b w written
  obtain ⟨a, -, written⟩ := Option.bind_eq_some_iff.mp written
  exact within a w written

theorem Within.pair {α β : Type} {c : Coder α} {d : Coder β} {n m : Nat} (first : c.Within n)
    (second : d.Within m) : (c.pair d).Within (n + m) := by
  rintro ⟨a, b⟩ w written
  obtain ⟨v, front, more⟩ := Option.bind_eq_some_iff.mp written
  obtain ⟨u, back, rfl⟩ := Option.map_eq_some_iff.mp more
  have le := first a v front
  have le' := second b u back
  rw [List.length_append]
  omega

theorem byte_within : byte.Within 1 := by
  rintro b _ ⟨⟩
  exact Nat.le_refl 1

theorem varint16_within : varint16.Within 3 := by
  rintro n _ ⟨⟩
  exact writeGroups_length_le 3 n.toNat

theorem varint32_within : varint32.Within 5 := by
  rintro n _ ⟨⟩
  exact writeGroups_length_le 5 n.toNat

theorem varint64_within : varint64.Within 10 := by
  rintro n _ ⟨⟩
  exact writeGroups_length_le 10 n.toNat

theorem fixed_within (n : Nat) : (fixed n).Within n := by
  rintro bytes _ ⟨⟩
  exact Nat.le_of_eq bytes.2

end Coder
end ByteFormat
