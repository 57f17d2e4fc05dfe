import Lcq.ByteFormat

/-!
# A log of checksummed records

A record is its payload's length in four little-endian bytes, the payload, and
the payload's checksum in four more. `scan` reads whole records off the front
of a file and stops at the first thing that is not one. What it read is a
prefix of the file, and a record of which any byte is missing is not read at
all; these two facts are what recovery from a torn write rests on.

The library is about any entry type, payload format and checksum.
-/

namespace RecordLog

open ByteFormat

structure Format (ε : Type) where
  payload : ε → Option Bytes
  entry : Bytes → Option ε
  checksum : Bytes → UInt32
  limit : Nat
  entry_payload : ∀ e p, payload e = some p → entry p = some e
  limit_fits : limit < 2 ^ 32

/-! ## Four little-endian bytes -/

def le32 (n : Nat) : Bytes :=
  [UInt8.ofNat n, UInt8.ofNat (n / 256), UInt8.ofNat (n / 65536), UInt8.ofNat (n / 16777216)]

/-- The number in the first four bytes, absent bytes counting as zero. -/
def ofLe32 (bytes : Bytes) : Nat :=
  (bytes.getD 0 0).toNat + 256 * (bytes.getD 1 0).toNat
    + 65536 * (bytes.getD 2 0).toNat + 16777216 * (bytes.getD 3 0).toNat

@[simp] theorem le32_length (n : Nat) : (le32 n).length = 4 := rfl

theorem ofLe32_le32 (n : Nat) (fits : n < 2 ^ 32) (rest : Bytes) :
    ofLe32 (le32 n ++ rest) = n := by
  simp only [ofLe32, le32, List.cons_append, List.nil_append, List.getD_cons_zero,
    List.getD_cons_succ, UInt8.toNat_ofNat']
  omega

theorem ofLe32_append (bytes rest : Bytes) (long : 4 ≤ bytes.length) :
    ofLe32 (bytes ++ rest) = ofLe32 bytes := by
  have same (i : Nat) (hi : i < 4) : (bytes ++ rest).getD i 0 = bytes.getD i 0 := by
    simp only [List.getD_eq_getElem?_getD]
    rw [List.getElem?_append_left (by omega)]
  simp only [ofLe32, same 0 (by omega), same 1 (by omega), same 2 (by omega), same 3 (by omega)]

variable {ε : Type} (F : Format ε)

/-! ## One record -/

/-- Frame one entry; `none` if it does not serialise or is too long to read back. -/
def Format.encode (e : ε) : Option Bytes :=
  (F.payload e).bind fun p =>
    if p.length ≤ F.limit then
      some (le32 p.length ++ p ++ le32 (F.checksum p).toNat)
    else none

/-- The whole record at the front of `bytes`, with its size, if there is one. -/
def Format.head (bytes : Bytes) : Option (ε × Nat) :=
  let length := ofLe32 bytes
  let payload := (bytes.drop 4).take length
  if bytes.length < 4 ∨ F.limit < length ∨ bytes.length < length + 8 then none
  else if ofLe32 (bytes.drop (length + 4)) ≠ (F.checksum payload).toNat then none
  else (F.entry payload).map fun e => (e, length + 8)

theorem Format.head_size {bytes : Bytes} {e : ε} {n : Nat} (h : F.head bytes = some (e, n)) :
    n = ofLe32 bytes + 8 ∧ n ≤ bytes.length := by
  simp only [Format.head] at h
  split at h
  · contradiction
  · rename_i fits
    split at h
    · contradiction
    · obtain ⟨_, _, same⟩ := Option.map_eq_some_iff.mp h
      have size := congrArg Prod.snd same
      dsimp only at size
      omega

/-- Only the record's own bytes are looked at. -/
theorem Format.head_take (bytes : Bytes) {m : Nat} (room : ofLe32 bytes + 8 ≤ m)
    (le : m ≤ bytes.length) : F.head (bytes.take m) = F.head bytes := by
  have long : (bytes.take m).length = m := by rw [List.length_take]; omega
  have length : ofLe32 (bytes.take m) = ofLe32 bytes := by
    have whole := ofLe32_append (bytes.take m) (bytes.drop m) (by omega)
    rwa [List.take_append_drop, eq_comm] at whole
  have payload : ((bytes.take m).drop 4).take (ofLe32 bytes) =
      (bytes.drop 4).take (ofLe32 bytes) := by
    rw [List.drop_take, List.take_take, Nat.min_eq_left (by omega)]
  have stored : ofLe32 ((bytes.take m).drop (ofLe32 bytes + 4)) =
      ofLe32 (bytes.drop (ofLe32 bytes + 4)) := by
    have tail := ofLe32_append ((bytes.take m).drop (ofLe32 bytes + 4)) (bytes.drop m)
      (by rw [List.length_drop]; omega)
    rw [← List.drop_append_of_le_length (by omega), List.take_append_drop] at tail
    exact tail.symm
  simp only [Format.head, length, payload, stored, long]
  have same : (m < 4 ∨ F.limit < ofLe32 bytes ∨ m < ofLe32 bytes + 8) ↔
      (bytes.length < 4 ∨ F.limit < ofLe32 bytes ∨ bytes.length < ofLe32 bytes + 8) := by
    omega
  simp only [same]

/-- A record is judged by its own bytes: what follows it changes nothing. -/
theorem Format.head_append {bytes : Bytes} {e : ε} {n : Nat} (h : F.head bytes = some (e, n))
    (rest : Bytes) : F.head (bytes ++ rest) = some (e, n) := by
  obtain ⟨size, fits⟩ := F.head_size h
  have length := ofLe32_append bytes rest (by omega)
  have own := F.head_take (bytes ++ rest) (m := bytes.length) (by omega)
    (by rw [List.length_append]; omega)
  rw [List.take_left' rfl, h] at own
  exact own.symm

/-- An encoded entry reads back as itself and takes up exactly its own bytes. -/
theorem Format.head_encode {e : ε} {r : Bytes} (h : F.encode e = some r) :
    F.head r = some (e, r.length) := by
  obtain ⟨p, hp, framed⟩ := Option.bind_eq_some_iff.mp h
  split at framed
  · rename_i small
    cases Option.some.inj framed
    have fits := F.limit_fits
    have length : ofLe32 (le32 p.length ++ p ++ le32 (F.checksum p).toNat) = p.length := by
      rw [List.append_assoc]
      exact ofLe32_le32 p.length (by omega) _
    have body : ((le32 p.length ++ p ++ le32 (F.checksum p).toNat).drop 4).take p.length = p := by
      rw [List.append_assoc, List.drop_left' (by simp), List.take_left' rfl]
    have stored : ofLe32 ((le32 p.length ++ p ++ le32 (F.checksum p).toNat).drop (p.length + 4)) =
        (F.checksum p).toNat := by
      have value := ofLe32_le32 (F.checksum p).toNat (F.checksum p).toNat_lt []
      rw [List.append_nil] at value
      rw [List.drop_left' (by simp; omega), value]
    simp only [Format.head, length, body, stored]
    rw [if_neg (by simp; omega), if_neg (by simp), F.entry_payload e p hp]
    simp only [Option.map_some, Option.some.injEq, Prod.mk.injEq, true_and]
    simp
    omega
  · contradiction

theorem Format.encode_length {e : ε} {r : Bytes} (h : F.encode e = some r) : 8 ≤ r.length := by
  have size := (F.head_size (F.head_encode h)).1
  omega

/-- However many bytes of a record are there, short of all of them it is not a record. -/
theorem Format.head_torn {e : ε} {r : Bytes} (h : F.encode e = some r) {k : Nat}
    (short : k < r.length) : F.head (r.take k) = none := by
  obtain ⟨p, hp, framed⟩ := Option.bind_eq_some_iff.mp h
  split at framed
  · rename_i small
    cases Option.some.inj framed
    have fits := F.limit_fits
    simp only [List.length_append, le32_length] at short
    simp only [Format.head]
    by_cases header : k < 4
    · rw [if_pos (Or.inl (by rw [List.length_take]; omega))]
    · have length : ofLe32 ((le32 p.length ++ p ++ le32 (F.checksum p).toNat).take k) =
          p.length := by
        have split : (le32 p.length ++ p ++ le32 (F.checksum p).toNat).take k =
            le32 p.length ++ (p ++ le32 (F.checksum p).toNat).take (k - 4) := by
          rw [List.append_assoc, List.take_append, List.take_of_length_le (by simp; omega)]
          simp
        rw [split, ofLe32_le32 p.length (by omega)]
      rw [length, if_pos (Or.inr (Or.inr (by rw [List.length_take]; omega)))]
  · contradiction

@[simp] theorem Format.head_nil : F.head [] = none := by
  simp [Format.head]

/-! ## A file of records -/

/-- A file that is nothing but whole records, and the entries they hold. -/
inductive Format.Whole : Bytes → List ε → Prop
  | nil : Format.Whole [] []
  | cons {r rest : Bytes} {e : ε} {es : List ε} (head : F.head r = some (e, r.length))
      (tail : Format.Whole rest es) : Format.Whole (r ++ rest) (e :: es)

theorem Format.Whole.single {e : ε} {r : Bytes} (h : F.encode e = some r) : F.Whole r [e] := by
  have one := Format.Whole.cons (F.head_encode h) Format.Whole.nil
  rwa [List.append_nil] at one

variable {F}

theorem Format.Whole.append {a b : Bytes} {es ds : List ε} (ha : F.Whole a es)
    (hb : F.Whole b ds) : F.Whole (a ++ b) (es ++ ds) := by
  induction ha with
  | nil => exact hb
  | cons head tail ih =>
    rw [List.append_assoc]
    exact Format.Whole.cons head ih

variable (F)

/-- The records of a list of entries, one after the other, if every one can be framed. -/
def Format.encodeAll : List ε → Option Bytes
  | [] => some []
  | e :: es => (F.encode e).bind fun r => (Format.encodeAll es).map fun w => r ++ w

theorem Format.Whole.encoded {es : List ε} {w : Bytes} (h : F.encodeAll es = some w) :
    F.Whole w es := by
  induction es generalizing w with
  | nil =>
    cases h
    exact Format.Whole.nil
  | cons e es ih =>
    obtain ⟨r, one, more⟩ := Option.bind_eq_some_iff.mp h
    obtain ⟨v, rest, rfl⟩ := Option.map_eq_some_iff.mp more
    exact (Format.Whole.single F one).append (ih rest)

/-- Read whole records until something is not one: the entries, and the bytes they took. -/
def Format.scanFor : Nat → Bytes → List ε × Nat
  | 0, _ => ([], 0)
  | fuel + 1, bytes =>
    match F.head bytes with
    | none => ([], 0)
    | some (e, n) =>
      let rest := Format.scanFor fuel (bytes.drop n)
      (e :: rest.1, n + rest.2)

/-- Every record takes at least eight bytes, so the length is fuel enough. -/
def Format.scan (bytes : Bytes) : List ε × Nat := F.scanFor bytes.length bytes

theorem Format.scanFor_fuel (fuel : Nat) (bytes : Bytes) (enough : bytes.length ≤ fuel) :
    F.scanFor fuel bytes = F.scan bytes := by
  have agree : ∀ (a b : Nat) (bytes : Bytes), bytes.length ≤ a → bytes.length ≤ b →
      F.scanFor a bytes = F.scanFor b bytes := by
    intro a
    induction a with
    | zero =>
      intro b bytes ha _
      have empty : bytes = [] := List.length_eq_zero_iff.mp (by omega)
      subst empty
      cases b <;> simp [Format.scanFor]
    | succ a ih =>
      intro b bytes ha hb
      cases b with
      | zero =>
        have empty : bytes = [] := List.length_eq_zero_iff.mp (by omega)
        subst empty
        simp [Format.scanFor]
      | succ b =>
        simp only [Format.scanFor]
        cases h : F.head bytes with
        | none => rfl
        | some found =>
          obtain ⟨e, n⟩ := found
          obtain ⟨size, room⟩ := F.head_size h
          have rest := ih b (bytes.drop n) (by rw [List.length_drop]; omega)
            (by rw [List.length_drop]; omega)
          simp only [rest]
  exact agree fuel bytes.length bytes enough (Nat.le_refl _)

theorem Format.scan_of_head {bytes : Bytes} {e : ε} {n : Nat} (h : F.head bytes = some (e, n)) :
    F.scan bytes = (e :: (F.scan (bytes.drop n)).1, n + (F.scan (bytes.drop n)).2) := by
  obtain ⟨size, room⟩ := F.head_size h
  rw [← F.scanFor_fuel (bytes.length + 1) bytes (by omega)]
  simp only [Format.scanFor, h]
  rw [F.scanFor_fuel bytes.length (bytes.drop n) (by rw [List.length_drop]; omega)]

theorem Format.scan_of_stop {bytes : Bytes} (stop : F.head bytes = none) :
    F.scan bytes = ([], 0) := by
  rw [← F.scanFor_fuel (bytes.length + 1) bytes (by omega)]
  simp only [Format.scanFor, stop]

/-- Whole records are read to the last one, and reading goes on behind them. -/
theorem Format.scan_append {w : Bytes} {es : List ε} (whole : F.Whole w es) (b : Bytes) :
    F.scan (w ++ b) = (es ++ (F.scan b).1, w.length + (F.scan b).2) := by
  induction whole with
  | nil => simp
  | cons head tail ih =>
    rename_i r rest e es
    have here := F.head_append head (rest ++ b)
    rw [List.append_assoc, F.scan_of_head here, List.drop_left' rfl, ih]
    simp [Nat.add_assoc]

theorem Format.scan_whole {w : Bytes} {es : List ε} (whole : F.Whole w es) :
    F.scan w = (es, w.length) := by
  have all := F.scan_append whole []
  rwa [F.scan_of_stop F.head_nil, List.append_nil, List.append_nil, Nat.add_zero] at all

/-- What a scan read is whole records, and what is left does not start with one. -/
theorem Format.scan_spec (bytes : Bytes) :
    F.Whole (bytes.take (F.scan bytes).2) (F.scan bytes).1 ∧
      F.head (bytes.drop (F.scan bytes).2) = none ∧ (F.scan bytes).2 ≤ bytes.length := by
  induction hl : bytes.length using Nat.strongRecOn generalizing bytes with
  | ind length ih =>
    cases h : F.head bytes with
    | none =>
      rw [F.scan_of_stop h]
      exact ⟨Format.Whole.nil, h, Nat.zero_le _⟩
    | some found =>
      obtain ⟨e, n⟩ := found
      obtain ⟨long, room⟩ := F.head_size h
      have left : (bytes.drop n).length < length := by rw [List.length_drop]; omega
      obtain ⟨whole, stop, fits⟩ := ih _ left (bytes.drop n) rfl
      rw [F.scan_of_head h]
      refine ⟨?_, ?_, ?_⟩
      · have own : F.head (bytes.take n) = some (e, (bytes.take n).length) := by
          rw [List.length_take, Nat.min_eq_left room, F.head_take bytes (by omega) room, h]
        rw [List.take_add]
        exact Format.Whole.cons own whole
      · rwa [List.drop_drop] at stop
      · rw [List.length_drop] at fits
        dsimp only
        omega

theorem Format.whole_of_scan {bytes : Bytes} (all : (F.scan bytes).2 = bytes.length) :
    F.Whole bytes (F.scan bytes).1 := by
  have whole := (F.scan_spec bytes).1
  rwa [all, List.take_length] at whole

/-- A torn write is as good as no write: only a record put down whole is read. -/
theorem Format.scan_torn {w r : Bytes} {es : List ε} {e : ε} (whole : F.Whole w es)
    (h : F.encode e = some r) (k : Nat) :
    F.scan (w ++ r.take k) =
      if k < r.length then (es, w.length) else (es ++ [e], w.length + r.length) := by
  rw [F.scan_append whole]
  split
  · rename_i short
    simp [F.scan_of_stop (F.head_torn h short)]
  · rename_i long
    rw [List.take_of_length_le (by omega), F.scan_whole (Format.Whole.single F h)]

end RecordLog
