import Lcq.ByteFormat
import Mathlib.Data.Nat.Digits.Lemmas

/-!
# One value, one spelling

Decimal numbers without a sign or a leading zero, and lowercase hexadecimal.
Each has one spelling for each value: what is read back from a spelling is its
value, and nothing else reads as that value.
-/

namespace Spelling

open ByteFormat

/-! ## Decimal numbers -/

def digitValue (c : Char) : Option Nat :=
  if 48 ≤ c.toNat ∧ c.toNat ≤ 57 then some (c.toNat - 48) else none

/-- The digits of a numeral, the first one first. -/
def digitValues : List Char → Option (List Nat)
  | [] => some []
  | c :: word => (digitValue c).bind fun d => (digitValues word).map fun digits => d :: digits

/-- A decimal numeral up to `top`, however many zeros it starts with. -/
def parse (top : Nat) (word : List Char) : Option Nat :=
  if word = [] then none
  else (digitValues word).bind fun digits =>
    let value := digits.foldl (fun n d => 10 * n + d) 0
    if value ≤ top then some value else none

def signed (word : List Char) : Bool := word.head? == some '+' || word.head? == some '-'

/-- A zero in front of other digits. -/
def padded (word : List Char) : Bool := decide (1 < word.length) && word.head? == some '0'

/-- The spelling of a number. -/
def numeral (n : Nat) : List Char :=
  if n = 0 then ['0'] else (Nat.digits 10 n).reverse.map Nat.digitChar

theorem digitValue_eq_some {c : Char} {d : Nat} :
    digitValue c = some d ↔ d < 10 ∧ c = Nat.digitChar d := by
  constructor
  · intro read
    unfold digitValue at read
    split at read
    · cases read
      refine ⟨by omega, ?_⟩
      apply Char.toNat_inj.mp
      rw [Nat.toNat_digitChar_of_lt_ten (by omega)]
      omega
    · cases read
  · rintro ⟨small, rfl⟩
    have code := Nat.toNat_digitChar_of_lt_ten small
    rw [digitValue, code, if_pos (by omega), Nat.add_sub_cancel_left]

theorem digitValues_eq_some {word : List Char} {digits : List Nat} :
    digitValues word = some digits ↔ (∀ d ∈ digits, d < 10) ∧ word = digits.map Nat.digitChar := by
  induction word generalizing digits with
  | nil =>
    constructor
    · rintro ⟨⟩
      exact ⟨nofun, rfl⟩
    · rintro ⟨-, none⟩
      rw [List.map_eq_nil_iff.mp none.symm]
      rfl
  | cons c word ih =>
    constructor
    · intro read
      obtain ⟨d, first, more⟩ := Option.bind_eq_some_iff.mp read
      obtain ⟨ds, later, rfl⟩ := Option.map_eq_some_iff.mp more
      obtain ⟨small, rfl⟩ := digitValue_eq_some.mp first
      obtain ⟨smaller, rfl⟩ := ih.mp later
      refine ⟨?_, rfl⟩
      intro e mem
      rcases List.mem_cons.mp mem with rfl | mem
      · exact small
      · exact smaller e mem
    · rintro ⟨small, whole⟩
      cases digits with
      | nil => cases whole
      | cons d ds =>
        rw [List.map_cons, List.cons.injEq] at whole
        obtain ⟨head, tail⟩ := whole
        have first := digitValue_eq_some.mpr ⟨small d List.mem_cons_self, head⟩
        have later := ih.mpr ⟨fun e mem => small e (List.mem_cons_of_mem _ mem), tail⟩
        simp only [digitValues, first, later, Option.bind_some, Option.map_some]

theorem foldl_ofDigits (digits : List Nat) :
    digits.foldl (fun n d => 10 * n + d) 0 = Nat.ofDigits 10 digits.reverse := by
  rw [Nat.ofDigits_eq_foldr, List.foldr_reverse]
  congr 1
  funext n d
  simp [add_comm]

/-- What a numeral without a zero in front spells is spelled by that numeral. -/
theorem numeral_ofDigits {digits : List Nat} (small : ∀ d ∈ digits, d < 10)
    (some : digits ≠ []) (lead : digits = [0] ∨ digits.head? ≠ Option.some 0) :
    numeral (Nat.ofDigits 10 digits.reverse) = digits.map Nat.digitChar := by
  rcases lead with rfl | lead
  · rfl
  · have last : ∀ h : digits.reverse ≠ [], digits.reverse.getLast h ≠ 0 := by
      intro h zero
      apply lead
      rw [List.getLast_reverse] at zero
      rw [List.head?_eq_some_head some, zero]
    have back := Nat.digits_ofDigits 10 (by decide) digits.reverse
      (fun d mem => small d (List.mem_reverse.mp mem)) last
    have nonzero : Nat.ofDigits 10 digits.reverse ≠ 0 := by
      intro zero
      rw [zero, Nat.digits_zero] at back
      exact some (List.reverse_eq_nil_iff.mp back.symm)
    rw [numeral, if_neg nonzero, back, List.reverse_reverse]

/-- The digits that `numeral` writes. -/
theorem numeral_digits (n : Nat) : ∃ digits : List Nat, numeral n = digits.map Nat.digitChar ∧
    (∀ d ∈ digits, d < 10) ∧ digits ≠ [] ∧ Nat.ofDigits 10 digits.reverse = n ∧
    (digits = [0] ∨ digits.head? ≠ some 0) := by
  by_cases zero : n = 0
  · subst zero
    exact ⟨[0], rfl, by decide, by decide, rfl, Or.inl rfl⟩
  · have some := Nat.digits_ne_nil_iff_ne_zero (b := 10).mpr zero
    refine ⟨(Nat.digits 10 n).reverse, by rw [numeral, if_neg zero], ?_, by simpa using some, ?_,
      Or.inr ?_⟩
    · intro d mem
      exact Nat.digits_lt_base (by decide) (List.mem_reverse.mp mem)
    · rw [List.reverse_reverse, Nat.ofDigits_digits]
    · rw [List.head?_reverse, List.getLast?_eq_getLast_of_ne_nil some]
      intro lead
      exact Nat.getLast_digit_ne_zero 10 zero (Option.some.inj lead)

/-- A digit is no sign, and only one of them is a zero. -/
theorem digitChar_lead {d : Nat} (small : d < 10) :
    Nat.digitChar d ≠ '+' ∧ Nat.digitChar d ≠ '-' ∧ (Nat.digitChar d = '0' ↔ d = 0) := by
  interval_cases d <;> decide

theorem lead_unsigned {digits : List Nat} (small : ∀ d ∈ digits, d < 10) :
    signed (digits.map Nat.digitChar) = false := by
  cases digits with
  | nil => rfl
  | cons d ds =>
    obtain ⟨plus, minus, -⟩ := digitChar_lead (small d List.mem_cons_self)
    simp [signed, plus, minus]

theorem lead_padded {digits : List Nat} (small : ∀ d ∈ digits, d < 10) (some : digits ≠ []) :
    padded (digits.map Nat.digitChar) = false ↔ digits = [0] ∨ digits.head? ≠ Option.some 0 := by
  cases digits with
  | nil => exact absurd rfl some
  | cons d ds =>
    obtain ⟨-, -, zero⟩ := digitChar_lead (small d List.mem_cons_self)
    by_cases here : d = 0
    · cases ds <;> simp [padded, here]
    · simp [padded, here, zero]

/-- A number has one spelling. -/
theorem parse_canonical_iff {top n : Nat} {word : List Char} :
    (signed word = false ∧ padded word = false ∧ parse top word = some n) ↔
      n ≤ top ∧ word = numeral n := by
  constructor
  · rintro ⟨-, unpadded, read⟩
    unfold parse at read
    split at read
    · cases read
    · rename_i written
      obtain ⟨digits, values, bounded⟩ := Option.bind_eq_some_iff.mp read
      obtain ⟨small, rfl⟩ := digitValues_eq_some.mp values
      have some : digits ≠ [] := fun none => written (by rw [none]; rfl)
      dsimp only at bounded
      split at bounded
      · rename_i fits
        cases bounded
        rw [foldl_ofDigits] at fits ⊢
        exact ⟨fits, (numeral_ofDigits small some ((lead_padded small some).mp unpadded)).symm⟩
      · cases bounded
  · rintro ⟨fits, rfl⟩
    obtain ⟨digits, written, small, some, value, lead⟩ := numeral_digits n
    rw [written]
    refine ⟨lead_unsigned small, (lead_padded small some).mpr lead, ?_⟩
    have values := digitValues_eq_some.mpr ⟨small, rfl⟩
    have nonempty : digits.map Nat.digitChar ≠ [] := by simpa using some
    simp only [parse, if_neg nonempty, values, Option.bind_some, foldl_ofDigits, value,
      if_pos fits]

theorem numeral_injective {n m : Nat} (same : numeral n = numeral m) : n = m := by
  have left := (@parse_canonical_iff (max n m) n _).mpr ⟨Nat.le_max_left n m, rfl⟩
  have right := (@parse_canonical_iff (max n m) m _).mpr ⟨Nat.le_max_right n m, rfl⟩
  rw [same] at left
  exact Option.some.inj (left.2.2.symm.trans right.2.2)

/-! ## Text as bytes -/

def asBytes (word : String) : Bytes := word.toUTF8.data.toList

theorem asBytes_injective {word other : String} (same : asBytes word = asBytes other) :
    word = other := by
  have data := Array.toList_inj.mp same
  exact String.toByteArray_inj.mp (ByteArray.ext data)

theorem asBytes_ofList (chars : List Char) :
    asBytes (String.ofList chars) = chars.flatMap String.utf8EncodeChar := by
  rw [asBytes, String.toUTF8_eq_toByteArray, String.toByteArray_ofList, List.utf8Encode,
    List.toList_data_toByteArray]

/-! ## Hexadecimal -/

/-- Lowercase only. -/
def nibble (byte : UInt8) : Option UInt8 :=
  if 48 ≤ byte ∧ byte ≤ 57 then some (byte - 48)
  else if 97 ≤ byte ∧ byte ≤ 102 then some (byte - 97 + 10)
  else none

def hexPairs : Bytes → Option Bytes
  | [] => some []
  | [_] => none
  | high :: low :: rest =>
    (nibble high).bind fun h => (nibble low).bind fun l =>
      (hexPairs rest).map fun bytes => (h <<< 4 ||| l) :: bytes

def hexDigits : List Char := "0123456789abcdef".toList

/-- The two digits of a byte. -/
def hexPair (byte : UInt8) : List Char :=
  [hexDigits.getD (byte >>> 4).toNat '0', hexDigits.getD (byte &&& 15).toNat '0']

def hexText (bytes : Bytes) : String := String.ofList (bytes.flatMap hexPair)

theorem forall_byte {Q : UInt8 → Prop} (all : ∀ n : Fin 256, Q ⟨⟨n⟩⟩) (byte : UInt8) : Q byte := by
  obtain ⟨⟨n⟩⟩ := byte
  exact all n

set_option maxRecDepth 4096 in
/-- How each byte is spelled, and what it spells. -/
theorem byte_spelled (byte : UInt8) :
    ((hexPair byte).flatMap String.utf8EncodeChar =
        [((hexPair byte).getD 0 '0').val.toUInt8, ((hexPair byte).getD 1 '0').val.toUInt8] ∧
      nibble ((hexPair byte).getD 0 '0').val.toUInt8 = some (byte >>> 4) ∧
      nibble ((hexPair byte).getD 1 '0').val.toUInt8 = some (byte &&& 15) ∧
      (byte >>> 4) <<< 4 ||| (byte &&& 15) = byte) ∧
    (nibble byte).all (fun value => decide (value.toNat < 16) &&
      decide (byte = (hexDigits.getD value.toNat '0').val.toUInt8)) = true := by
  revert byte
  exact forall_byte (by decide +kernel)

theorem hexPair_bytes (byte : UInt8) : ∃ high low, (hexPair byte).flatMap String.utf8EncodeChar =
    [high, low] ∧ nibble high = some (byte >>> 4) ∧ nibble low = some (byte &&& 15) ∧
      (byte >>> 4) <<< 4 ||| (byte &&& 15) = byte :=
  ⟨_, _, (byte_spelled byte).1⟩

theorem asBytes_hexText_cons (byte : UInt8) (bytes : Bytes) : asBytes (hexText (byte :: bytes)) =
    (hexPair byte).flatMap String.utf8EncodeChar ++ asBytes (hexText bytes) := by
  rw [hexText, asBytes_ofList, List.flatMap_cons, List.flatMap_append, hexText, asBytes_ofList]

theorem hexPairs_hexText (bytes : Bytes) : hexPairs (asBytes (hexText bytes)) = some bytes := by
  induction bytes with
  | nil => rfl
  | cons byte bytes ih =>
    obtain ⟨high, low, pair, first, second, whole⟩ := hexPair_bytes byte
    rw [asBytes_hexText_cons, pair]
    simp only [List.cons_append, List.nil_append, hexPairs, first, second, ih, Option.bind_some,
      Option.map_some, whole]

theorem length_hexText (bytes : Bytes) : (asBytes (hexText bytes)).length = 2 * bytes.length := by
  induction bytes with
  | nil => rfl
  | cons byte bytes ih =>
    obtain ⟨high, low, pair, -⟩ := hexPair_bytes byte
    rw [asBytes_hexText_cons, pair, List.length_append, ih, List.length_cons, List.length_cons]
    simp only [List.length_cons, List.length_nil]
    omega

theorem nibble_eq_some {byte value : UInt8} (read : nibble byte = some value) :
    byte = (hexDigits.getD value.toNat '0').val.toUInt8 ∧ value.toNat < 16 := by
  have spelled := (byte_spelled byte).2
  rw [read] at spelled
  simp only [Option.all_some, Bool.and_eq_true, decide_eq_true_eq] at spelled
  exact ⟨spelled.2, spelled.1⟩

theorem joined_nibbles {high low : UInt8} (small : high.toNat < 16) (small' : low.toNat < 16) :
    (high <<< 4 ||| low) >>> 4 = high ∧ (high <<< 4 ||| low) &&& 15 = low := by
  have joined : (high <<< 4 ||| low).toNat = high.toNat * 16 + low.toNat := by
    have shifted : (high <<< 4).toNat = high.toNat <<< 4 := by
      simp only [UInt8.toNat_shiftLeft, UInt8.reduceToNat, Nat.reduceMod, Nat.shiftLeft_eq]
      omega
    rw [UInt8.toNat_or, shifted, ← Nat.shiftLeft_add_eq_or_of_lt small', Nat.shiftLeft_eq]
  constructor
  · rw [← UInt8.toNat_inj, UInt8.toNat_shiftRight, joined]
    simp only [UInt8.reduceToNat, Nat.reduceMod, Nat.shiftRight_eq_div_pow]
    omega
  · rw [← UInt8.toNat_inj, UInt8.toNat_and, joined]
    have mask : high.toNat * 16 + low.toNat &&& 15 = (high.toNat * 16 + low.toNat) % 16 :=
      Nat.and_two_pow_sub_one_eq_mod _ 4
    simp only [UInt8.reduceToNat]
    omega

/-- Two digits spell the byte they are read as. -/
theorem hexPair_joined {high low h l : UInt8} (first : nibble high = some h)
    (second : nibble low = some l) :
    (hexPair (h <<< 4 ||| l)).flatMap String.utf8EncodeChar = [high, low] := by
  obtain ⟨upper, lower⟩ := joined_nibbles (nibble_eq_some first).2 (nibble_eq_some second).2
  obtain ⟨one, two, pair, one', two', -⟩ := hexPair_bytes (h <<< 4 ||| l)
  rw [upper] at one'
  rw [lower] at two'
  rw [pair, (nibble_eq_some one').1, (nibble_eq_some two').1, ← (nibble_eq_some first).1,
    ← (nibble_eq_some second).1]

/-- Bytes have one spelling. -/
theorem hexPairs_eq_some {raw bytes : Bytes} :
    hexPairs raw = some bytes ↔ raw = asBytes (hexText bytes) := by
  constructor
  · intro read
    induction raw using hexPairs.induct generalizing bytes with
    | case1 =>
      cases read
      rfl
    | case2 => cases read
    | case3 high low rest ih =>
      obtain ⟨h, first, more⟩ := Option.bind_eq_some_iff.mp read
      obtain ⟨l, second, more⟩ := Option.bind_eq_some_iff.mp more
      obtain ⟨tail, later, rfl⟩ := Option.map_eq_some_iff.mp more
      rw [asBytes_hexText_cons, hexPair_joined first second, ← ih later]
      rfl
  · rintro rfl
    exact hexPairs_hexText bytes

theorem hexText_injective {bytes others : Bytes} (same : hexText bytes = hexText others) :
    bytes = others := by
  have left := hexPairs_hexText bytes
  rw [same, hexPairs_hexText] at left
  exact (Option.some.inj left).symm

end Spelling
