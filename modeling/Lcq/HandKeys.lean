import Lcq.FleetReading

/-!
# A key that arrives by hand

Fifty-two symbols of five bits carry a key and four more check it. A reader
forgives case, hyphens, white space and the letters that look like digits, and
accepts nothing else than what the writer could have written.
-/

namespace HandKeys

open ByteFormat Contracts FleetFile FleetReading TextLines Wire

def bits : Nat := 5
def keySymbols : Nat := 52
def checkSymbols : Nat := 4
def symbols : Nat := keySymbols + checkSymbols

inductive HandError where
  | unknownSymbol (found : Char) (position : Nat)
  | wrongLength (found : Nat) (expected : Nat)
  | checkFailed
  | notCanonical
  deriving DecidableEq

variable (C : Primitives)

/-- The leading bits of a key's digest. -/
def checkOf (key : Hash) : List Nat :=
  (List.range checkSymbols).map (symbolAt (C.blake2s256 key.1).1)

def symbolsOf (key : Hash) : List Nat :=
  (List.range keySymbols).map (symbolAt key.1) ++ checkOf C key

def encode (key : Hash) : String := .ofList (writeSymbols 0 (symbolsOf C key))

/-- One character's value, reading letters that look like digits as these. -/
def valueOf (found : Char) : Option Nat :=
  let upper := found.toUpper
  if upper = 'I' ∨ upper = 'L' then some 1
  else if upper = 'O' then some 0
  else if upper = 'U' then none
  else if upper.toNat < 256 then alphabet.findIdx? fun symbol => decide (symbol = upper)
  else none

/-- The values kept so far, no more than a key has, and how many there were. -/
def scan : List Char → List Nat → Nat → Except HandError (List Nat × Nat)
  | [], kept, count => .ok (kept, count)
  | found :: rest, kept, count =>
    if found = '-' ∨ isWhitespace found = true then scan rest kept count
    else
      match valueOf found with
      | none => .error (.unknownSymbol found (count + 1))
      | some value => scan rest (if count < symbols then kept ++ [value] else kept) (count + 1)

def setBit (key : Hash) (position : Nat) : Hash :=
  ⟨key.1.modify (position / 8) (· ||| 0x80 >>> UInt8.ofNat (position % 8)), by simp [key.2]⟩

/-- The bits of one symbol, those past the end of the key left out. -/
def putSymbol (key : Hash) (index value : Nat) : Hash :=
  (List.range bits).foldl (fun key bit =>
    let position := index * bits + bit
    if position < 32 * 8 ∧ value &&& 0x10 >>> bit ≠ 0 then setBit key position else key) key

def keyOf (typed : List Nat) : Hash :=
  (List.range keySymbols).foldl (fun key index => putSymbol key index (typed.getD index 0)) noHash

def decode (typed : String) : Except HandError Hash := do
  let (typed, count) ← scan typed.toList [] 0
  if count ≠ symbols then .error (.wrongLength count symbols)
  -- a key ends one bit into its last symbol
  else if typed.getD (keySymbols - 1) 0 &&& 0x0F ≠ 0 then .error .notCanonical
  else if typed.drop keySymbols ≠ checkOf C (keyOf typed) then .error .checkFailed
  else .ok (keyOf typed)

/-! ## Bits -/

/-- Whether a bit is set, the first of the first byte being bit 0; none is past the end. -/
def bitAt (bytes : Bytes) (position : Nat) : Bool :=
  decide (position < bytes.length * 8)
    && bytes.getD (position / 8) 0 &&& (0x80 >>> UInt8.ofNat (position % 8)) != 0

/-- The bit of a byte, from the top. -/
def topBit (byte : UInt8) (i : Nat) : Bool := byte &&& (0x80 >>> UInt8.ofNat i) != 0

theorem topBit_or (byte : UInt8) {i j : Nat} (hi : i < 8) (hj : j < 8) :
    topBit (byte ||| 0x80 >>> UInt8.ofNat j) i = (topBit byte i || decide (j = i)) := by
  have masks : ∀ j i : Fin 8, (0x80 >>> UInt8.ofNat j.val &&& 0x80 >>> UInt8.ofNat i.val !=
      (0 : UInt8)) = decide (j = i) := by decide
  have mask := masks ⟨j, hj⟩ ⟨i, hi⟩
  rw [topBit, or_and, mask, topBit]
  simp

/-- A byte is its eight bits. -/
theorem topBit_ext {byte byte' : UInt8} (same : ∀ i < 8, topBit byte i = topBit byte' i) :
    byte = byte' := by
  have spelled : ∀ byte : UInt8, byte.toNat =
      (List.range 8).foldl (fun n i => 2 * n + (topBit byte i).toNat) 0 :=
    Spelling.forall_byte (by decide +kernel)
  apply UInt8.toNat_inj.mp
  rw [spelled byte, spelled byte']
  apply List.foldl_ext
  intro n i mem
  rw [same i (List.mem_range.mp mem)]

theorem bitAt_inside (key : Hash) {position : Nat} (inside : position < 256) :
    bitAt key.1 position = topBit (key.1.getD (position / 8) 0) (position % 8) := by
  have within : position < key.1.length * 8 := by
    rw [key.2]
    exact inside
  rw [bitAt, decide_eq_true within]
  rfl

theorem bitAt_outside (key : Hash) {position : Nat} (outside : 256 ≤ position) :
    bitAt key.1 position = false := by
  have without : ¬ position < key.1.length * 8 := by
    rw [key.2]
    omega
  rw [bitAt, decide_eq_false without]
  rfl

/-- A key is its 256 bits. -/
theorem bitAt_ext {key key' : Hash} (same : ∀ p < 256, bitAt key.1 p = bitAt key'.1 p) :
    key = key' := by
  apply Subtype.ext
  apply List.ext_getElem (key.2.trans key'.2.symm)
  intro n inside inside'
  apply topBit_ext
  intro i hi
  have small : n < 32 := by rwa [key.2] at inside
  have here := same (n * 8 + i) (by omega)
  have byte : (n * 8 + i) / 8 = n := by omega
  have bit : (n * 8 + i) % 8 = i := by omega
  rw [bitAt_inside key (by omega), bitAt_inside key' (by omega), byte, bit] at here
  simpa [List.getD_eq_getElem?_getD, inside, inside'] using here

theorem bitAt_setBit (key : Hash) {position : Nat} (inside : position < 256) (other : Nat) :
    bitAt (setBit key position).1 other = (bitAt key.1 other || decide (position = other)) := by
  by_cases small : other < 256
  · have byte : other / 8 < key.1.length := by
      rw [key.2]
      omega
    have whole : position = other ↔ position / 8 = other / 8 ∧ position % 8 = other % 8 := by omega
    rw [bitAt_inside _ small, bitAt_inside _ small, setBit]
    simp only [List.getD_eq_getElem?_getD, List.getElem?_modify, List.getElem?_eq_getElem byte]
    by_cases same : position / 8 = other / 8
    · have or := topBit_or key.1[other / 8] (Nat.mod_lt other (by omega : 0 < 8))
        (Nat.mod_lt position (by omega : 0 < 8))
      simp [same, whole, or]
    · simp [same, whole]
  · have apart : position ≠ other := by omega
    rw [bitAt_outside _ (Nat.not_lt.mp small), bitAt_outside _ (Nat.not_lt.mp small)]
    simp [apart]

/-! ## Packing and unpacking -/

/-- One of the five bits of a symbol, from the top. -/
def symbolBit (value bit : Nat) : Bool := decide (value &&& 0x10 >>> bit ≠ 0)

/-- The first bits of a symbol, put into a key. -/
def putBits (key : Hash) (index value n : Nat) : Hash :=
  (List.range n).foldl (fun key bit =>
    let position := index * bits + bit
    if position < 32 * 8 ∧ value &&& 0x10 >>> bit ≠ 0 then setBit key position else key) key

theorem bitAt_putBits (key : Hash) (index value other n : Nat) (le : n ≤ bits) :
    bitAt (putBits key index value n).1 other = (bitAt key.1 other ||
      decide (other / bits = index ∧ other < 256 ∧ other % bits < n)
        && symbolBit value (other % bits)) := by
  induction n with
  | zero => simp [putBits]
  | succ n ih =>
    have before := ih (by omega)
    have step : putBits key index value (n + 1) =
        if index * bits + n < 32 * 8 ∧ value &&& 0x10 >>> n ≠ 0 then
          setBit (putBits key index value n) (index * bits + n)
        else putBits key index value n := by
      rw [putBits, List.range_succ, List.foldl_append]
      rfl
    have five : bits = 5 := rfl
    rw [step]
    by_cases here : index * bits + n = other
    · have place : other / bits = index ∧ other % bits = n := by
        rw [five] at here le ⊢
        omega
      split
      · rename_i set
        have inside : other < 256 := by omega
        have bit : symbolBit value n = true := decide_eq_true set.2
        rw [bitAt_setBit _ (by omega)]
        simp [here, place, inside, bit]
      · rename_i unset
        have without : ¬ (other < 256 ∧ symbolBit value n = true) := by
          rintro ⟨inside, bit⟩
          exact unset ⟨by omega, of_decide_eq_true bit⟩
        rw [before]
        by_cases inside : other < 256
        · have bit : symbolBit value n = false :=
            Bool.eq_false_iff.mpr fun bit => without ⟨inside, bit⟩
          simp [place, bit]
        · simp [inside]
    · have same : (other / bits = index ∧ other < 256 ∧ other % bits < n + 1) ↔
          (other / bits = index ∧ other < 256 ∧ other % bits < n) := by
        rw [five] at here le ⊢
        omega
      simp only [same]
      split
      · rename_i set
        rw [bitAt_setBit _ (by omega), before]
        simp [here]
      · exact before

/-- The bits of the symbols below `n`, and nothing else, are set. -/
theorem bitAt_foldl (typed : List Nat) (other n : Nat) :
    bitAt ((List.range n).foldl (fun key index => putSymbol key index (typed.getD index 0))
      noHash).1 other = (decide (other / bits < n ∧ other < 256)
        && symbolBit (typed.getD (other / bits) 0) (other % bits)) := by
  induction n with
  | zero =>
    have zero : bitAt noHash.1 other = false := by
      by_cases inside : other < 256
      · have byte : other / 8 < 32 := by omega
        rw [bitAt_inside _ inside, noHash, List.getD_eq_getElem?_getD,
          List.getElem?_replicate_of_lt byte]
        simp [topBit]
      · exact bitAt_outside _ (Nat.not_lt.mp inside)
    simpa using zero
  | succ n ih =>
    have low : other % bits < bits := Nat.mod_lt _ (by decide)
    have put (key : Hash) (value : Nat) : putSymbol key n value = putBits key n value bits := rfl
    rw [List.range_succ, List.foldl_append, List.foldl_cons, List.foldl_nil, put,
      bitAt_putBits _ _ _ _ _ (Nat.le_refl _), ih]
    by_cases here : other / bits = n
    · simp [here, low]
    · have same : other / bits < n + 1 ↔ other / bits < n := by omega
      simp [here, same]

theorem bitAt_keyOf (typed : List Nat) (other : Nat) : bitAt (keyOf typed).1 other =
    (decide (other < 256) && symbolBit (typed.getD (other / bits) 0) (other % bits)) := by
  have all := bitAt_foldl typed other keySymbols
  have inside : (other / bits < keySymbols ∧ other < 256) ↔ other < 256 := by
    simp only [bits, keySymbols]
    omega
  simp only [inside] at all
  exact all

/-- A symbol of five bits, the first one on top. -/
def fromBits (set : Nat → Bool) : Nat :=
  (List.range bits).foldl (fun value bit => 2 * value + (set bit).toNat) 0

theorem fromBits_eq (set : Nat → Bool) : fromBits set = 16 * (set 0).toNat + 8 * (set 1).toNat
    + 4 * (set 2).toNat + 2 * (set 3).toNat + (set 4).toNat := by
  simp only [fromBits, bits, List.range_succ, List.range_zero, List.nil_append, List.foldl_append,
    List.foldl_cons, List.foldl_nil]
  omega

theorem fromBits_lt (set : Nat → Bool) : fromBits set < 32 := by
  have small (bit : Nat) : (set bit).toNat ≤ 1 := Bool.toNat_le _
  have zero := small 0
  have one := small 1
  have two := small 2
  have three := small 3
  have four := small 4
  rw [fromBits_eq]
  omega

theorem symbolBit_fromBits (set : Nat → Bool) {bit : Nat} (lt : bit < bits) :
    symbolBit (fromBits set) bit = set bit := by
  have all : ∀ (a b c d e : Bool) (i : Fin 5), symbolBit (16 * a.toNat + 8 * b.toNat
      + 4 * c.toNat + 2 * d.toNat + e.toNat) i = [a, b, c, d, e][i] := by decide
  have here := all (set 0) (set 1) (set 2) (set 3) (set 4) ⟨bit, lt⟩
  rw [fromBits_eq, here]
  have five : bits = 5 := rfl
  obtain rfl | rfl | rfl | rfl | rfl : bit = 0 ∨ bit = 1 ∨ bit = 2 ∨ bit = 3 ∨ bit = 4 := by omega
  all_goals rfl

theorem symbol_fromBits {value : Nat} (small : value < 32) :
    fromBits (symbolBit value) = value := by
  have all : ∀ v : Fin 32, fromBits (symbolBit v) = v := by decide
  exact all ⟨value, small⟩

/-- The last symbol of a key has one bit of the key and four of padding. -/
theorem padded_fromBits {value : Nat} (small : value < 32) (padded : value &&& 0x0F = 0) :
    fromBits (fun bit => decide (51 * bits + bit < 256) && symbolBit value bit) = value := by
  have all : ∀ v : Fin 32, v.val &&& 0x0F = 0 →
      fromBits (fun bit => decide (51 * bits + bit < 256) && symbolBit v bit) = v := by decide
  exact all ⟨value, small⟩ padded

theorem symbolAt_fromBits (bytes : Bytes) (index : Nat) :
    symbolAt bytes index = fromBits fun bit => bitAt bytes (index * bits + bit) := rfl

theorem symbolAt_lt (bytes : Bytes) (index : Nat) : symbolAt bytes index < 32 :=
  fromBits_lt _

theorem fromBits_congr {set set' : Nat → Bool} (same : ∀ bit < bits, set bit = set' bit) :
    fromBits set = fromBits set' := by
  apply List.foldl_ext
  intro value bit mem
  rw [same bit (List.mem_range.mp mem)]

/-- The symbols of the key that was put together are those it was put together from. -/
theorem symbolAt_keyOf {typed : List Nat} (small : ∀ value ∈ typed, value < 32)
    (padded : typed.getD (keySymbols - 1) 0 &&& 0x0F = 0) {index : Nat} (lt : index < keySymbols) :
    symbolAt (keyOf typed).1 index = typed.getD index 0 := by
  have below : typed.getD index 0 < 32 := by
    rw [List.getD_eq_getElem?_getD]
    cases here : typed[index]? with
    | none => decide
    | some value => exact small value (List.mem_of_getElem? here)
  have place (bit : Nat) (inside : bit < bits) :
      (index * bits + bit) / bits = index ∧ (index * bits + bit) % bits = bit := by
    rw [bits] at inside ⊢
    omega
  have bit (bit : Nat) (inside : bit < bits) : bitAt (keyOf typed).1 (index * bits + bit) =
      (decide (index * bits + bit < 256) && symbolBit (typed.getD index 0) bit) := by
    rw [bitAt_keyOf, (place bit inside).1, (place bit inside).2]
  rw [symbolAt_fromBits, fromBits_congr bit]
  by_cases last : index = 51
  · subst last
    exact padded_fromBits below padded
  · have whole (bit : Nat) (inside : bit < bits) :
        (decide (index * bits + bit < 256) && symbolBit (typed.getD index 0) bit) =
          symbolBit (typed.getD index 0) bit := by
      have within : index * bits + bit < 256 := by
        rw [keySymbols] at lt
        rw [bits] at inside ⊢
        omega
      rw [decide_eq_true within, Bool.true_and]
    rw [fromBits_congr whole]
    exact symbol_fromBits below

theorem getD_symbolsOf (key : Hash) {index : Nat} (lt : index < keySymbols) :
    (symbolsOf C key).getD index 0 = symbolAt key.1 index := by
  have inside : index < ((List.range keySymbols).map (symbolAt key.1)).length := by
    rwa [List.length_map, List.length_range]
  rw [symbolsOf, List.getD_eq_getElem?_getD, List.getElem?_append_left inside, List.getElem?_map,
    List.getElem?_range lt]
  rfl

theorem symbolsOf_padded (key : Hash) :
    (symbolsOf C key).getD (keySymbols - 1) 0 &&& 0x0F = 0 := by
  have outside (n : Nat) (past : 256 ≤ n) : bitAt key.1 n = false := bitAt_outside key past
  rw [getD_symbolsOf C key (by decide), symbolAt_fromBits, fromBits_eq,
    outside (_ + 1) (by decide), outside (_ + 2) (by decide), outside (_ + 3) (by decide),
    outside (_ + 4) (by decide)]
  cases bitAt key.1 ((keySymbols - 1) * bits + 0) <;> rfl

theorem keyOf_symbolsOf (key : Hash) : keyOf (symbolsOf C key) = key := by
  apply bitAt_ext
  intro p inside
  have low : p % bits < bits := Nat.mod_lt _ (by decide)
  have lt : p / bits < keySymbols := by
    rw [bits, keySymbols]
    omega
  have place : p / bits * bits + p % bits = p := Nat.div_add_mod' p bits
  rw [bitAt_keyOf, getD_symbolsOf C key lt, symbolAt_fromBits, symbolBit_fromBits _ low, place,
    decide_eq_true inside, Bool.true_and]

/-! ## What is typed -/

/-- A letter as it is read: in upper case, and the digit it looks like. -/
def readAs (c : Char) : Char :=
  if c.toUpper = 'I' ∨ c.toUpper = 'L' then '1' else if c.toUpper = 'O' then '0' else c.toUpper

def counts (c : Char) : Bool := !(decide (c = '-') || isWhitespace c)

/-- What is typed, without separators and as it is read. -/
def canonical (typed : List Char) : List Char := (typed.filter counts).map readAs

theorem alphabet_index {value : Nat} {letter : Char} : alphabet[value]? = some letter ↔
    alphabet.findIdx? (fun symbol => decide (symbol = letter)) = some value := by
  have distinct : alphabet.Nodup := by decide
  rw [List.findIdx?_eq_some_iff_getElem, List.getElem?_eq_some_iff]
  constructor
  · rintro ⟨inside, rfl⟩
    refine ⟨inside, decide_eq_true rfl, fun j before same => ?_⟩
    have again := (List.Nodup.getElem_inj_iff distinct).mp (of_decide_eq_true same)
    omega
  · rintro ⟨inside, here, -⟩
    exact ⟨inside, of_decide_eq_true here⟩

def letterOf (value : Nat) : Char := alphabet.getD value '0'

theorem letterOf_iff {value : Nat} {letter : Char} :
    alphabet[value]? = some letter ↔ value < 32 ∧ letter = letterOf value := by
  have size : alphabet.length = 32 := rfl
  rw [letterOf, List.getD_eq_getElem?_getD]
  by_cases inside : value < 32
  · rw [List.getElem?_eq_getElem (by omega)]
    simp [inside, eq_comm]
  · rw [List.getElem?_eq_none (by omega)]
    simp [inside]

/-- A character has the value whose letter it is read as. -/
theorem valueOf_eq_some {c : Char} {value : Nat} :
    valueOf c = some value ↔ value < 32 ∧ readAs c = letterOf value := by
  have ascii : alphabet.all fun letter => decide (letter.toNat < 256) := by decide
  rw [← letterOf_iff, alphabet_index, valueOf, readAs]
  split
  · have one : alphabet.findIdx? (fun symbol => decide (symbol = '1')) = some 1 := by decide
    rw [one]
  · split
    · have zero : alphabet.findIdx? (fun symbol => decide (symbol = '0')) = some 0 := by decide
      rw [zero]
    · split
      · rename_i left
        have none : alphabet.findIdx? (fun symbol => decide (symbol = 'U')) = none := by decide
        rw [left, none]
      · split
        · exact Iff.rfl
        · rename_i wide
          rw [← alphabet_index]
          simp only [reduceCtorEq, false_iff]
          exact fun here => wide (of_decide_eq_true
            (List.all_eq_true.mp ascii _ (List.mem_of_getElem? here)))

/-- The letters of these values. -/
def letters (values : List Nat) : List Char := values.map letterOf

theorem letters_injective {values others : List Nat} (small : ∀ value ∈ values, value < 32)
    (small' : ∀ value ∈ others, value < 32) (same : letters values = letters others) :
    values = others := by
  have each : ∀ v w : Fin 32, letterOf v = letterOf w → v = w := by decide
  induction values generalizing others with
  | nil =>
    cases others with
    | nil => rfl
    | cons => cases same
  | cons v values ih =>
    cases others with
    | nil => cases same
    | cons w others =>
      obtain ⟨first, rest⟩ := List.cons_eq_cons.mp same
      have here := each ⟨v, small v List.mem_cons_self⟩ ⟨w, small' w List.mem_cons_self⟩ first
      rw [Fin.mk.inj here, ih (fun u mem => small u (List.mem_cons_of_mem _ mem))
        (fun u mem => small' u (List.mem_cons_of_mem _ mem)) rest]

/-- A reader takes a text exactly if it is read as the letters of some values, and keeps as
many of these as a key has. -/
theorem scan_ok {typed : List Char} {seen : List Nat} {result : List Nat × Nat} :
    scan typed (seen.take symbols) seen.length = .ok result ↔
      ∃ values, canonical typed = letters values ∧ (∀ value ∈ values, value < 32) ∧
        result = ((seen ++ values).take symbols, (seen ++ values).length) := by
  induction typed generalizing seen with
  | nil =>
    constructor
    · rintro ⟨⟩
      exact ⟨[], rfl, by simp, by simp⟩
    · rintro ⟨values, empty, -, rfl⟩
      have none : values = [] := List.map_eq_nil_iff.mp empty.symm
      simp [scan, none]
  | cons c typed ih =>
    by_cases skipped : c = '-' ∨ isWhitespace c = true
    · have passed : ¬ counts c = true := by
        rcases skipped with rfl | white
        · decide
        · simp [counts, white]
      rw [scan, if_pos skipped, canonical, List.filter_cons_of_neg passed, ih, canonical]
    · have counted : counts c = true := by
        rw [not_or] at skipped
        simp [counts, skipped]
      rw [scan, if_neg skipped, canonical, List.filter_cons_of_pos counted, List.map_cons]
      cases read : valueOf c with
      | none =>
        simp only [reduceCtorEq, false_iff]
        rintro ⟨values, spelled, small, -⟩
        cases values with
        | nil => cases spelled
        | cons v values =>
          obtain ⟨first, -⟩ := List.cons_eq_cons.mp spelled
          rw [valueOf_eq_some.mpr ⟨small v List.mem_cons_self, first⟩] at read
          cases read
      | some value =>
        have kept : (if seen.length < symbols then seen.take symbols ++ [value]
            else seen.take symbols) = (seen ++ [value]).take symbols := by
          split
          · rename_i room
            rw [List.take_of_length_le (Nat.le_of_lt room), List.take_of_length_le]
            rw [List.length_append]
            exact room
          · rename_i full
            rw [List.take_append_of_le_length (Nat.not_lt.mp full)]
        have longer : seen.length + 1 = (seen ++ [value]).length := by simp
        dsimp only
        rw [kept, longer, ih]
        constructor
        · rintro ⟨values, spelled, small, rfl⟩
          obtain ⟨lt, letter⟩ := valueOf_eq_some.mp read
          refine ⟨value :: values, ?_, ?_, by simp⟩
          · rw [← canonical, spelled, letter]
            rfl
          · exact List.forall_mem_cons.mpr ⟨lt, small⟩
        · rintro ⟨values, spelled, small, rfl⟩
          cases values with
          | nil => cases spelled
          | cons v values =>
            obtain ⟨first, rest⟩ := List.cons_eq_cons.mp spelled
            obtain ⟨lt, others⟩ := List.forall_mem_cons.mp small
            have same := valueOf_eq_some.mpr ⟨lt, first⟩
            rw [read] at same
            cases same
            exact ⟨values, rest, others, by simp⟩

/-! ## Writing and reading -/

theorem symbolsOf_length (key : Hash) : (symbolsOf C key).length = symbols := by
  simp [symbolsOf, checkOf, symbols]

theorem symbolsOf_lt (key : Hash) : ∀ value ∈ symbolsOf C key, value < 32 := by
  intro value mem
  rcases List.mem_append.mp mem with mem | mem
  · obtain ⟨index, -, rfl⟩ := List.mem_map.mp mem
    exact symbolAt_lt _ _
  · obtain ⟨index, -, rfl⟩ := List.mem_map.mp mem
    exact symbolAt_lt _ _

/-- Values that pass every check are the symbols of the key they make. -/
theorem checked_symbols {values : List Nat} (length : values.length = symbols)
    (small : ∀ value ∈ values, value < 32) (padded : values.getD (keySymbols - 1) 0 &&& 0x0F = 0)
    (checked : values.drop keySymbols = checkOf C (keyOf values)) :
    values = symbolsOf C (keyOf values) := by
  have front : values.take keySymbols = (List.range keySymbols).map (symbolAt (keyOf values).1) := by
    have size : (values.take keySymbols).length = keySymbols := by
      rw [List.length_take, length]
      rfl
    apply List.ext_getElem (by rw [size, List.length_map, List.length_range])
    intro i inside inside'
    have lt : i < keySymbols := by rwa [size] at inside
    have within : i < values.length := by
      rw [length]
      exact Nat.lt_of_lt_of_le lt (by decide)
    rw [List.getElem_take, List.getElem_map, List.getElem_range,
      symbolAt_keyOf small padded lt, List.getD_eq_getElem?_getD, List.getElem?_eq_getElem within]
    rfl
  rw [symbolsOf, ← front, ← checked, List.take_append_drop]

theorem decode_ok {typed : String} {key : Hash} :
    decode C typed = .ok key ↔ canonical typed.toList = letters (symbolsOf C key) := by
  have scanned (result : List Nat × Nat) := @scan_ok typed.toList [] result
  simp only [List.take_nil, List.length_nil, List.nil_append] at scanned
  simp only [decode, bind_ok, scanned]
  constructor
  · rintro ⟨_, ⟨values, spelled, small, rfl⟩, accepted⟩
    dsimp only at accepted
    split at accepted
    · cases accepted
    · rename_i length
      have length := not_not.mp length
      rw [List.take_of_length_le (Nat.le_of_eq length)] at accepted
      split at accepted
      · cases accepted
      · rename_i padded
        split at accepted
        · cases accepted
        · rename_i checked
          cases accepted
          rw [spelled, ← checked_symbols C length small (not_not.mp padded) (not_not.mp checked)]
  · intro spelled
    have length := symbolsOf_length C key
    have check : (symbolsOf C key).drop keySymbols = checkOf C key :=
      List.drop_left' (by rw [List.length_map, List.length_range])
    refine ⟨_, ⟨symbolsOf C key, spelled, symbolsOf_lt C key, rfl⟩, ?_⟩
    dsimp only
    rw [List.take_of_length_le (Nat.le_of_eq length), if_neg (not_not.mpr length),
      if_neg (not_not.mpr (symbolsOf_padded C key)), keyOf_symbolsOf, if_neg (not_not.mpr check)]

/-- What stays of a written key when its hyphens go. -/
theorem filter_writeSymbols {keep : Char → Bool} (dash : keep '-' = false)
    (kept : ∀ v : Fin 32, keep (letterOf v) = true) {values : List Nat}
    (small : ∀ value ∈ values, value < 32) (index : Nat) :
    (writeSymbols index values).filter keep = letters values := by
  induction values generalizing index with
  | nil => rfl
  | cons value values ih =>
    obtain ⟨lt, others⟩ := List.forall_mem_cons.mp small
    have hyphen : (if 0 < index ∧ index % 4 = 0 then ['-'] else []).filter keep = [] := by
      split
      · rw [List.filter_cons_of_neg (by rw [dash]; nofun), List.filter_nil]
      · rfl
    rw [writeSymbols, List.filter_append, hyphen, List.nil_append, ← letterOf,
      List.filter_cons_of_pos (kept ⟨value, lt⟩), ih others (index + 1), letters, letters,
      List.map_cons]

/-- The 56 symbols of a written key. -/
def written (key : Hash) : List Char :=
  (encode C key).toList.filter fun c => decide (c ≠ '-')

theorem written_eq (key : Hash) : written C key = letters (symbolsOf C key) := by
  rw [written, encode, String.toList_ofList]
  exact filter_writeSymbols (by decide) (by decide) (symbolsOf_lt C key) 0

theorem canonical_encode (key : Hash) :
    canonical (encode C key).toList = letters (symbolsOf C key) := by
  have plain : ∀ v : Fin 32, readAs (letterOf v) = letterOf v := by decide
  rw [encode, String.toList_ofList, canonical,
    filter_writeSymbols (by decide) (by decide) (symbolsOf_lt C key) 0, letters, List.map_map]
  apply List.map_congr_left
  intro value mem
  exact plain ⟨value, symbolsOf_lt C key value mem⟩

theorem refused {typed : String} (other : ∀ key, canonical typed.toList ≠ written C key) :
    ∃ e, decode C typed = .error e := by
  cases read : decode C typed with
  | error e => exact ⟨e, rfl⟩
  | ok key => exact absurd (((decode_ok C).mp read).trans (written_eq C key).symm) (other key)

/-- Fifty-two symbols are a key's alone. -/
theorem key_of_front {key key' : Hash}
    (same : (written C key).take keySymbols = (written C key').take keySymbols) : key = key' := by
  have front (k : Hash) : ((symbolsOf C k).take keySymbols).length = keySymbols := by
    rw [List.length_take, symbolsOf_length]
    rfl
  have small (k : Hash) : ∀ value ∈ (symbolsOf C k).take keySymbols, value < 32 :=
    fun value mem => symbolsOf_lt C k value (List.mem_of_mem_take mem)
  rw [written_eq, written_eq, letters, letters, ← List.map_take, ← List.map_take] at same
  have values := letters_injective (small key) (small key') same
  rw [← keyOf_symbolsOf C key, ← keyOf_symbolsOf C key']
  apply bitAt_ext
  intro p inside
  have lt : p / bits < keySymbols := by
    rw [bits, keySymbols]
    omega
  have digit (k : Hash) : (symbolsOf C k).getD (p / bits) 0 =
      ((symbolsOf C k).take keySymbols).getD (p / bits) 0 := by
    rw [List.getD_eq_getElem?_getD, List.getD_eq_getElem?_getD, List.getElem?_take_of_lt lt]
  rw [bitAt_keyOf, bitAt_keyOf, digit, digit, values]

/-- A written key reads back, and nothing reads as a key but its 56 symbols, in any case, with
any hyphens and white space and with letters for the digits they look like: not a wrong number
of symbols, not a `U`, not bits behind the key's last, and not another check. -/
theorem hand_codec (C : Primitives) :
    (∀ key, decode C (encode C key) = .ok key ∧ (written C key).length = symbols) ∧
    (∀ typed key, decode C typed = .ok key ↔ canonical typed.toList = written C key) ∧
    (∀ typed typed' key, decode C typed = .ok key → decode C typed' = .ok key →
      canonical typed.toList = canonical typed'.toList) ∧
    (∀ typed, (canonical typed.toList).length ≠ symbols → ∃ e, decode C typed = .error e) ∧
    (∀ typed, 'U' ∈ canonical typed.toList → ∃ e, decode C typed = .error e) ∧
    (∀ typed value, value < 32 → (canonical typed.toList)[keySymbols - 1]? =
      some (letterOf value) → value &&& 0x0F ≠ 0 → ∃ e, decode C typed = .error e) ∧
    ∀ typed key, (canonical typed.toList).take keySymbols = (written C key).take keySymbols →
      canonical typed.toList ≠ written C key → ∃ e, decode C typed = .error e := by
  have length (key : Hash) : (written C key).length = symbols := by
    rw [written_eq, letters, List.length_map, symbolsOf_length]
  have accepts (typed : String) (key : Hash) :
      decode C typed = .ok key ↔ canonical typed.toList = written C key := by
    rw [decode_ok, written_eq]
  refine ⟨fun key => ⟨(decode_ok C).mpr (canonical_encode C key), length key⟩, accepts, ?_, ?_, ?_,
    ?_, ?_⟩
  · intro typed typed' key read read'
    rw [(accepts typed key).mp read, (accepts typed' key).mp read']
  · intro typed wrong
    exact refused C fun key same => wrong (by rw [same, length])
  · intro typed mem
    apply refused C
    intro key same
    have none : ∀ v : Fin 32, letterOf v ≠ 'U' := by decide
    rw [same, written_eq, letters] at mem
    obtain ⟨value, held, letter⟩ := List.mem_map.mp mem
    exact none ⟨value, symbolsOf_lt C key value held⟩ letter
  · intro typed value lt last padded
    apply refused C
    intro key same
    have inside : keySymbols - 1 < (symbolsOf C key).length := by
      rw [symbolsOf_length]
      decide
    have clear := symbolsOf_padded C key
    rw [List.getD_eq_getElem?_getD, List.getElem?_eq_getElem inside, Option.getD_some] at clear
    rw [same, written_eq, letters, List.getElem?_map, List.getElem?_eq_getElem inside,
      Option.map_some] at last
    have one := letters_injective (List.forall_mem_singleton.mpr
      (symbolsOf_lt C key _ (List.getElem_mem inside))) (List.forall_mem_singleton.mpr lt)
      (congrArg (fun letter => [letter]) (Option.some.inj last))
    rw [List.singleton_inj.mp one] at clear
    exact padded clear
  · intro typed key front wrong
    apply refused C
    intro key' same
    rw [same] at front wrong
    exact wrong (by rw [key_of_front C front])

/-- The key of zeros, in lower case, with letters for digits and one space for its hyphens. -/
theorem hand_codec_zeros : ∃ check : List Char, check.length = 4 ∧
    decode plain (.ofList (List.replicate 40 'o' ++ ' ' :: List.replicate 12 'O' ++ check)) =
      .ok noHash := by
  refine ⟨(written plain noHash).drop keySymbols, by decide +kernel, ?_⟩
  rw [(hand_codec plain).2.1, String.toList_ofList]
  decide +kernel

end HandKeys
