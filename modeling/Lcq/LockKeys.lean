import Lcq.JournalRecords
import Lcq.Spelling

/-!
# What a lock key tells apart

The key of a vote lock is five fields with a separator between them. Hash and
revision are written without it and always in the same way, so a key can only
be cut in another place where a name holds the separator itself.
-/

namespace LockKeys

open ByteFormat Contracts JournalRecords Spelling

/-! ## Words with a separator behind them -/

section Cuts

variable {α : Type} {sep : α}

/-- A word free of the separator is the front of every other way to cut the same text. -/
theorem cut_extends {word other rest rest' : List α} (free : sep ∉ word)
    (same : word ++ sep :: rest = other ++ sep :: rest') :
    ∃ more, other = word ++ more ∧ sep :: rest = more ++ sep :: rest' := by
  rcases List.append_eq_append_iff.mp same with ⟨more, longer, here⟩ | ⟨more, longer, here⟩
  · exact ⟨more, longer, here⟩
  · cases more with
    | nil =>
      rw [List.append_nil] at longer
      exact ⟨[], by rw [List.append_nil, longer], here.symm⟩
    | cons c more =>
      -- the shorter cut would leave its separator inside the word
      obtain ⟨first, -⟩ := List.cons.inj here
      refine absurd ?_ free
      rw [longer, first]
      exact List.mem_append_right _ List.mem_cons_self

theorem cut_unique {word other rest rest' : List α} (free : sep ∉ word) (free' : sep ∉ other)
    (same : word ++ sep :: rest = other ++ sep :: rest') : word = other ∧ rest = rest' := by
  obtain ⟨more, longer, here⟩ := cut_extends free same
  cases more with
  | nil =>
    rw [List.append_nil] at longer
    exact ⟨longer.symm, (List.cons.inj here).2⟩
  | cons c more =>
    obtain ⟨first, -⟩ := List.cons.inj here
    refine absurd ?_ free'
    rw [longer, first]
    exact List.mem_append_right _ List.mem_cons_self

end Cuts

/-! ## The parts of a key -/

def unitSeparator : Char := '\x1f'

/-- Mission and event as the key writes them. -/
def named (subject : Subject) : List Char :=
  subject.mission.toList ++ unitSeparator :: subject.event.toList

/-- Hash and revision as the key writes them, each behind a separator. -/
def versioned (subject : Subject) : List Char :=
  unitSeparator :: (subject.contentHash.1.flatMap hexPair
    ++ unitSeparator :: numeral subject.revision.toNat)

theorem versioned_append (subject : Subject) (rest : List Char) :
    versioned subject ++ rest = unitSeparator :: (subject.contentHash.1.flatMap hexPair
      ++ unitSeparator :: (numeral subject.revision.toNat ++ rest)) := by
  rw [versioned, List.cons_append, List.append_assoc, List.cons_append]

theorem numeral_last {n : Nat} (last : n / 10 = 0) : numeral n = [Nat.digitChar (n % 10)] := by
  have small : n % 10 = n := by omega
  rw [small]
  by_cases zero : n = 0
  · rw [zero]
    rfl
  · rw [numeral, if_neg zero, Nat.digits_of_lt 10 n zero (by omega)]
    rfl

theorem numeral_step {n : Nat} (more : n / 10 ≠ 0) :
    numeral n = numeral (n / 10) ++ [Nat.digitChar (n % 10)] := by
  have nonzero : n ≠ 0 := by
    rintro rfl
    exact more rfl
  rw [numeral, if_neg nonzero, numeral, if_neg more, Nat.digits_def' (by decide) (by omega),
    List.reverse_cons, List.map_append]
  rfl

theorem digit_written {d : Nat} (small : d < 10) : Char.ofNat (48 + d) = Nat.digitChar d := by
  interval_cases d <;> rfl

/-- Where the digits fit in the room there is, they are the number's own spelling. -/
theorem decimal_numeral (room n : Nat) (digits : List Char) (fits : n < 10 ^ (room + 1)) :
    decimal (room + 1) n digits = numeral n ++ digits := by
  induction room generalizing n digits with
  | zero =>
    have last : n / 10 = 0 := by omega
    rw [decimal, digit_written (Nat.mod_lt _ (by decide)), if_pos last, numeral_last last]
    rfl
  | succ room ih =>
    rw [decimal, digit_written (Nat.mod_lt _ (by decide))]
    by_cases last : n / 10 = 0
    · rw [if_pos last, numeral_last last]
      rfl
    · have fewer : n / 10 < 10 ^ (room + 1) := by
        rw [Nat.pow_succ] at fits
        omega
      rw [if_neg last, ih _ _ fewer, numeral_step last, List.append_assoc]
      rfl

theorem hexDigit_pair (byte : UInt8) :
    [hexDigit (byte.toNat / 16), hexDigit (byte.toNat % 16)] = hexPair byte := by
  have high : (byte >>> 4).toNat = byte.toNat / 16 := by
    rw [UInt8.toNat_shiftRight, Nat.shiftRight_eq_div_pow]
    rfl
  have low : (byte &&& 15).toNat = byte.toNat % 16 := by
    rw [UInt8.toNat_and]
    exact Nat.and_two_pow_sub_one_eq_mod byte.toNat 4
  rw [hexPair, high, low]
  rfl

/-- A key is the names, the version and the voter, one behind the other. -/
theorem lockKey_parts (subject : Subject) (voter : String) :
    (lockKey subject voter).toList =
      named subject ++ (versioned subject ++ unitSeparator :: voter.toList) := by
  have revision : subject.revision.toNat < 10 ^ (19 + 1) := by
    have small := subject.revision.toNat_lt
    omega
  rw [lockKey, String.toList_ofList, decimal_numeral 19 _ _ revision]
  simp only [hexDigit_pair, named, versioned, unitSeparator, List.append_nil, List.append_assoc,
    List.cons_append, List.nil_append]

theorem hexPair_free (byte : UInt8) : unitSeparator ∉ hexPair byte := by
  have letters : ∀ n, hexDigits.getD n '0' ≠ unitSeparator := by
    intro n
    by_cases inside : n < 16
    · interval_cases n <;> decide
    · have out : hexDigits.length ≤ n := by
        rw [show hexDigits.length = 16 from rfl]
        omega
      rw [List.getD_eq_getElem?_getD, List.getElem?_eq_none out]
      decide
  intro mem
  rcases List.mem_cons.mp mem with here | mem
  · exact letters _ here.symm
  · exact letters _ (List.mem_singleton.mp mem).symm

theorem hash_free (bytes : Bytes) : unitSeparator ∉ bytes.flatMap hexPair := by
  intro mem
  obtain ⟨byte, -, here⟩ := List.mem_flatMap.mp mem
  exact hexPair_free byte here

theorem length_hash (bytes : Bytes) : (bytes.flatMap hexPair).length = 2 * bytes.length := by
  induction bytes with
  | nil => rfl
  | cons byte bytes ih =>
    rw [List.flatMap_cons, List.length_append, ih, List.length_cons]
    have pair : (hexPair byte).length = 2 := rfl
    omega

theorem numeral_free (n : Nat) : unitSeparator ∉ numeral n := by
  obtain ⟨digits, written, small, -⟩ := numeral_digits n
  rw [written]
  intro mem
  obtain ⟨d, inside, here⟩ := List.mem_map.mp mem
  have low := small d inside
  revert here
  interval_cases d <;> decide

theorem length_numeral (n room : Nat) (fits : n < 10 ^ (room + 1)) :
    (numeral n).length ≤ room + 1 := by
  induction room generalizing n with
  | zero =>
    rw [numeral_last (by omega)]
    exact Nat.le_refl _
  | succ room ih =>
    by_cases last : n / 10 = 0
    · rw [numeral_last last]
      exact Nat.le_add_left _ _
    · have fewer : n / 10 < 10 ^ (room + 1) := by
        rw [Nat.pow_succ] at fits
        omega
      have shorter := ih _ fewer
      rw [numeral_step last, List.length_append, List.length_singleton]
      omega

/-- A revision is too short to be taken for a hash. -/
theorem revision_no_hash (a b : Subject) :
    numeral a.revision.toNat ≠ b.contentHash.1.flatMap hexPair := by
  intro same
  have size := length_hash b.contentHash.1
  have fits : a.revision.toNat < 10 ^ (9 + 1) := by
    have small := a.revision.toNat_lt
    omega
  have short := length_numeral _ 9 fits
  rw [b.contentHash.2, ← same] at size
  omega

/-! ## Two keys -/

/-- The same names, cut apart between mission and event in another place. -/
def Regrouped (a b : Subject) : Prop := named a = named b ∧ a.mission ≠ b.mission

/-- The names of `b` go on where the names of `a` end, through the version of `a` and into the
name of its voter, and what is left of that name is the version of `b` and its voter. -/
def Swallowed (a : Subject) (voter : String) (b : Subject) (other : String) : Prop :=
  ∃ more, named b = named a ++ versioned a ++ more ∧
    unitSeparator :: voter.toList = more ++ versioned b ++ unitSeparator :: other.toList

/-- The five fields that a lock is about. -/
def SameVote (a : Subject) (voter : String) (b : Subject) (other : String) : Prop :=
  a.mission = b.mission ∧ a.event = b.event ∧ a.contentHash = b.contentHash ∧
    a.revision = b.revision ∧ voter = other

theorem lockKey_inj {a b : Subject} {voter other : String} :
    lockKey a voter = lockKey b other ↔
      named a ++ (versioned a ++ unitSeparator :: voter.toList) =
        named b ++ (versioned b ++ unitSeparator :: other.toList) := by
  rw [← lockKey_parts, ← lockKey_parts, String.toList_inj]

theorem versioned_inj {a b : Subject} (same : versioned a = versioned b) :
    a.contentHash = b.contentHash ∧ a.revision = b.revision := by
  obtain ⟨hash, revision⟩ := cut_unique (hash_free _) (hash_free _) (List.cons.inj same).2
  refine ⟨Subtype.ext (hexText_injective ?_), ?_⟩
  · rw [hexText, hexText, hash]
  · exact UInt32.toNat_inj.mp (numeral_injective revision)

/-- Where the names end in the same place, the rest of the two keys is the same too. -/
theorem same_rest {a b : Subject} {voter other : String}
    (same : versioned a ++ unitSeparator :: voter.toList =
      versioned b ++ unitSeparator :: other.toList) :
    versioned a = versioned b ∧ voter = other := by
  rw [versioned_append, versioned_append] at same
  obtain ⟨hash, rest⟩ := cut_unique (hash_free _) (hash_free _) (List.cons.inj same).2
  obtain ⟨revision, voters⟩ := cut_unique (numeral_free _) (numeral_free _) rest
  refine ⟨?_, String.toList_inj.mp voters⟩
  rw [versioned, versioned, hash, revision]

/-- Where the names of `b` are longer, they hold the version of `a`. -/
theorem longer_names {a b : Subject} {voter other : String} {y : List Char} (some : y ≠ [])
    (same : versioned a ++ unitSeparator :: voter.toList =
      y ++ (versioned b ++ unitSeparator :: other.toList)) :
    ∃ more, y = versioned a ++ more ∧
      unitSeparator :: voter.toList = more ++ versioned b ++ unitSeparator :: other.toList := by
  cases y with
  | nil => exact absurd rfl some
  | cons c y =>
    rw [versioned_append, versioned_append] at same
    obtain ⟨lead, inner⟩ := List.cons.inj same
    -- what is left of the names begins with the whole hash
    obtain ⟨beyond, extends_hash, rest⟩ := cut_extends (hash_free a.contentHash.1) inner
    cases beyond with
    | nil =>
      -- it cannot end there: the revision would stand where a hash is written
      obtain ⟨digits, -⟩ := cut_unique (numeral_free _) (hash_free _) (List.cons.inj rest).2
      exact absurd digits (revision_no_hash a b)
    | cons d beyond =>
      obtain ⟨separator, next⟩ := List.cons.inj rest
      obtain ⟨more, extends_revision, tail⟩ :=
        cut_extends (numeral_free a.revision.toNat) next
      refine ⟨more, ?_, ?_⟩
      · rw [extends_hash, extends_revision, versioned, ← lead, ← separator]
        simp only [List.cons_append, List.append_assoc]
      · rw [tail, List.append_assoc, versioned_append]

theorem named_inj {a b : Subject} (same : named a = named b) (missions : a.mission = b.mission) :
    a.event = b.event := by
  rw [named, named, missions] at same
  exact String.toList_inj.mp (List.cons.inj (List.append_cancel_left same)).2

/-- Two keys are one exactly for one vote, or for names that hold the separator and shift. -/
theorem lockKey_eq_iff (a b : Subject) (voter other : String) :
    lockKey a voter = lockKey b other ↔
      SameVote a voter b other ∨
        (Regrouped a b ∧ a.contentHash = b.contentHash ∧ a.revision = b.revision ∧
          voter = other) ∨
        Swallowed a voter b other ∨ Swallowed b other a voter := by
  rw [lockKey_inj]
  constructor
  · intro same
    rcases List.append_eq_append_iff.mp same with ⟨y, names, rest⟩ | ⟨y, names, rest⟩
    · by_cases none : y = []
      · rw [none, List.append_nil] at names
        rw [none, List.nil_append] at rest
        obtain ⟨version, voters⟩ := same_rest rest
        obtain ⟨hash, revision⟩ := versioned_inj version
        by_cases missions : a.mission = b.mission
        · exact Or.inl ⟨missions, named_inj names.symm missions, hash, revision, voters⟩
        · exact Or.inr (Or.inl ⟨⟨names.symm, missions⟩, hash, revision, voters⟩)
      · obtain ⟨more, through, tail⟩ := longer_names none rest
        refine Or.inr (Or.inr (Or.inl ⟨more, ?_, tail⟩))
        rw [names, through, List.append_assoc]
    · by_cases none : y = []
      · rw [none, List.append_nil] at names
        rw [none, List.nil_append] at rest
        obtain ⟨version, voters⟩ := same_rest rest.symm
        obtain ⟨hash, revision⟩ := versioned_inj version
        by_cases missions : a.mission = b.mission
        · exact Or.inl ⟨missions, named_inj names missions, hash, revision, voters⟩
        · exact Or.inr (Or.inl ⟨⟨names, missions⟩, hash, revision, voters⟩)
      · obtain ⟨more, through, tail⟩ := longer_names none rest
        refine Or.inr (Or.inr (Or.inr ⟨more, ?_, tail⟩))
        rw [names, through, List.append_assoc]
  · have version {a b : Subject} (hash : a.contentHash = b.contentHash)
        (revision : a.revision = b.revision) : versioned a = versioned b := by
      rw [versioned, versioned, hash, revision]
    have through {a b : Subject} {voter other : String} (inside : Swallowed a voter b other) :
        named a ++ (versioned a ++ unitSeparator :: voter.toList) =
          named b ++ (versioned b ++ unitSeparator :: other.toList) := by
      obtain ⟨more, names, tail⟩ := inside
      rw [names, tail]
      simp only [List.append_assoc]
    rintro (⟨missions, events, hash, revision, rfl⟩ | ⟨⟨names, -⟩, hash, revision, rfl⟩ |
      inside | inside)
    · rw [version hash revision, named, named, missions, events]
    · rw [version hash revision, names]
    · exact through inside
    · exact (through inside).symm

/-- A shifted pair is no one vote. -/
theorem swallowed_apart {a b : Subject} {voter other : String}
    (inside : Swallowed a voter b other) : ¬ (a.mission = b.mission ∧ a.event = b.event) := by
  rintro ⟨missions, events⟩
  obtain ⟨more, names, -⟩ := inside
  have size := congrArg List.length names
  have some : 0 < (versioned a).length := Nat.succ_pos _
  have same : named a = named b := by rw [named, named, missions, events]
  rw [same, List.length_append, List.length_append] at size
  omega

/-- The names of a subject do not hold the separator. -/
def Clean (subject : Subject) : Prop :=
  unitSeparator ∉ subject.mission.toList ∧ unitSeparator ∉ subject.event.toList

theorem clean_regrouped {a b : Subject} (clean : Clean a) (clean' : Clean b) :
    ¬ Regrouped a b := by
  rintro ⟨names, missions⟩
  obtain ⟨same, -⟩ := cut_unique clean.1 clean'.1 names
  exact missions (String.toList_inj.mp same)

theorem clean_swallowed {a b : Subject} {voter other : String} (clean : Clean b) :
    ¬ Swallowed a voter b other := by
  rintro ⟨more, names, -⟩
  have cut : b.mission.toList ++ unitSeparator :: b.event.toList =
      a.mission.toList ++ unitSeparator :: (a.event.toList ++ versioned a ++ more) := by
    rw [← named, names, named]
    simp only [List.append_assoc, List.cons_append]
  obtain ⟨longer, extended, rest⟩ := cut_extends clean.1 cut
  cases longer with
  | nil =>
    apply clean.2
    rw [(List.cons.inj rest).2]
    exact List.mem_append_left _ (List.mem_append_right _ List.mem_cons_self)
  | cons c longer =>
    apply clean.2
    rw [(List.cons.inj rest).2]
    exact List.mem_append_right _ List.mem_cons_self

/-- Between subjects whose names do not hold the separator, a key is one vote. -/
theorem clean_keys {a b : Subject} (clean : Clean a) (clean' : Clean b) (voter other : String) :
    lockKey a voter = lockKey b other ↔ SameVote a voter b other := by
  rw [lockKey_eq_iff]
  constructor
  · rintro (same | ⟨shifted, -⟩ | inside | inside)
    · exact same
    · exact absurd shifted (clean_regrouped clean clean')
    · exact absurd inside (clean_swallowed clean')
    · exact absurd inside (clean_swallowed clean)
  · exact Or.inl

/-- A key identifies the vote exactly for the pairs whose names do not shift into each other. -/
theorem key_identifies (a b : Subject) (voter other : String) :
    (lockKey a voter = lockKey b other ↔ SameVote a voter b other) ↔
      ¬ ((Regrouped a b ∧ a.contentHash = b.contentHash ∧ a.revision = b.revision ∧
          voter = other) ∨
        Swallowed a voter b other ∨ Swallowed b other a voter) := by
  rw [lockKey_eq_iff]
  constructor
  · intro identifies shifted
    obtain ⟨missions, events, -⟩ := identifies.mp (Or.inr shifted)
    rcases shifted with ⟨⟨-, differ⟩, -⟩ | inside | inside
    · exact differ missions
    · exact swallowed_apart inside ⟨missions, events⟩
    · exact swallowed_apart inside ⟨missions.symm, events.symm⟩
  · intro steady
    constructor
    · rintro (same | shifted)
      · exact same
      · exact absurd shifted steady
    · exact Or.inl

/-- One hash, revision and voter, and two cases whose names are cut in two places. -/
theorem key_shared : ∃ a b : Subject,
    Subject.new "m\x1fe" "x" 1 ⟨List.replicate 32 0, rfl⟩ ⟨0⟩ = .ok a ∧
      Subject.new "m" "e\x1fx" 1 ⟨List.replicate 32 0, rfl⟩ ⟨0⟩ = .ok b ∧
      lockKey a "n0" = lockKey b "n0" ∧ a.mission ≠ b.mission ∧ a.event ≠ b.event :=
  ⟨⟨"m\x1fe", "x", 1, ⟨List.replicate 32 0, rfl⟩, ⟨0⟩, by decide⟩,
    ⟨"m", "e\x1fx", 1, ⟨List.replicate 32 0, rfl⟩, ⟨0⟩, by decide⟩,
    rfl, rfl, by decide, by decide, by decide⟩

end LockKeys
