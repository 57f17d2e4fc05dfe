import Lcq.FleetFile

/-!
# What a line of a manifest says

A line is read if it says one of twelve things, each in one spelling, where it
may be said. A text is read line by line, and nothing of a line matters but its
words.
-/

namespace FleetReading

open ByteFormat Contracts FleetFile Quorum Spelling TextLines Wire

/-! ## Fields -/

theorem bind_ok {ε α β : Type} {a : Except ε α} {f : α → Except ε β} {b : β} :
    (a >>= f) = .ok b ↔ ∃ x, a = .ok x ∧ f x = .ok b := by
  cases a with
  | error e =>
    constructor
    · nofun
    · rintro ⟨_, ⟨⟩, _⟩
  | ok x =>
    constructor
    · exact fun rest => ⟨x, rfl, rest⟩
    · rintro ⟨_, ⟨⟩, rest⟩
      exact rest

theorem once_ok {held : Bool} {line : Nat} {directive : String} {u : Unit} :
    once held line directive = .ok u ↔ held = false := by
  cases held <;> simp [once]

theorem oneWord_ok {words : List Word} {line : Nat} {expected : String} {word : Word} :
    oneWord words line expected = .ok word ↔ words = [word] := by
  unfold oneWord
  split
  · simp
  · rename_i other
    simp only [reduceCtorEq, false_iff]
    exact fun single => other word single

/-- The spelling of a number, as a word. -/
def decimal (n : Nat) : Word := String.ofList (numeral n)

theorem decimal_injective {n m : Nat} (same : decimal n = decimal m) : n = m :=
  numeral_injective (String.ofList_inj.mp same)

theorem canonicalNumber_ok {top : Nat} {word : Word} {line : Nat} {field : String} {n : Nat} :
    canonicalNumber top word line field = .ok n ↔ n ≤ top ∧ word = decimal n := by
  have spelled := @parse_canonical_iff top n word.toList
  have as_word : word.toList = numeral n ↔ word = decimal n := by
    rw [decimal, ← String.toList_inj, String.toList_ofList]
  rw [as_word] at spelled
  rw [← spelled, canonicalNumber]
  cases signed word.toList with
  | true => simp
  | false =>
    cases padded word.toList with
    | true => simp
    | false => cases Spelling.parse top word.toList <;> simp

theorem number_ok {top : Nat} {words : List Word} {line : Nat} {field : String} {n : Nat} :
    number top words line field = .ok n ↔ n ≤ top ∧ words = [decimal n] := by
  simp only [number, bind_ok, oneWord_ok, canonicalNumber_ok]
  constructor
  · rintro ⟨word, rfl, fits, rfl⟩
    exact ⟨fits, rfl⟩
  · rintro ⟨fits, rfl⟩
    exact ⟨_, rfl, fits, rfl⟩

theorem bounded_ok {words : List Word} {line : Nat} {field : String} {value : UInt16} :
    bounded words line field = .ok value ↔ words = [decimal value.toNat] := by
  simp only [bounded, bind_ok, number_ok]
  constructor
  · rintro ⟨n, ⟨-, rfl⟩, narrow⟩
    split at narrow
    · rename_i small
      cases narrow
      rw [UInt16.toNat_ofNat_of_lt' (Nat.lt_succ_of_le small)]
    · cases narrow
  · rintro rfl
    have small := value.toNat_lt
    refine ⟨value.toNat, ⟨?_, rfl⟩, ?_⟩
    · rw [maxU32]
      omega
    · rw [if_pos (show value.toNat ≤ maxU16 from Nat.le_of_lt_succ small), UInt16.ofNat_toNat]

theorem hexBytes_ok {n : Nat} {word : Word} {line : Nat} {field : String}
    {value : {bytes : Bytes // bytes.length = n}} :
    hexBytes n word line field = .ok value ↔ word = hexText value.1 := by
  obtain ⟨bytes, size⟩ := value
  constructor
  · intro read
    unfold hexBytes at read
    split at read
    · cases read
    · split at read
      · cases read
      · rename_i found
        split at read
        · cases read
          exact asBytes_injective (hexPairs_eq_some.mp found)
        · cases read
  · rintro rfl
    have long : (asBytes (hexText bytes)).length = n * 2 := by
      rw [length_hexText, size, Nat.mul_comm]
    simp only [hexBytes, long, hexPairs_hexText, size]
    simp

theorem hexField_ok {n : Nat} {words : List Word} {line : Nat} {field : String}
    {value : {bytes : Bytes // bytes.length = n}} :
    hexField n words line field = .ok value ↔ words = [hexText value.1] := by
  simp only [hexField, bind_ok, oneWord_ok, hexBytes_ok]
  constructor
  · rintro ⟨word, rfl, rfl⟩
    rfl
  · rintro rfl
    exact ⟨_, rfl, rfl⟩

/-- A label of one to 32 letters, digits, dashes and underscores. -/
def Labelled (id : Word) : Prop :=
  asBytes id ≠ [] ∧ (asBytes id).length ≤ maxLabelBytes ∧ (asBytes id).all labelByte = true

theorem checkLabel_ok {id : Word} {line : Nat} {u : Unit} :
    checkLabel id line = .ok u ↔ Labelled id := by
  unfold checkLabel Labelled
  split
  · rename_i long
    simp only [reduceCtorEq, false_iff]
    omega
  · rename_i short
    split
    · rename_i bad
      simp only [reduceCtorEq, false_iff]
      rintro ⟨some, -, letters⟩
      rcases bad with none | other
      · exact some none
      · rw [letters] at other
        cases other
    · rename_i good
      simp only [true_iff]
      refine ⟨fun none => good (Or.inl none), Nat.not_lt.mp short, ?_⟩
      exact Bool.not_eq_false _ |>.mp fun other => good (Or.inr other)

/-! ## Lines -/

variable {isKey : Hash → Bool}

/-- A seat nobody has, under a label and a key nobody has. -/
structure Joins (isKey : Hash → Bool) (members : List Member) (m : Member) : Prop where
  key : isKey m.key = true
  label : Labelled m.id
  index_new : ∀ held ∈ members, held.index ≠ m.index
  id_new : ∀ held ∈ members, held.id ≠ m.id
  key_new : ∀ held ∈ members, held.key ≠ m.key

/-- The words that take a member in. -/
def seatLine (m : Member) : List Word :=
  ["member", decimal m.index.toNat, decimal m.competence.toNat, hexText m.key.1, m.id]

theorem none_alike {α : Type} {members : List Member} {field : Member → α} [DecidableEq α]
    {value : α} : (members.any fun held => decide (field held = value)) = false ↔
      ∀ held ∈ members, field held ≠ value := by
  simp

theorem addMember_ok {parts : Parts} {words : List Word} {line : Nat} {parts' : Parts} :
    parts.addMember isKey words line = .ok parts' ↔
      ∃ m, Joins isKey parts.members m ∧ "member" :: words = seatLine m ∧
        parts' = { parts with members := parts.members ++ [m] } := by
  constructor
  · intro read
    unfold Parts.addMember at read
    split at read
    · rename_i index competence key id
      simp only [bind_ok, canonicalNumber_ok, hexBytes_ok] at read
      obtain ⟨seat, ⟨seat_fits, rfl⟩, score, ⟨score_fits, rfl⟩, key, rfl, read⟩ := read
      have seat_whole : (UInt16.ofNat seat).toNat = seat :=
        UInt16.toNat_ofNat_of_lt' (Nat.lt_succ_of_le seat_fits)
      have score_whole : (UInt8.ofNat score).toNat = score :=
        UInt8.toNat_ofNat_of_lt' (Nat.lt_succ_of_le score_fits)
      split at read
      · cases read
      · rename_i known
        simp only [bind_ok, checkLabel_ok] at read
        obtain ⟨_, labelled, read⟩ := read
        split at read
        · cases read
        · rename_i index_new
          split at read
          · cases read
          · rename_i id_new
            split at read
            · cases read
            · rename_i key_new
              cases read
              refine ⟨⟨.ofNat seat, .ofNat score, key, id⟩, ⟨?_, labelled, ?_, ?_, ?_⟩, ?_, rfl⟩
              · simpa using known
              · exact none_alike.mp (Bool.eq_false_iff.mpr index_new)
              · exact none_alike.mp (Bool.eq_false_iff.mpr id_new)
              · exact none_alike.mp (Bool.eq_false_iff.mpr key_new)
              · rw [seatLine, seat_whole, score_whole]
    · cases read
  · rintro ⟨⟨index, competence, key, id⟩, joins, shape, rfl⟩
    cases shape
    have index_fits : index.toNat ≤ maxU16 := Nat.le_of_lt_succ index.toNat_lt
    have score_fits : competence.toNat ≤ maxU8 := Nat.le_of_lt_succ competence.toNat_lt
    have index_new := none_alike.mpr joins.index_new
    have id_new := none_alike.mpr joins.id_new
    have key_new := none_alike.mpr joins.key_new
    simp only [Parts.addMember, bind_ok, canonicalNumber_ok, hexBytes_ok]
    refine ⟨index.toNat, ⟨index_fits, rfl⟩, competence.toNat, ⟨score_fits, rfl⟩, key, rfl, ?_⟩
    rw [if_neg (by simp [joins.key])]
    simp only [bind_ok, checkLabel_ok, UInt16.ofNat_toNat, UInt8.ofNat_toNat]
    refine ⟨(), joins.label, ?_⟩
    rw [if_neg (by rw [index_new]; nofun), if_neg (by rw [id_new]; nofun),
      if_neg (by rw [key_new]; nofun)]

/-- What a reader knows: the parts, and the version if it has been named. -/
abbrev Reading := Parts × Option UInt32

/-- The twelve things a line can say, and what is known behind it. -/
inductive Says (isKey : Hash → Bool) : Reading → List Word → Reading → Prop
  | version {p : Parts} : Says isKey (p, none) ["version", "2"] (p, some manifestVersion)
  | epoch {p : Parts} {v : Option UInt32} (fresh : p.epoch = none) (value : UInt16) :
      Says isKey (p, v) ["epoch", decimal value.toNat] ({ p with epoch := some value }, v)
  | validFrom {p : Parts} {v : Option UInt32} (fresh : p.validFrom = none) (value : UInt64) :
      Says isKey (p, v) ["valid-from", decimal value.toNat]
        ({ p with validFrom := some value }, v)
  | validUntil {p : Parts} {v : Option UInt32} (fresh : p.validUntil = none) (value : UInt64) :
      Says isKey (p, v) ["valid-until", decimal value.toNat]
        ({ p with validUntil := some value }, v)
  | groupKey {p : Parts} {v : Option UInt32} (fresh : p.groupKeyId = none) (value : Hash) :
      Says isKey (p, v) ["group-key", hexText value.1] ({ p with groupKeyId := some value }, v)
  | byzantineBps {p : Parts} {v : Option UInt32} (fresh : p.byzantineBps = none)
      (value : UInt32) :
      Says isKey (p, v) ["byzantine-bps", decimal value.toNat]
        ({ p with byzantineBps := some value }, v)
  | maxCompetenceRatio {p : Parts} {v : Option UInt32} (fresh : p.maxCompetenceRatio = none)
      (value : UInt32) :
      Says isKey (p, v) ["max-competence-ratio", decimal value.toNat]
        ({ p with maxCompetenceRatio := some value }, v)
  | phyProfile {p : Parts} {v : Option UInt32} (fresh : p.phyProfile = none) :
      Says isKey (p, v) ["phy-profile", phyProfileName]
        ({ p with phyProfile := some phyProfileName }, v)
  | heardCapacity {p : Parts} {v : Option UInt32} (fresh : p.heardCapacity = none) :
      Says isKey (p, v) ["heard-capacity", "64"] ({ p with heardCapacity := some 64 }, v)
  | member {p : Parts} {v : Option UInt32} {m : Member} (joins : Joins isKey p.members m) :
      Says isKey (p, v) (seatLine m) ({ p with members := p.members ++ [m] }, v)
  | issuer {p : Parts} {v : Option UInt32} (fresh : p.issuer = none) (word : Word) :
      Says isKey (p, v) ["issuer", word] ({ p with issuer := some word }, v)
  | signature {p : Parts} {v : Option UInt32} (value : Signature) :
      Says isKey (p, v) ["signature", hexText value.1] ({ p with signature := some value }, v)

theorem isSome_eq_false {α : Type} {o : Option α} : o.isSome = false ↔ o = none := by
  cases o <;> simp

theorem fits32 (value : UInt32) : value.toNat ≤ maxU32 := Nat.le_of_lt_succ value.toNat_lt

theorem fits64 (value : UInt64) : value.toNat ≤ maxU64 := Nat.le_of_lt_succ value.toNat_lt

theorem narrow32 {n : Nat} (fits : n ≤ maxU32) : ∃ value : UInt32, n = value.toNat :=
  ⟨.ofNat n, (UInt32.toNat_ofNat_of_lt' (Nat.lt_succ_of_le fits)).symm⟩

theorem narrow64 {n : Nat} (fits : n ≤ maxU64) : ∃ value : UInt64, n = value.toNat :=
  ⟨.ofNat n, (UInt64.toNat_ofNat_of_lt' (Nat.lt_succ_of_le fits)).symm⟩

theorem decimal_version : decimal manifestVersion.toNat = "2" := by
  simp [decimal, numeral, manifestVersion]
  rfl

theorem decimal_capacity : decimal (64 : UInt16).toNat = "64" := by
  simp [decimal, numeral]
  rfl

/-- A line is read exactly if it says something, and what is known then is what it says. -/
theorem apply_ok {p : Parts} {v : Option UInt32} {directive : Word} {words : List Word}
    {line : Nat} {r : Reading} :
    p.apply isKey directive words line v = .ok r ↔ Says isKey (p, v) (directive :: words) r := by
  constructor
  · intro read
    unfold Parts.apply at read
    split at read
    · simp only [bind_ok, once_ok, number_ok, isSome_eq_false] at read
      obtain ⟨_, rfl, n, ⟨fits, rfl⟩, known⟩ := read
      obtain ⟨value, rfl⟩ := narrow32 fits
      rw [UInt32.ofNat_toNat] at known
      split at known
      · cases known
      · rename_i current
        cases known
        rw [not_not.mp current, decimal_version]
        exact .version
    · simp only [bind_ok, once_ok, bounded_ok, isSome_eq_false] at read
      obtain ⟨_, fresh, value, rfl, ⟨⟩⟩ := read
      exact .epoch fresh value
    · simp only [bind_ok, once_ok, number_ok, isSome_eq_false] at read
      obtain ⟨_, fresh, n, ⟨fits, rfl⟩, ⟨⟩⟩ := read
      obtain ⟨value, rfl⟩ := narrow64 fits
      rw [UInt64.ofNat_toNat]
      exact .validFrom fresh value
    · simp only [bind_ok, once_ok, number_ok, isSome_eq_false] at read
      obtain ⟨_, fresh, n, ⟨fits, rfl⟩, ⟨⟩⟩ := read
      obtain ⟨value, rfl⟩ := narrow64 fits
      rw [UInt64.ofNat_toNat]
      exact .validUntil fresh value
    · simp only [bind_ok, once_ok, hex32, hexField_ok, isSome_eq_false] at read
      obtain ⟨_, fresh, value, rfl, ⟨⟩⟩ := read
      exact .groupKey fresh value
    · simp only [bind_ok, once_ok, number_ok, isSome_eq_false] at read
      obtain ⟨_, fresh, n, ⟨fits, rfl⟩, ⟨⟩⟩ := read
      obtain ⟨value, rfl⟩ := narrow32 fits
      rw [UInt32.ofNat_toNat]
      exact .byzantineBps fresh value
    · simp only [bind_ok, once_ok, number_ok, isSome_eq_false] at read
      obtain ⟨_, fresh, n, ⟨fits, rfl⟩, ⟨⟩⟩ := read
      obtain ⟨value, rfl⟩ := narrow32 fits
      rw [UInt32.ofNat_toNat]
      exact .maxCompetenceRatio fresh value
    · simp only [bind_ok, once_ok, oneWord_ok, isSome_eq_false] at read
      obtain ⟨_, fresh, word, rfl, known⟩ := read
      split at known
      · cases known
      · rename_i flown
        cases known
        rw [not_not.mp flown]
        exact .phyProfile fresh
    · simp only [bind_ok, once_ok, bounded_ok, isSome_eq_false] at read
      obtain ⟨_, fresh, value, rfl, known⟩ := read
      split at known
      · cases known
      · rename_i built
        cases known
        have whole : value = 64 := UInt16.toNat_inj.mp (not_not.mp built)
        rw [whole, decimal_capacity]
        exact .heardCapacity fresh
    · simp only [bind_ok, addMember_ok] at read
      obtain ⟨_, ⟨m, joins, shape, rfl⟩, ⟨⟩⟩ := read
      rw [shape]
      exact .member joins
    · simp only [bind_ok, once_ok, oneWord_ok, isSome_eq_false] at read
      obtain ⟨_, fresh, word, rfl, ⟨⟩⟩ := read
      exact .issuer fresh word
    · simp only [bind_ok, hex64, hexField_ok] at read
      obtain ⟨value, rfl, ⟨⟩⟩ := read
      exact .signature value
    · cases read
  · intro said
    cases said with
    | version =>
      simp only [Parts.apply, bind_ok, once_ok, number_ok]
      refine ⟨(), rfl, 2, ⟨by decide, ?_⟩, rfl⟩
      exact congrArg (fun word => [word]) decimal_version.symm
    | epoch fresh value =>
      simp only [Parts.apply, bind_ok, once_ok, bounded_ok, fresh]
      exact ⟨(), rfl, value, rfl, rfl⟩
    | validFrom fresh value =>
      simp only [Parts.apply, bind_ok, once_ok, number_ok, fresh]
      exact ⟨(), rfl, value.toNat, ⟨fits64 value, rfl⟩, by rw [UInt64.ofNat_toNat]⟩
    | validUntil fresh value =>
      simp only [Parts.apply, bind_ok, once_ok, number_ok, fresh]
      exact ⟨(), rfl, value.toNat, ⟨fits64 value, rfl⟩, by rw [UInt64.ofNat_toNat]⟩
    | groupKey fresh value =>
      simp only [Parts.apply, bind_ok, once_ok, hex32, hexField_ok, fresh]
      exact ⟨(), rfl, value, rfl, rfl⟩
    | byzantineBps fresh value =>
      simp only [Parts.apply, bind_ok, once_ok, number_ok, fresh]
      exact ⟨(), rfl, value.toNat, ⟨fits32 value, rfl⟩, by rw [UInt32.ofNat_toNat]⟩
    | maxCompetenceRatio fresh value =>
      simp only [Parts.apply, bind_ok, once_ok, number_ok, fresh]
      exact ⟨(), rfl, value.toNat, ⟨fits32 value, rfl⟩, by rw [UInt32.ofNat_toNat]⟩
    | phyProfile fresh =>
      simp only [Parts.apply, bind_ok, once_ok, oneWord_ok, fresh]
      exact ⟨(), rfl, phyProfileName, rfl, rfl⟩
    | heardCapacity fresh =>
      simp only [Parts.apply, bind_ok, once_ok, bounded_ok, fresh]
      exact ⟨(), rfl, 64, congrArg (fun word => [word]) decimal_capacity.symm, rfl⟩
    | @member p v m joins =>
      simp only [Parts.apply, bind_ok, addMember_ok]
      exact ⟨_, ⟨m, joins, rfl, rfl⟩, rfl⟩
    | issuer fresh word =>
      simp only [Parts.apply, bind_ok, once_ok, oneWord_ok, fresh]
      exact ⟨(), rfl, word, rfl, rfl⟩
    | signature value =>
      simp only [Parts.apply, bind_ok, hex64, hexField_ok]
      exact ⟨value, rfl, rfl⟩

/-! ## Texts -/

def wordsOf (raw : List Char) : List Word := (words raw).map String.ofList

def isHeader (directive : Word) : Prop :=
  directive ≠ "member" ∧ directive ≠ "issuer" ∧ directive ≠ "signature"

instance (directive : Word) : Decidable (isHeader directive) :=
  inferInstanceAs (Decidable (_ ∧ _))

/-- The directive may stand here. -/
def Admits (r : Reading) (directive : Word) : Prop :=
  r.1.signature = none ∧
    (isHeader directive → r.1.members = [] ∧ (directive ≠ "version" → r.2 ≠ none))

/-- The line may stand here and says something. -/
def Takes (isKey : Hash → Bool) (r : Reading) (line : List Word) (r' : Reading) : Prop :=
  Admits r (line.headD "") ∧ Says isKey r line r'

theorem inOrder_ok {p : Parts} {v : Option UInt32} {directive : Word} {line : Nat} {u : Unit} :
    p.inOrder directive line v = .ok u ↔ Admits (p, v) directive := by
  unfold Parts.inOrder Admits
  cases signed : p.signature with
  | some value => simp
  | none =>
    by_cases header : isHeader directive
    · have written : directive ≠ "member" ∧ directive ≠ "issuer" ∧ directive ≠ "signature" := header
      by_cases members : p.members = []
      · by_cases early : directive ≠ "version" ∧ v = none
        · simp [header, written, members, early]
        · have named : directive ≠ "version" → v ≠ none := fun other none => early ⟨other, none⟩
          simp only [Option.isSome_none, Bool.false_eq_true, if_false, if_pos written, members,
            ne_eq, not_true_eq_false]
          rw [if_neg early]
          simp only [true_and, true_iff]
          exact fun _ => named
      · simp [header, written, members]
    · have other : ¬ (directive ≠ "member" ∧ directive ≠ "issuer" ∧ directive ≠ "signature") :=
        header
      simp [header, other]

theorem wordsOf_eq_nil {raw : List Char} : wordsOf raw = [] ↔ words raw = [] := by
  simp [wordsOf]

theorem readLine_ok {p : Parts} {v : Option UInt32} {raw : List Char} {line : Nat} {r : Reading} :
    p.readLine isKey raw line v = .ok r ↔
      wordsOf raw = [] ∧ r = (p, v) ∨ wordsOf raw ≠ [] ∧ Takes isKey (p, v) (wordsOf raw) r := by
  have none := trim_eq_nil (uncommented raw)
  have same := splitWhitespace_trim (uncommented raw)
  simp only [Parts.readLine, none, same]
  by_cases blank : splitWhitespace (uncommented raw) = []
  · have blank' : wordsOf raw = [] := wordsOf_eq_nil.mpr blank
    rw [if_pos blank]
    constructor
    · rintro ⟨⟩
      exact Or.inl ⟨blank', rfl⟩
    · rintro (⟨-, rfl⟩ | ⟨some, -⟩)
      · rfl
      · exact absurd blank' some
  · have some : wordsOf raw ≠ [] := fun none => blank (wordsOf_eq_nil.mp none)
    rw [if_neg blank]
    change _ ↔ wordsOf raw = [] ∧ _ ∨ _
    simp only [some, false_and, false_or, ne_eq, not_false_eq_true, true_and, bind_ok, inOrder_ok,
      apply_ok]
    change (∃ u, Admits (p, v) ((wordsOf raw).headD "") ∧
      Says isKey (p, v) ((wordsOf raw).headD "" :: (wordsOf raw).tail) r) ↔ _
    cases split : wordsOf raw with
    | nil => exact absurd split some
    | cons directive rest => simp [Takes]

/-- A reader goes through the lines that have words. -/
inductive Reads (isKey : Hash → Bool) : Reading → List (List Word) → Reading → Prop
  | nil {r : Reading} : Reads isKey r [] r
  | cons {r s t : Reading} {line : List Word} {rest : List (List Word)}
      (takes : Takes isKey r line s) (reads : Reads isKey s rest t) :
      Reads isKey r (line :: rest) t

theorem Reads.append {r s t : Reading} {front back : List (List Word)}
    (first : Reads isKey r front s) (second : Reads isKey s back t) :
    Reads isKey r (front ++ back) t := by
  induction first with
  | nil => exact second
  | cons takes _ ih => exact .cons takes (ih second)

theorem Reads.split {r t : Reading} {front back : List (List Word)}
    (reads : Reads isKey r (front ++ back) t) :
    ∃ s, Reads isKey r front s ∧ Reads isKey s back t := by
  induction front generalizing r with
  | nil => exact ⟨r, .nil, reads⟩
  | cons line front ih =>
    cases reads with
    | cons takes rest =>
      obtain ⟨s, first, second⟩ := ih rest
      exact ⟨s, .cons takes first, second⟩

/-- The words of each line that has any. -/
def contents (raws : List (List Char)) : List (List Word) :=
  (raws.map wordsOf).filter fun line => decide (line ≠ [])

theorem readLines_ok {raws : List (List Char)} {line : Nat} {p : Parts} {v : Option UInt32}
    {r : Reading} :
    Parts.readLines isKey raws line p v = .ok r ↔ Reads isKey (p, v) (contents raws) r := by
  induction raws generalizing line p v with
  | nil =>
    simp only [Parts.readLines, contents, List.map_nil, List.filter_nil, Except.ok.injEq]
    constructor
    · rintro rfl
      exact .nil
    · rintro ⟨⟩
      rfl
  | cons raw raws ih =>
    simp only [Parts.readLines, bind_ok, readLine_ok]
    by_cases blank : wordsOf raw = []
    · have rest : contents (raw :: raws) = contents raws := by simp [contents, blank]
      rw [rest, ← @ih (line + 1)]
      constructor
      · rintro ⟨s, ⟨-, rfl⟩ | ⟨some, -⟩, later⟩
        · exact later
        · exact absurd blank some
      · exact fun later => ⟨(p, v), Or.inl ⟨blank, rfl⟩, later⟩
    · have rest : contents (raw :: raws) = wordsOf raw :: contents raws := by
        simp [contents, blank]
      rw [rest]
      constructor
      · rintro ⟨s, ⟨none, -⟩ | ⟨-, takes⟩, later⟩
        · exact absurd none blank
        · exact .cons takes (ih.mp later)
      · rintro ⟨⟩
        rename_i s takes later
        exact ⟨s, Or.inr ⟨blank, takes⟩, ih.mpr later⟩

/-- The lines of a text, without comments and blank lines, as words. -/
def contentLines (text : String) : List (List Word) := contents (lines text.toList)

theorem read_ok {text : String} {want : Bool} {parts : Parts} :
    Parts.read isKey text want = .ok parts ↔
      ∃ v, Reads isKey (.nothing, none) (contentLines text) (parts, v) ∧ v ≠ none ∧
        (want = true → parts.signature ≠ none) := by
  simp only [Parts.read, bind_ok, readLines_ok]
  constructor
  · rintro ⟨⟨p, v⟩, reads, rest⟩
    split at rest
    · cases rest
    · rename_i named
      split at rest
      · cases rest
      · rename_i signed
        cases rest
        exact ⟨v, reads, named, fun want none => signed ⟨want, none⟩⟩
  · rintro ⟨v, reads, named, signed⟩
    refine ⟨(parts, v), reads, ?_⟩
    rw [if_neg named, if_neg fun unsigned => signed unsigned.1 unsigned.2]

/-! ## Settling -/

/-- What the structure of a manifest requires of its parts. -/
structure Settles (p : Parts) : Prop where
  complete : p.missing = none
  window : p.validFrom.getD 0 < p.validUntil.getD 0
  manned : p.members ≠ []
  small : p.members.length ≤ Heard.capacity
  seated : Parts.firstGap 0 (Parts.sortByIndex p.members) = none

theorem settle_ok {p q : Parts} :
    p.settle = .ok q ↔ Settles p ∧ q = { p with members := Parts.sortByIndex p.members } := by
  constructor
  · intro settled
    unfold Parts.settle at settled
    split at settled
    · cases settled
    · rename_i complete
      dsimp only at settled
      split at settled
      · cases settled
      · rename_i window
        split at settled
        · cases settled
        · rename_i manned
          split at settled
          · cases settled
          · rename_i small
            split at settled
            · cases settled
            · rename_i seated
              cases settled
              exact ⟨⟨complete, UInt64.not_le.mp window, manned, Nat.not_lt.mp small, seated⟩, rfl⟩
  · rintro ⟨⟨complete, window, manned, small, seated⟩, rfl⟩
    simp only [Parts.settle, complete, seated]
    rw [if_neg (UInt64.not_le.mpr window), if_neg manned, if_neg (Nat.not_lt.mpr small)]

end FleetReading
