import Lcq.CanonicalForm
import Lcq.EvaluationLaws

/-!
# Every accepted file is a lawful fleet

The parser's own checks and those of the policy, which are written apart, agree:
what is accepted has its members in their seats, everyone under a key and a
label of their own, and a policy of exactly these members.
-/

namespace LawfulFleets

open CanonicalForm Contracts EvaluationLaws FleetFile FleetReading OrderedMap Quorum

/-! ## What a lawful fleet is -/

/-- Nobody shares an index, a label or a key with somebody else. -/
def Distinct (members : List Member) : Prop :=
  members.Pairwise fun m n => m.index ≠ n.index ∧ m.id ≠ n.id ∧ m.key ≠ n.key

/-- A policy of these members, each worth what the file says. -/
structure Stands (m : Manifest) (made : Policy) : Prop where
  accepted : m.policy = .ok made
  names : ∀ label, label ∈ made.members ↔ ∃ member ∈ m.members, member.id = label
  scores : ∀ label score, (made.competenceOf label).map Competence.value = some score ↔
    ∃ member ∈ m.members, member.id = label ∧ member.competence = score
  settings : made.byzantineBps = m.byzantineBps ∧ made.maxCompetenceRatio = m.maxCompetenceRatio

structure Lawful (m : Manifest) : Prop where
  manned : 1 ≤ m.size
  small : m.size ≤ 64
  seated : ∀ (i : Nat) (member : Member), m.members[i]? = some member → member.index.toNat = i
  distinct : Distinct m.members
  window : m.validFrom < m.validUntil
  found : ∀ member ∈ m.members,
    m.idOf member.index.toNat = some member.id ∧ m.keyOf member.index.toNat = some member.key
  nobody : ∀ index, m.size ≤ index → m.idOf index = none ∧ m.keyOf index = none
  stands : ∃ made, Stands m made

variable {isKey : Hash → Bool}

/-! ## Members stay distinct -/

theorem distinct_takes {r s : Reading} {line : List Word} (takes : Takes isKey r line s)
    (distinct : Distinct r.1.members) : Distinct s.1.members := by
  obtain ⟨-, said⟩ := takes
  cases said with
  | member joins =>
    refine List.pairwise_append.mpr ⟨distinct, List.pairwise_singleton _ _, ?_⟩
    intro held mem new last
    rw [List.mem_singleton.mp last]
    exact ⟨joins.index_new held mem, joins.id_new held mem, joins.key_new held mem⟩
  | _ => exact distinct

theorem distinct_reads {r s : Reading} {ls : List (List Word)} (reads : Reads isKey r ls s)
    (distinct : Distinct r.1.members) : Distinct s.1.members := by
  induction reads with
  | nil => exact distinct
  | cons takes _ ih => exact ih (distinct_takes takes distinct)

theorem Distinct.perm {members others : List Member} (distinct : Distinct members)
    (same : members.Perm others) : Distinct others :=
  List.Pairwise.perm distinct same fun {_ _} apart =>
    ⟨apart.1.symm, apart.2.1.symm, apart.2.2.symm⟩

/-! ## The policy -/

theorem lawful_ok {p : Parts} {u : Unit} : p.lawful = .ok u ↔ ∃ made,
    Policy.withSettings (standing p.members) (p.byzantineBps.getD 0)
      (p.maxCompetenceRatio.getD 0) = .ok made := by
  unfold Parts.lawful
  cases Policy.withSettings (standing p.members) (p.byzantineBps.getD 0)
    (p.maxCompetenceRatio.getD 0) <;> simp

theorem stands_of_ok {m : Manifest} {made : Policy} (accepted : m.policy = .ok made) :
    Stands m made := by
  obtain ⟨bps, ratio, -, enrolled⟩ := withSettings_eq_ok accepted
  refine ⟨accepted, fun label => ?_, fun label score => ?_, bps, ratio⟩
  · rw [withSettings_members accepted]
    simp [standing]
  · rw [Policy.competenceOf, enrol_get enrolled]
    simp [standing]

/-- What `Manifest.parse` accepts is a lawful fleet. -/
theorem parse_lawful {text : String} {m : Manifest}
    (parses : Manifest.parse isKey text = .ok m) : Lawful m := by
  obtain ⟨-, formed⟩ := parse_states parses
  simp only [Manifest.parse, bind_ok] at parses
  obtain ⟨parts, read, finishes⟩ := parses
  obtain ⟨v, reads, -, -⟩ := read_ok.mp read
  simp only [Parts.finish, bind_ok] at finishes
  obtain ⟨settled, settles, _, lawful, done⟩ := finishes
  obtain ⟨-, rfl⟩ := settle_ok.mp settles
  obtain ⟨made, accepted⟩ := lawful_ok.mp lawful
  have apart : Distinct parts.members := distinct_reads reads List.Pairwise.nil
  have members : m.members = Parts.sortByIndex parts.members := by
    rw [← Except.ok.inj done]
  have standing : m.policy = .ok made := by
    rw [← Except.ok.inj done]
    exact accepted
  refine ⟨?_, formed.small, formed.seated, ?_, formed.window, ?_, ?_, made,
    stands_of_ok standing⟩
  · exact List.length_pos_iff.mpr formed.manned
  · rw [members]
    exact apart.perm (List.perm_insertionSort _ _).symm
  · intro member mem
    obtain ⟨i, here⟩ := List.mem_iff_getElem?.mp mem
    rw [formed.seated i member here, Manifest.idOf, Manifest.keyOf, here]
    exact ⟨rfl, rfl⟩
  · intro index past
    rw [Manifest.idOf, Manifest.keyOf, List.getElem?_eq_none past]
    exact ⟨rfl, rfl⟩

/-! ## A missing index -/

/-- The line is a member's and its index word is this number. -/
def Names (line : List Word) (seat : Nat) : Prop :=
  ∃ word rest, line = "member" :: word :: rest ∧ Spelling.parse maxU16 word.toList = some seat

theorem names_seatLine (m : Member) (seat : Nat) :
    Names (seatLine m) seat ↔ m.index.toNat = seat := by
  have fits : m.index.toNat ≤ maxU16 := Nat.le_of_lt_succ m.index.toNat_lt
  have spelled := (@Spelling.parse_canonical_iff maxU16 _ _).mpr ⟨fits, rfl⟩
  have word : (decimal m.index.toNat).toList = Spelling.numeral m.index.toNat :=
    String.toList_ofList
  constructor
  · rintro ⟨_, _, same, read⟩
    obtain ⟨-, same⟩ := List.cons_eq_cons.mp same
    obtain ⟨rfl, -⟩ := List.cons_eq_cons.mp same
    rw [word, spelled.2.2] at read
    exact Option.some.inj read
  · rintro rfl
    exact ⟨_, _, rfl, by rw [word, spelled.2.2]⟩

/-- The lines that name an index are those that took a member in. -/
theorem names_reads {r s : Reading} {ls : List (List Word)} (reads : Reads isKey r ls s)
    (seat : Nat) : ((∃ line ∈ ls, Names line seat) ∨ ∃ m ∈ r.1.members, m.index.toNat = seat) ↔
      ∃ m ∈ s.1.members, m.index.toNat = seat := by
  induction reads with
  | nil => simp
  | @cons r s t line rest takes _ ih =>
    have here : (Names line seat ∨ ∃ m ∈ r.1.members, m.index.toNat = seat) ↔
        ∃ m ∈ s.1.members, m.index.toNat = seat := by
      obtain ⟨-, said⟩ := takes
      cases said with
      | @member p v m joins =>
        rw [names_seatLine]
        simp only [List.mem_append, List.mem_singleton, or_and_right, exists_or, exists_eq_left]
        exact or_comm
      | _ => simp [Names]
    rw [← ih, ← here]
    simp only [List.mem_cons, or_and_right, exists_or, exists_eq_left]
    rw [or_assoc, or_left_comm]

/-- The first gap of a strictly ascending list is a number nobody has, below one somebody has. -/
theorem firstGap_some {expected missing : Nat} {members : List Member}
    (ascending : members.Pairwise fun m n => m.index.toNat < n.index.toNat)
    (reached : ∀ m ∈ members, expected ≤ m.index.toNat)
    (found : Parts.firstGap expected members = some missing) :
    expected ≤ missing ∧ (∀ m ∈ members, m.index.toNat ≠ missing) ∧
      ∃ m ∈ members, missing < m.index.toNat := by
  induction members generalizing expected with
  | nil => cases found
  | cons first rest ih =>
    obtain ⟨below, ascending⟩ := List.pairwise_cons.mp ascending
    have here := reached first List.mem_cons_self
    unfold Parts.firstGap at found
    split at found
    · rename_i gap
      cases found
      refine ⟨Nat.le_refl _, ?_, first, List.mem_cons_self, by omega⟩
      intro m mem
      rcases List.mem_cons.mp mem with rfl | later
      · exact gap
      · have := below m later
        omega
    · rename_i seated
      have next : ∀ m ∈ rest, expected + 1 ≤ m.index.toNat := by
        intro m mem
        have := below m mem
        omega
      obtain ⟨le, nobody, larger, mem, lt⟩ := ih ascending next found
      refine ⟨by omega, ?_, larger, List.mem_cons_of_mem _ mem, lt⟩
      intro m held
      rcases List.mem_cons.mp held with rfl | later
      · omega
      · exact nobody m later

theorem sorted_ascending {members : List Member} (distinct : Distinct members) :
    (Parts.sortByIndex members).Pairwise fun m n => m.index.toNat < n.index.toNat := by
  have total : Std.Total fun m n : Member => m.index.toNat ≤ n.index.toNat :=
    ⟨fun m n => Nat.le_total m.index.toNat n.index.toNat⟩
  have trans : IsTrans Member fun m n => m.index.toNat ≤ n.index.toNat :=
    ⟨fun _ _ _ => Nat.le_trans⟩
  have sorted : (Parts.sortByIndex members).Pairwise fun m n => m.index.toNat ≤ n.index.toNat :=
    List.pairwise_insertionSort (fun m n : Member => m.index.toNat ≤ n.index.toNat) members
  have apart : Distinct (Parts.sortByIndex members) :=
    distinct.perm (List.perm_insertionSort _ _).symm
  refine (sorted.and apart).imp ?_
  rintro m n ⟨le, other, -⟩
  exact Nat.lt_of_le_of_ne le fun same => other (UInt16.toNat_inj.mp same)

/-- Does not complain of a missing index. -/
def Ungapped {α : Type} (result : Except ManifestError α) : Prop :=
  ∀ missing size, result ≠ .error (.indicesNotContiguous missing size)

namespace Ungapped

variable {α β : Type}

theorem ok (a : α) : Ungapped (.ok a) := by
  rintro _ _ ⟨⟩

theorem bind {x : Except ManifestError α} {f : α → Except ManifestError β} (first : Ungapped x)
    (rest : ∀ a, Ungapped (f a)) : Ungapped (x >>= f) := by
  cases x with
  | error e =>
    intro missing size same
    exact first missing size (congrArg Except.error (Except.error.inj same))
  | ok a => exact rest a

theorem ite {c : Prop} [Decidable c] {x y : Except ManifestError α} (yes : Ungapped x)
    (no : Ungapped y) : Ungapped (if c then x else y) := by
  split
  · exact yes
  · exact no

end Ungapped

section reading

variable (words : List Word) (word : Word) (line : Nat) (field : String)

theorem ungapped_once (held : Bool) : Ungapped (once held line field) := by
  cases held <;> rintro _ _ ⟨⟩

theorem ungapped_oneWord : Ungapped (oneWord words line field) := by
  unfold oneWord
  split <;> rintro _ _ ⟨⟩

theorem ungapped_canonicalNumber (top : Nat) :
    Ungapped (canonicalNumber top word line field) := by
  unfold canonicalNumber
  refine .ite (by rintro _ _ ⟨⟩) (.ite (by rintro _ _ ⟨⟩) ?_)
  split <;> rintro _ _ ⟨⟩

theorem ungapped_number (top : Nat) : Ungapped (number top words line field) :=
  .bind (ungapped_oneWord _ _ _) fun _ => ungapped_canonicalNumber _ _ _ _

theorem ungapped_bounded : Ungapped (bounded words line field) :=
  .bind (ungapped_number _ _ _ _) fun _ => .ite (.ok _) (by rintro _ _ ⟨⟩)

theorem ungapped_hexBytes (n : Nat) : Ungapped (hexBytes n word line field) := by
  unfold hexBytes
  refine .ite (by rintro _ _ ⟨⟩) ?_
  split
  · rintro _ _ ⟨⟩
  · split <;> rintro _ _ ⟨⟩

theorem ungapped_hexField (n : Nat) : Ungapped (hexField n words line field) :=
  .bind (ungapped_oneWord _ _ _) fun _ => ungapped_hexBytes _ _ _ _

theorem ungapped_checkLabel : Ungapped (checkLabel word line) :=
  .ite (by rintro _ _ ⟨⟩) (.ite (by rintro _ _ ⟨⟩) (.ok _))

theorem ungapped_addMember (parts : Parts) : Ungapped (parts.addMember isKey words line) := by
  unfold Parts.addMember
  split
  · refine .bind (ungapped_canonicalNumber _ _ _ _) fun seat =>
      .bind (ungapped_canonicalNumber _ _ _ _) fun score =>
        .bind (ungapped_hexBytes _ _ _ _) fun key => .ite (by rintro _ _ ⟨⟩) ?_
    refine .bind (ungapped_checkLabel _ _) fun _ => ?_
    exact .ite (by rintro _ _ ⟨⟩) (.ite (by rintro _ _ ⟨⟩) (.ite (by rintro _ _ ⟨⟩) (.ok _)))
  · rintro _ _ ⟨⟩

theorem ungapped_apply (parts : Parts) (v : Option UInt32) :
    Ungapped (parts.apply isKey word words line v) := by
  have once := ungapped_once line
  unfold Parts.apply
  split
  · refine .bind (once _ _) fun _ => .bind (ungapped_number _ _ _ _) fun _ => ?_
    exact .ite (by rintro _ _ ⟨⟩) (.ok _)
  · exact .bind (once _ _) fun _ => .bind (ungapped_bounded _ _ _) fun _ => .ok _
  · exact .bind (once _ _) fun _ => .bind (ungapped_number _ _ _ _) fun _ => .ok _
  · exact .bind (once _ _) fun _ => .bind (ungapped_number _ _ _ _) fun _ => .ok _
  · exact .bind (once _ _) fun _ => .bind (ungapped_hexField _ _ _ _) fun _ => .ok _
  · exact .bind (once _ _) fun _ => .bind (ungapped_number _ _ _ _) fun _ => .ok _
  · exact .bind (once _ _) fun _ => .bind (ungapped_number _ _ _ _) fun _ => .ok _
  · refine .bind (once _ _) fun _ => .bind (ungapped_oneWord _ _ _) fun _ => ?_
    exact .ite (by rintro _ _ ⟨⟩) (.ok _)
  · refine .bind (once _ _) fun _ => .bind (ungapped_bounded _ _ _) fun _ => ?_
    exact .ite (by rintro _ _ ⟨⟩) (.ok _)
  · exact .bind (ungapped_addMember _ _ _) fun _ => .ok _
  · exact .bind (once _ _) fun _ => .bind (ungapped_oneWord _ _ _) fun _ => .ok _
  · exact .bind (ungapped_hexField _ _ _ _) fun _ => .ok _
  · rintro _ _ ⟨⟩

theorem ungapped_inOrder (parts : Parts) (v : Option UInt32) :
    Ungapped (parts.inOrder word line v) := by
  refine .ite (by rintro _ _ ⟨⟩) (.ite ?_ (.ok _))
  exact .ite (by rintro _ _ ⟨⟩) (.ite (by rintro _ _ ⟨⟩) (.ok _))

theorem ungapped_readLines (raws : List (List Char)) (parts : Parts) (v : Option UInt32) :
    Ungapped (Parts.readLines isKey raws line parts v) := by
  induction raws generalizing line parts v with
  | nil => exact .ok _
  | cons raw raws ih =>
    refine .bind (.ite (.ok _) ?_) fun _ => ih _ _ _
    exact .bind (ungapped_inOrder _ _ _ _) fun _ => ungapped_apply _ _ _ _ _

end reading

/-- Reading line by line finds no gap, which shows at the end only. -/
theorem ungapped_read (text : String) (want : Bool) : Ungapped (Parts.read isKey text want) :=
  .bind (ungapped_readLines _ _ _ _) fun _ =>
    .ite (by rintro _ _ ⟨⟩) (.ite (by rintro _ _ ⟨⟩) (.ok _))

theorem settle_gap {p : Parts} {missing size : Nat}
    (failed : p.settle = .error (.indicesNotContiguous missing size)) :
    Parts.firstGap 0 (Parts.sortByIndex p.members) = some missing := by
  unfold Parts.settle at failed
  split at failed
  · cases failed
  · dsimp only at failed
    split at failed
    · cases failed
    · split at failed
      · cases failed
      · split at failed
        · cases failed
        · split at failed
          · rename_i found
            cases failed
            exact found
          · cases failed

/-- A complaint of a missing index comes behind a text that was read to its end. -/
theorem parse_gap {text : String} {missing size : Nat}
    (failed : Manifest.parse isKey text = .error (.indicesNotContiguous missing size)) :
    ∃ parts, Parts.read isKey text true = .ok parts ∧
      Parts.firstGap 0 (Parts.sortByIndex parts.members) = some missing := by
  unfold Manifest.parse at failed
  cases read : Parts.read isKey text true with
  | error e =>
    rw [read] at failed
    cases failed
    exact absurd read (ungapped_read _ _ _ _)
  | ok parts =>
    rw [read] at failed
    change parts.finish = _ at failed
    unfold Parts.finish at failed
    cases settles : parts.settle with
    | error e =>
      rw [settles] at failed
      cases failed
      exact ⟨parts, rfl, settle_gap settles⟩
    | ok settled =>
      rw [settles] at failed
      change (settled.lawful >>= _) = _ at failed
      unfold Parts.lawful at failed
      split at failed <;> cases failed

/-- An accepted text is a lawful fleet, and one refused for a missing index has a member line
for a larger one and none for it. -/
theorem parsed_fleet (isKey : Hash → Bool) (text : String) :
    (∀ m, Manifest.parse isKey text = .ok m → Lawful m) ∧
    ∀ missing size, Manifest.parse isKey text = .error (.indicesNotContiguous missing size) →
      (∀ line ∈ contentLines text, ¬ Names line missing) ∧
        ∃ line ∈ contentLines text, ∃ larger, missing < larger ∧ Names line larger := by
  refine ⟨fun m parses => parse_lawful parses, fun missing size failed => ?_⟩
  obtain ⟨parts, read, found⟩ := parse_gap failed
  obtain ⟨v, reads, -, -⟩ := read_ok.mp read
  have named (seat : Nat) : (∃ line ∈ contentLines text, Names line seat) ↔
      ∃ m ∈ parts.members, m.index.toNat = seat := by
    rw [← names_reads reads seat]
    simp [Parts.nothing]
  have ascending := sorted_ascending (distinct_reads reads List.Pairwise.nil)
  have sorted (m : Member) : m ∈ Parts.sortByIndex parts.members ↔ m ∈ parts.members :=
    List.mem_insertionSort _
  obtain ⟨-, nobody, larger, mem, lt⟩ :=
    firstGap_some ascending (fun _ _ => Nat.zero_le _) found
  constructor
  · intro line listed names
    obtain ⟨m, held, same⟩ := (named missing).mp ⟨line, listed, names⟩
    exact nobody m ((sorted m).mpr held) same
  · obtain ⟨line, listed, names⟩ := (named _).mpr ⟨larger, (sorted larger).mp mem, rfl⟩
    exact ⟨line, listed, _, lt, names⟩

/-- A fleet whose only member sits in the second seat. -/
def gapped : List Char :=
  header ++ "group-key ".toList ++ List.replicate 62 '0' ++ "a1\nbyzantine-bps 0\n".toList
    ++ "max-competence-ratio 3\n".toList ++ "phy-profile eu868-sf10-v1\n".toList
    ++ "heard-capacity 64\nmember 1 100 ".toList ++ List.replicate 62 '0' ++ "ff ship-a\n".toList
    ++ "signature ".toList ++ List.replicate 128 '0'

theorem parsed_fleet_single :
    (∃ m, Manifest.parse (fun _ => true) (.ofList (manned header)) = .ok m ∧ Lawful m) ∧
    ∃ line ∈ contentLines (.ofList gapped), ∃ larger, 0 < larger ∧ Names line larger := by
  have ok : (Manifest.parse (fun _ => true) (.ofList (manned header))).isOk = true := by
    simp only [Manifest.parse, Parts.read, String.toList_ofList]
    decide +kernel
  have failed : Manifest.parse (fun _ => true) (.ofList gapped) =
      .error (.indicesNotContiguous 0 1) := by
    simp only [Manifest.parse, Parts.read, String.toList_ofList]
    decide +kernel
  refine ⟨?_, ((parsed_fleet _ _).2 0 1 failed).2⟩
  cases parses : Manifest.parse (fun _ => true) (.ofList (manned header)) with
  | error e =>
    rw [parses] at ok
    cases ok
  | ok m => exact ⟨m, rfl, (parsed_fleet _ _).1 m parses⟩

end LawfulFleets
