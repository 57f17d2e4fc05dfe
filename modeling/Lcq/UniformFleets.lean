import Lcq.EvaluationLaws
import Lcq.LockKeys
import Lcq.Scenarios

/-!
# The laboratory's fleet

Members have names of their own and are worth the same, so that both thresholds
come down to how many of them there are. Their keys are told apart.
-/

namespace UniformFleets

open ByteFormat Contracts EvaluationLaws LockKeys OrderedMap Quorum Scenarios SimAdmission Spelling
open Wire

/-! ## Names -/

theorem memberId_injective {i j : Nat} (small : i < 2 ^ 64) (small' : j < 2 ^ 64)
    (same : memberId i = memberId j) : i = j := by
  have spelled (k : Nat) (fits : k < 2 ^ 64) :
      JournalRecords.decimal 20 k [] = numeral k := by
    rw [decimal_numeral 19 k [] (by omega), List.append_nil]
  have letters := (List.cons.injEq ..).mp (String.ofList_inj.mp same)
  rw [spelled i small, spelled j small'] at letters
  exact numeral_injective letters.2

theorem mem_standing (fleet : Nat) (name : String) (score : UInt8) :
    (name, score) ∈ standing fleet ↔ (∃ i < fleet, name = memberId i) ∧ score = 100 := by
  rw [standing, List.mem_map]
  constructor
  · rintro ⟨i, inside, same⟩
    rw [Prod.mk.injEq] at same
    exact ⟨⟨i, List.mem_range.mp inside, same.1.symm⟩, same.2.symm⟩
  · rintro ⟨⟨i, inside, rfl⟩, rfl⟩
    exact ⟨i, List.mem_range.mpr inside, rfl⟩

theorem standing_names (fleet : Nat) :
    (standing fleet).map Prod.fst = (List.range fleet).map memberId := by
  rw [standing, List.map_map]
  rfl

theorem names_nodup {fleet : Nat} (counted : fleet < 2 ^ 64) :
    ((List.range fleet).map memberId).Nodup := by
  refine List.Nodup.map_on (fun i mem j mem' same => ?_) List.nodup_range
  have first := List.mem_range.mp mem
  have second := List.mem_range.mp mem'
  exact memberId_injective (by omega) (by omega) same

/-! ## The policy -/

/-- Members with names of their own, none of them blank, and lawful scores are all enrolled. -/
theorem enrol_total {members : List (String × UInt8)} {before : Map String Competence}
    (named : ∀ p ∈ members, p.1.isEmpty = false)
    (lawful : ∀ p ∈ members, ∃ c, Competence.tryNew p.2 = .ok c)
    (apart : (members.map Prod.fst).Nodup) (fresh : ∀ p ∈ members, before[p.1]? = none) :
    ∃ after, enrol before members = .ok after := by
  induction members generalizing before with
  | nil => exact ⟨before, rfl⟩
  | cons p members ih =>
    rw [List.forall_mem_cons] at named lawful fresh
    rw [List.map_cons, List.nodup_cons] at apart
    obtain ⟨⟨c, lawful'⟩, others⟩ := lawful
    have absent := (not_contains_iff before p.1).mpr fresh.1
    have more : ∀ q ∈ members, (before.insert p.1 c)[q.1]? = none := by
      intro q mem
      rw [get_insert, if_neg, fresh.2 q mem]
      intro same
      exact apart.1 (same ▸ List.mem_map_of_mem mem)
    obtain ⟨after, enrolled⟩ := ih named.2 others apart.2 more
    refine ⟨after, ?_⟩
    rw [enrol, if_neg (by rw [named.1]; exact Bool.false_ne_true)]
    simp only [lawful', absent, Bool.false_eq_true, if_false]
    exact enrolled

theorem memberId_named (index : Nat) : (memberId index).isEmpty = false := by
  rw [memberId, String.isEmpty_eq_false_iff]
  intro empty
  have letters := congrArg String.toList empty
  rw [String.toList_ofList] at letters
  cases letters

theorem full_of_value {c : Competence} (value : c.value = 100) : c = .full := by
  cases c
  cases value
  rfl

theorem enrolled_full {fleet : Nat} {competences : Map String Competence}
    (enrolled : enrol ∅ (standing fleet) = .ok competences) (name : String) (c : Competence) :
    competences[name]? = some c ↔ (∃ i < fleet, name = memberId i) ∧ c = .full := by
  have scores (score : UInt8) : competences[name]?.map Competence.value = some score ↔
      (∃ i < fleet, name = memberId i) ∧ score = 100 := by
    rw [enrol_get enrolled name score, mem_standing]
    simp
  constructor
  · intro found
    have listed := (scores c.value).mp (by rw [found, Option.map_some])
    exact ⟨listed.1, full_of_value listed.2⟩
  · rintro ⟨seated, rfl⟩
    obtain ⟨c, found, value⟩ := Option.map_eq_some_iff.mp ((scores 100).mpr ⟨seated, rfl⟩)
    rw [found, full_of_value value]

theorem extremes_full (l : List Competence) (all : ∀ c ∈ l, c = .full) (hi lo : UInt8)
    (most : hi.toNat ≤ 100) (least : 100 ≤ lo.toNat) :
    let out := l.foldl (fun ((hi, lo) : UInt8 × UInt8) c => (max hi c.value, min lo c.value))
      (hi, lo)
    out.1.toNat ≤ 100 ∧ 100 ≤ out.2.toNat := by
  induction l generalizing hi lo with
  | nil => exact ⟨most, least⟩
  | cons c l ih =>
    rw [List.forall_mem_cons] at all
    obtain ⟨rfl, rest⟩ := all
    refine ih rest _ _ ?_ ?_
    · change (if hi ≤ 100 then 100 else hi).toNat ≤ 100
      split
      · decide
      · exact most
    · change 100 ≤ (if lo ≤ 100 then lo else 100).toNat
      split
      · exact least
      · decide

theorem mem_values (m : Map String Competence) {c : Competence} (mem : c ∈ values m) :
    ∃ name : String, m[name]? = some c := by
  obtain ⟨⟨name, d⟩, held, rfl⟩ := List.mem_map.mp mem
  exact ⟨name, Std.ExtTreeMap.mem_toList_iff_getElem?_eq_some.mp held⟩

/-- A fleet that is not empty has a policy. -/
theorem standing_policy {fleet : Nat} (manned : 1 ≤ fleet) (counted : fleet < 2 ^ 64) :
    ∃ policy, Policy.new (standing fleet) = .ok policy := by
  obtain ⟨competences, enrolled⟩ : ∃ after, enrol ∅ (standing fleet) = .ok after := by
    refine enrol_total ?_ ?_ ?_ ?_
    · rintro ⟨name, score⟩ mem
      obtain ⟨⟨i, -, rfl⟩, -⟩ := (mem_standing fleet name score).mp mem
      exact memberId_named i
    · rintro ⟨name, score⟩ mem
      obtain ⟨-, rfl⟩ := (mem_standing fleet name score).mp mem
      exact ⟨.full, rfl⟩
    · rw [standing_names]
      exact names_nodup counted
    · intro p _
      simp
  have first : competences[memberId 0]? = some .full :=
    (enrolled_full enrolled _ _).mpr ⟨⟨0, manned, rfl⟩, rfl⟩
  have some : competences.isEmpty = false := by
    by_contra none
    rw [Bool.not_eq_false, Std.ExtTreeMap.isEmpty_iff] at none
    rw [none] at first
    simp at first
  have capped : ratioHolds competences defaultMaxCompetenceRatio := by
    have bounds := extremes_full (values competences) (fun c mem => by
      obtain ⟨name, found⟩ := mem_values competences mem
      exact ((enrolled_full enrolled name c).mp found).2) 0 255 (by decide) (by decide)
    have three : (3 : UInt64).toNat = 3 := rfl
    change (extremes competences).1.toNat ≤ 100 ∧ 100 ≤ (extremes competences).2.toNat at bounds
    have byte := (extremes competences).2.toNat_lt
    change (extremes competences).1.toUInt64 ≤ 3 * (extremes competences).2.toUInt64
    rw [UInt64.le_iff_toNat_le, UInt64.toNat_mul, UInt8.toNat_toUInt64, UInt8.toNat_toUInt64,
      three, Nat.mod_eq_of_lt (by omega)]
    omega
  refine ⟨⟨competences, defaultByzantineBps, defaultMaxCompetenceRatio, sumOf competences, some,
    by decide, capped, rfl⟩, ?_⟩
  have budget : defaultByzantineBps < 10000 := by decide
  have positive : ¬ defaultMaxCompetenceRatio < 1 := by decide
  unfold Policy.new Policy.withSettings
  rw [dif_pos budget, if_neg positive, enrolled]
  dsimp only
  rw [dif_pos some, dif_pos capped]

section policy

variable {fleet : Nat} {policy : Policy} (chartered : Policy.new (standing fleet) = .ok policy)

include chartered

theorem mem_policy (name : String) : name ∈ policy.members ↔ ∃ i < fleet, name = memberId i := by
  rw [withSettings_members chartered, standing_names, List.mem_map]
  constructor
  · rintro ⟨i, mem, rfl⟩
    exact ⟨i, List.mem_range.mp mem, rfl⟩
  · rintro ⟨i, inside, rfl⟩
    exact ⟨i, List.mem_range.mpr inside, rfl⟩

theorem keySet_policy : keySet policy.competences = ((List.range fleet).map memberId).toFinset := by
  ext name
  rw [← mem_members, withSettings_members chartered, standing_names, List.mem_toFinset]

theorem size_policy (counted : fleet < 2 ^ 64) : policy.competences.size = fleet := by
  rw [← card_keySet, keySet_policy chartered, List.toFinset_card_of_nodup (names_nodup counted),
    List.length_map, List.length_range]

theorem worth_policy {name : String} (seated : name ∈ keySet policy.competences) :
    policy.worth name = 100 := by
  obtain ⟨c, found⟩ := (mem_keySet _ _).mp seated
  obtain ⟨-, -, -, enrolled⟩ := withSettings_eq_ok chartered
  rw [Policy.worth, Policy.competenceOf, found, ((enrolled_full enrolled name c).mp found).2]
  rfl

/-- A list of supporters, each named once, is enough if it meets the count and is more than two
thirds of the fleet. -/
theorem approved_iff (fits : fleet ≤ 2 ^ 48) {supporters : List String} {result : QuorumResult}
    (once : supporters.Nodup) (judged : evaluate policy supporters = .ok result) :
    result.approved = true ↔ (fleet + 4000 * fleet / 10000) / 2 + 1 ≤ supporters.length ∧
      2 * fleet < 3 * supporters.length := by
  have size := size_policy chartered (by omega)
  have small : policy.competences.size ≤ 2 ^ 48 := by omega
  obtain ⟨known, -, -, countMet, competenceMet⟩ := evaluate_exact small judged
  obtain ⟨settings, -⟩ := withSettings_eq_ok chartered
  have faulty := maxFaulty_toNat small
  have bps : defaultByzantineBps.toNat = 4000 := rfl
  rw [settings, bps, size] at faulty
  have card := List.toFinset_card_of_nodup once
  have wealth : policy.wealth = 100 * fleet := by
    rw [← sum_members, Finset.sum_const_nat fun name seated => worth_policy chartered seated,
      card_keySet, size, Nat.mul_comm]
  have support : ∑ signer ∈ supporters.toFinset, policy.worth signer =
      100 * supporters.length := by
    rw [Finset.sum_const_nat fun name mem => worth_policy chartered (known mem), card,
      Nat.mul_comm]
  rw [QuorumResult.approved, Bool.and_eq_true, countMet, competenceMet, wealth, support, card,
    size, faulty]
  omega

end policy

/-! ## Keys -/

/-- What the signatures promise of the laboratory's keys: what is signed with one of them verifies
under the key that goes with it, and under none of the others. -/
def LabKeys (C : Primitives) (fleet : Nat) : Prop :=
  ∀ i < fleet, ∀ j < fleet, ∀ message,
    C.verifyStrict (C.verifyingKey (seedFor i)) message (C.sign (seedFor j) message) = true ↔ i = j

theorem seedFor_injective {i j : Nat} (small : i + 1 < 2 ^ 64) (small' : j + 1 < 2 ^ 64)
    (same : (seedFor i).1 = (seedFor j).1) : i = j := by
  obtain ⟨front, -⟩ := List.append_inj same (by simp)
  have numbers := @be_injective 8 (i + 1) (j + 1) (by omega) (by omega) front
  omega

theorem plain_labKeys {fleet : Nat} (counted : fleet < 2 ^ 64) : LabKeys plain fleet := by
  intro i inside j inside' message
  have cut (k : Nat) : ((seedFor k).1 ++ message ++ List.replicate 32 0).take 64 =
      (seedFor k).1 ++ (message ++ List.replicate 32 0).take 32 := by
    rw [List.append_assoc, List.take_append, (seedFor k).2,
      List.take_of_length_le (by rw [(seedFor k).2]; decide)]
  change decide (((seedFor j).1 ++ message ++ List.replicate 32 0).take 64 =
    ((seedFor i).1 ++ message ++ List.replicate 32 0).take 64) = true ↔ i = j
  rw [decide_eq_true_eq, cut, cut, List.append_left_inj]
  constructor
  · intro same
    exact (seedFor_injective (by omega) (by omega) same).symm
  · rintro rfl
    rfl

theorem keysOf_get (C : Primitives) {fleet i : Nat} (inside : i < fleet) :
    (keysOf C fleet)[i]? = some (C.verifyingKey (seedFor i)) := by
  rw [keysOf, List.getElem?_map, List.getElem?_range inside, Option.map_some]

theorem keysOf_none (C : Primitives) {fleet i : Nat} (outside : fleet ≤ i) :
    (keysOf C fleet)[i]? = none := by
  rw [List.getElem?_eq_none_iff, keysOf, List.length_map, List.length_range]
  exact outside

/-! ## What a frame claims -/

theorem authorOf_toNat (index : Nat) : (Utterances.authorOf index).toNat = min index 65535 := by
  unfold Utterances.authorOf
  split
  · rename_i small
    rw [UInt16.toNat_ofNat_of_lt' small]
    omega
  · rw [Nat.min_eq_right (by omega)]
    rfl

/-- A frame claims the member whose key it is signed with only if that is its own sender, and one
whose index can be claimed. -/
theorem claims_own {fleet sender signer : Nat} (inside : sender < fleet)
    (signs : signer = sender ∨ signer = (sender + 1) % fleet) :
    (Utterances.authorOf sender).toNat = signer ↔ signer = sender ∧ sender < 65536 := by
  rw [authorOf_toNat]
  by_cases small : sender < 65536
  · rw [Nat.min_eq_left (by omega), and_iff_left small]
    exact eq_comm
  · refine iff_of_false ?_ fun both => small both.2
    rw [Nat.min_eq_right (by omega)]
    rcases signs with rfl | rfl
    · omega
    · rcases Nat.lt_or_eq_of_le (Nat.succ_le_of_lt inside) with less | same
      · rw [Nat.mod_eq_of_lt less]
        omega
      · rw [← same, Nat.mod_self]
        decide

/-- The envelope of a frame is taken if its sender has signed for itself. -/
theorem signed_own {C : Primitives} {fleet sender signer : Nat} (keys : LabKeys C fleet)
    (inside : sender < fleet) (signs : signer = sender ∨ signer = (sender + 1) % fleet)
    {subject : Subject} {frame plaintext : Bytes} {author : UInt16} {sequence : UInt64}
    {envelope : CompactEnvelope} (claims : envelope.authorIndex = Utterances.authorOf sender)
    (opens : openFrame C labGroupKey frame = .ok (author, sequence, plaintext))
    (decodes : decodeCompact plaintext =
      .ok (envelope.sign C (seedFor signer) subject.contentHash)) :
    SimAdmission.signed C subject (keysOf C fleet) labGroupKey frame =
      if signer = sender ∧ sender < 65536 then some envelope else none := by
  have claimed : (Utterances.authorOf sender).toNat < fleet := by
    rw [authorOf_toNat]
    omega
  have within : signer < fleet := by
    rcases signs with rfl | rfl
    · exact inside
    · exact Nat.mod_lt _ (by omega)
  have verdict := keys _ claimed _ within (envelope.transcript C subject.contentHash).1
  rw [claims_own inside signs] at verdict
  simp only [SimAdmission.signed, opens, decodes, CompactEnvelope.sign, claims, keysOf_get C claimed]
  unfold SignedCompactEnvelope.verify
  by_cases genuine : signer = sender ∧ sender < 65536
  · rw [if_pos genuine]
    simp only [verdict.mpr genuine, if_true]
  · rw [if_neg genuine]
    simp only [(Bool.not_eq_true _).mp (mt verdict.mp genuine), Bool.false_eq_true, if_false]

end UniformFleets
