import Lcq.Quorum
import Mathlib.Algebra.Order.BigOperators.Group.Finset

/-!
# The laws of an evaluation

An evaluation fails on strangers only, sees a list of signers as a set, never
loses a threshold to a further member, and approves the whole fleet.
-/

namespace EvaluationLaws

open OrderedMap Quorum

/-! ## Who was enrolled -/

theorem collect_congr {signers signers' : List String}
    (same : ∀ name, name ∈ signers ↔ name ∈ signers') : collect signers = collect signers' := by
  apply Std.ExtTreeSet.ext_mem
  intro name
  rw [mem_collect, mem_collect, same name]

theorem mem_members (policy : Policy) (name : String) :
    name ∈ policy.members ↔ name ∈ keySet policy.competences :=
  List.mem_toFinset.symm

theorem tryNew_eq_ok {score : UInt8} {competence : Competence}
    (taken : Competence.tryNew score = .ok competence) : competence.value = score := by
  unfold Competence.tryNew at taken
  split at taken
  · cases taken
  · cases taken
    rfl

/-- A fleet is made of those it was built from, at their scores, and of nobody else. -/
theorem enrol_get {members : List (String × UInt8)} {before after : Map String Competence}
    (enrolled : enrol before members = .ok after) (name : String) (score : UInt8) :
    after[name]?.map Competence.value = some score ↔
      before[name]?.map Competence.value = some score ∨ (name, score) ∈ members := by
  induction members generalizing before with
  | nil =>
    cases enrolled
    simp
  | cons member members ih =>
    obtain ⟨id, own⟩ := member
    rw [enrol] at enrolled
    split at enrolled
    · cases enrolled
    · split at enrolled
      · cases enrolled
      · rename_i competence taken
        split at enrolled
        · cases enrolled
        · rename_i fresh
          have absent := (not_contains_iff before id).mp (Bool.eq_false_iff.mpr fresh)
          rw [ih enrolled, get_insert, List.mem_cons, Prod.mk.injEq]
          by_cases same : id = name
          · subst same
            rw [if_pos rfl, absent, Option.map_some, tryNew_eq_ok taken]
            simp [eq_comm]
          · rw [if_neg same]
            simp [Ne.symm same]

theorem enrol_keys {members : List (String × UInt8)} {fleet : Map String Competence}
    (enrolled : enrol ∅ members = .ok fleet) (name : String) :
    name ∈ keySet fleet ↔ name ∈ members.map Prod.fst := by
  have scores := enrol_get enrolled name
  rw [mem_keySet, List.mem_map]
  constructor
  · rintro ⟨competence, found⟩
    rcases (scores competence.value).mp (by rw [found, Option.map_some]) with nothing | listed
    · simp at nothing
    · exact ⟨_, listed, rfl⟩
  · rintro ⟨⟨_, score⟩, listed, rfl⟩
    obtain ⟨competence, found, -⟩ := Option.map_eq_some_iff.mp ((scores score).mpr (Or.inr listed))
    exact ⟨competence, found⟩

theorem withSettings_members {members : List (String × UInt8)} {bps ratio : UInt32}
    {policy : Policy} (accepted : Policy.withSettings members bps ratio = .ok policy)
    (name : String) : name ∈ policy.members ↔ name ∈ members.map Prod.fst := by
  obtain ⟨-, -, -, enrolled⟩ := withSettings_eq_ok accepted
  rw [mem_members, enrol_keys enrolled]

variable {policy : Policy}

/-! ## Whom an evaluation refuses -/

theorem evaluate_eq_error (signers : List String) (e : EvaluationError) :
    evaluate policy signers = .error e ↔ ∃ signer ∈ signers, signer ∉ policy.members := by
  have known : (∃ sum, support policy 0 (collect signers).toList = .ok sum) ↔
      ∀ signer ∈ signers, signer ∈ policy.members := by
    constructor
    · rintro ⟨sum, supported⟩ signer mem
      apply (mem_members policy signer).mpr
      apply ((support_eq_ok policy).mp supported).1 signer
      rwa [Std.ExtTreeSet.mem_toList, mem_collect]
    · intro known
      refine ⟨_, (support_eq_ok policy).mpr ⟨fun signer mem => ?_, rfl⟩⟩
      rw [Std.ExtTreeSet.mem_toList, mem_collect] at mem
      exact (mem_members policy signer).mp (known signer mem)
  cases supported : support policy 0 (collect signers).toList with
  | error unknown =>
    cases unknown
    cases e
    have stranger : ¬ ∀ signer ∈ signers, signer ∈ policy.members := by
      intro all
      obtain ⟨sum, ok⟩ := known.mpr all
      rw [supported] at ok
      cases ok
    simp only [evaluate, supported]
    refine ⟨fun _ => ?_, fun _ => rfl⟩
    simpa using stranger
  | ok sum =>
    simp only [evaluate, supported]
    constructor
    · rintro ⟨⟩
    · rintro ⟨signer, mem, stranger⟩
      exact absurd (known.mp ⟨sum, supported⟩ signer mem) stranger

theorem evaluate_total {signers : List String}
    (known : ∀ signer ∈ signers, signer ∈ policy.members) :
    ∃ result, evaluate policy signers = .ok result := by
  cases evaluated : evaluate policy signers with
  | ok result => exact ⟨result, rfl⟩
  | error e =>
    obtain ⟨signer, mem, stranger⟩ := (evaluate_eq_error signers e).mp evaluated
    exact absurd (known signer mem) stranger

theorem evaluate_congr {signers signers' : List String}
    (same : ∀ name, name ∈ signers ↔ name ∈ signers') :
    evaluate policy signers = evaluate policy signers' := by
  simp only [evaluate, collect_congr same]

/-! ## More members, and all of them -/

section thresholds

variable (fits : policy.competences.size ≤ 2 ^ 48)

include fits

/-- No threshold that some signers meet is lost by those and others together. -/
theorem thresholds_mono {first second : List String} {result result' : QuorumResult}
    (sub : first ⊆ second) (ok : evaluate policy first = .ok result)
    (ok' : evaluate policy second = .ok result') :
    (result.countMet = true → result'.countMet = true) ∧
      (result.competenceMet = true → result'.competenceMet = true) := by
  have exact := evaluate_exact fits ok
  have exact' := evaluate_exact fits ok'
  have within : first.toFinset ⊆ second.toFinset := by
    intro signer mem
    rw [List.mem_toFinset] at mem ⊢
    exact sub mem
  have count := Finset.card_le_card within
  have worth : ∑ signer ∈ first.toFinset, policy.worth signer ≤
      ∑ signer ∈ second.toFinset, policy.worth signer :=
    Finset.sum_le_sum_of_subset within
  rw [exact.countMet, exact'.countMet, exact.competenceMet, exact'.competenceMet]
  omega

omit fits in
/-- The fleet is worth what its members are worth. -/
theorem sum_members : ∑ member ∈ keySet policy.competences, policy.worth member =
    policy.wealth := by
  rw [keySet, List.sum_toFinset _ Std.ExtTreeMap.nodup_keys, Policy.wealth, values,
    ← Std.ExtTreeMap.map_fst_toList_eq_keys, List.map_map, List.map_map]
  congr 1
  apply List.map_congr_left
  rintro ⟨name, competence⟩ mem
  have found := Std.ExtTreeMap.mem_toList_iff_getElem?_eq_some.mp mem
  simp [Policy.worth, Policy.competenceOf, found]

omit fits in
theorem wealth_pos : 0 < policy.wealth := by
  have manned := policy.manned
  rw [Policy.wealth, values]
  cases listed : policy.competences.toList with
  | nil =>
    rw [← Std.ExtTreeMap.isEmpty_toList, listed] at manned
    cases manned
  | cons entry entries =>
    have positive := entry.2.positive
    simp only [List.map_cons, List.sum_cons]
    omega

/-- No fleet is accepted that cannot satisfy its own policy. -/
theorem everyone_approved {signers : List String}
    (everyone : ∀ name, name ∈ signers ↔ name ∈ policy.members) :
    ∃ result, evaluate policy signers = .ok result ∧ result.approved = true := by
  obtain ⟨result, ok⟩ := evaluate_total fun signer mem => (everyone signer).mp mem
  have exact := evaluate_exact fits ok
  have whole : signers.toFinset = keySet policy.competences := by
    ext name
    rw [List.mem_toFinset, everyone name, mem_members]
  have faulty := maxFaulty_lt fits
  have wealth : 0 < policy.wealth := wealth_pos
  have count : result.countMet = true := by
    rw [exact.countMet, whole, card_keySet]
    omega
  have competence : result.competenceMet = true := by
    rw [exact.competenceMet, whole, sum_members]
    omega
  exact ⟨result, ok, by rw [QuorumResult.approved, count, competence]; rfl⟩

end thresholds

/-- An evaluation refuses exactly the lists with a stranger on them, sees them as sets, never
loses a threshold when members are added, and approves the whole fleet it was made for. -/
theorem evaluation_laws (members : List (String × UInt8)) (bps ratio : UInt32) (policy : Policy)
    (accepted : Policy.withSettings members bps ratio = .ok policy)
    (fits : policy.competences.size ≤ 2 ^ 48) :
    (∀ name, name ∈ policy.members ↔ name ∈ members.map Prod.fst) ∧
    (∀ signers, (∃ e, evaluate policy signers = .error e) ↔
      ∃ signer ∈ signers, signer ∉ policy.members) ∧
    (∀ signers signers', (∀ name, name ∈ signers ↔ name ∈ signers') →
      evaluate policy signers = evaluate policy signers') ∧
    (∀ signers added result, evaluate policy signers = .ok result →
      (∀ signer ∈ added, signer ∈ policy.members) →
        ∃ result', evaluate policy (signers ++ added) = .ok result' ∧
          (result.countMet = true → result'.countMet = true) ∧
          (result.competenceMet = true → result'.competenceMet = true)) ∧
    ∀ signers, (∀ name, name ∈ signers ↔ name ∈ policy.members) →
      ∃ result, evaluate policy signers = .ok result ∧ result.approved = true := by
  refine ⟨withSettings_members accepted, fun signers => ?_, fun _ _ same => evaluate_congr same,
    fun signers added result ok known => ?_, fun _ everyone => everyone_approved fits everyone⟩
  · constructor
    · rintro ⟨e, refused⟩
      exact (evaluate_eq_error signers e).mp refused
    · intro stranger
      exact ⟨.unknownSigner, (evaluate_eq_error signers .unknownSigner).mpr stranger⟩
  · have all : ∀ signer ∈ signers ++ added, signer ∈ policy.members := by
      intro signer mem
      rcases List.mem_append.mp mem with old | new
      · have sub := (evaluate_exact fits ok).known
        exact (mem_members policy signer).mpr (sub (List.mem_toFinset.mpr old))
      · exact known signer new
    obtain ⟨result', ok'⟩ := evaluate_total all
    exact ⟨result', ok', thresholds_mono fits (List.subset_append_left signers added) ok ok'⟩

/-- A fleet of two under the tightest budget and ratio approves only of itself as a whole. -/
theorem evaluation_laws_pair :
    let fleet : List (String × UInt8) := [("a", 1), ("b", 1)]
    ∃ policy, Policy.withSettings fleet 9999 1 = .ok policy ∧
      ∃ result, evaluate policy ["b", "a", "b"] = .ok result ∧ result.approved = true := by
  intro fleet
  let policy := (Policy.withSettings fleet 9999 1).toOption.get (by decide)
  have listed : policy.members = ["a", "b"] := by decide
  have laws := evaluation_laws fleet 9999 1 policy (ok_get _) (by decide)
  refine ⟨policy, ok_get _, laws.2.2.2.2 _ fun name => ?_⟩
  rw [listed]
  simp only [List.mem_cons, List.not_mem_nil, or_false]
  tauto

end EvaluationLaws
