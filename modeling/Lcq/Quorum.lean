import Lcq.OrderedMap
import Mathlib.Algebra.BigOperators.Group.Finset.Basic
import Mathlib.Algebra.Order.BigOperators.Group.List

/-!
# The fleet manifest and its two thresholds

A policy names the members and what the judgment of each is worth. Support is
enough when it comes from enough members, and from enough competence.
-/

namespace Quorum

open OrderedMap

/-! ## Policies -/

inductive PolicyError where
  | emptyFleet
  | blankMemberId
  | duplicateMemberId
  | competenceOutOfRange
  | competenceRatioExceeded
  | faultBudgetOutOfRange
  | nonPositiveCompetenceRatio
  deriving DecidableEq

namespace PolicyError

def message : PolicyError → String
  | emptyFleet => "fleet must not be empty"
  | blankMemberId => "member IDs must be non-empty"
  | duplicateMemberId => "member IDs must be unique"
  | competenceOutOfRange => "competence must be in 1..=100"
  | competenceRatioExceeded => "competence ratio exceeds policy cap"
  | faultBudgetOutOfRange => "fault budget must be in [0, 10000) basis points"
  | nonPositiveCompetenceRatio => "competence ratio cap must be at least 1"

end PolicyError

/-- What a member's judgment is worth, from 1 to 100. -/
structure Competence where
  value : UInt8
  positive : 1 ≤ value.toNat
  capped : value.toNat ≤ 100
  deriving DecidableEq

def Competence.scale : UInt8 := 100

def Competence.full : Competence := ⟨scale, by decide, by decide⟩

def Competence.tryNew (value : UInt8) : Except PolicyError Competence :=
  if bad : value = 0 ∨ Competence.scale < value then .error .competenceOutOfRange
  else
    .ok {
      value
      positive := by
        have nonzero : value.toNat ≠ 0 := fun zero => bad (Or.inl (UInt8.toNat_inj.mp zero))
        omega
      capped := by
        have le := UInt8.le_iff_toNat_le.mp (UInt8.not_lt.mp fun above => bad (Or.inr above))
        exact le }

def defaultByzantineBps : UInt32 := 4000

def defaultMaxCompetenceRatio : UInt32 := 3

/-- The most and the least competent member's value. -/
def extremes (competences : Map String Competence) : UInt8 × UInt8 :=
  (values competences).foldl (fun (hi, lo) c => (max hi c.value, min lo c.value)) (0, 255)

def sumOf (competences : Map String Competence) : UInt64 :=
  (values competences).foldl (fun sum c => sum + c.value.toUInt64) 0

def ratioHolds (competences : Map String Competence) (maxRatio : UInt32) : Prop :=
  (extremes competences).1.toUInt64 ≤ maxRatio.toUInt64 * (extremes competences).2.toUInt64

instance (competences : Map String Competence) (maxRatio : UInt32) :
    Decidable (ratioHolds competences maxRatio) := inferInstanceAs (Decidable (_ ≤ _))

structure Policy where
  competences : Map String Competence
  byzantineBps : UInt32
  maxCompetenceRatio : UInt32
  totalCompetence : UInt64
  manned : competences.isEmpty = false
  budget : byzantineBps < 10000
  capped : ratioHolds competences maxCompetenceRatio
  total : totalCompetence = sumOf competences

/-- Take the members in one by one. -/
def enrol (competences : Map String Competence) :
    List (String × UInt8) → Except PolicyError (Map String Competence)
  | [] => .ok competences
  | (id, score) :: members =>
    if id.isEmpty then .error .blankMemberId
    else
      match Competence.tryNew score with
      | .error e => .error e
      | .ok competence =>
        if competences.contains id then .error .duplicateMemberId
        else enrol (competences.insert id competence) members

namespace Policy

def withSettings (members : List (String × UInt8)) (byzantineBps maxCompetenceRatio : UInt32) :
    Except PolicyError Policy :=
  if budget : byzantineBps < 10000 then
    if maxCompetenceRatio < 1 then .error .nonPositiveCompetenceRatio
    else
      match enrol ∅ members with
      | .error e => .error e
      | .ok competences =>
        if manned : competences.isEmpty = false then
          if capped : ratioHolds competences maxCompetenceRatio then
            .ok {
              competences, byzantineBps, maxCompetenceRatio
              totalCompetence := sumOf competences
              manned, budget, capped
              total := rfl }
          else .error .competenceRatioExceeded
        else .error .emptyFleet
  else .error .faultBudgetOutOfRange

def new (members : List (String × UInt8)) : Except PolicyError Policy :=
  withSettings members defaultByzantineBps defaultMaxCompetenceRatio

variable (policy : Policy)

/-- A `usize` is taken to be 64 bits wide. -/
def size : UInt64 := .ofNat policy.competences.size

/-- Members the fault budget allows to be compromised, rounded down. -/
def maxFaulty : UInt64 := policy.byzantineBps.toUInt64 * policy.size / 10000

end Policy

/-- Half the sum, as if it could not overflow, rounded down. -/
def midpoint (a b : UInt64) : UInt64 := .ofNat ((a.toNat + b.toNat) / 2)

namespace Policy

variable (policy : Policy)

def minSigners : UInt64 := midpoint policy.size policy.maxFaulty + 1

def competenceOf (member : String) : Option Competence := policy.competences[member]?

def members : List String := policy.competences.keys

end Policy

/-! ## Evaluation -/

inductive EvaluationError where
  | unknownSigner
  deriving DecidableEq

def EvaluationError.message : EvaluationError → String
  | unknownSigner => "signer is not a member of this fleet"

structure QuorumResult where
  signerCount : UInt64
  supportCompetence : UInt64
  countMet : Bool
  competenceMet : Bool
  deriving DecidableEq

def QuorumResult.approved (result : QuorumResult) : Bool :=
  result.countMet && result.competenceMet

variable (policy : Policy)

/-- Add up the competence of the signers, all of whom must be members. -/
def support (sum : UInt64) : List String → Except EvaluationError UInt64
  | [] => .ok sum
  | signer :: signers =>
    match policy.competenceOf signer with
    | none => .error .unknownSigner
    | some competence => support (sum + competence.value.toUInt64) signers

def evaluate (signers : List String) : Except EvaluationError QuorumResult := do
  let unique := collect signers
  let supportCompetence ← support policy 0 unique.toList
  let signerCount : UInt64 := .ofNat unique.size
  .ok {
    signerCount
    supportCompetence
    countMet := decide (policy.minSigners ≤ signerCount)
    -- integers throughout, so that no rounding decides a threshold
    competenceMet := decide (2 * policy.totalCompetence < 3 * supportCompetence) }

/-! ## No sum, product or midpoint overflows -/

/-- What a name is worth to the fleet, nothing if it is no member. -/
def Policy.worth (member : String) : Nat :=
  (policy.competenceOf member).elim 0 fun c => c.value.toNat

/-- Everything the fleet is worth. -/
def Policy.wealth : Nat := ((values policy.competences).map fun c => c.value.toNat).sum

/-- Machine words add up as numbers do while the sum fits. -/
theorem foldl_add_toNat {α : Type} (f : α → UInt64) (l : List α) (start : UInt64)
    (fits : start.toNat + (l.map fun a => (f a).toNat).sum < 2 ^ 64) :
    (l.foldl (fun sum a => sum + f a) start).toNat =
      start.toNat + (l.map fun a => (f a).toNat).sum := by
  induction l generalizing start with
  | nil => rfl
  | cons a l ih =>
    rw [List.map_cons, List.sum_cons] at fits
    have here : (start + f a).toNat = start.toNat + (f a).toNat := by
      rw [UInt64.toNat_add, Nat.mod_eq_of_lt (by omega)]
    rw [List.foldl_cons, ih _ (by omega), here, List.map_cons, List.sum_cons]
    omega

theorem midpoint_toNat (a b : UInt64) : (midpoint a b).toNat = (a.toNat + b.toNat) / 2 := by
  have below := a.toNat_lt
  have below' := b.toNat_lt
  rw [midpoint, UInt64.toNat_ofNat_of_lt']
  simp only [UInt64.size]
  omega

/-- No list of worths adds up to more than a hundred each. -/
theorem sum_worth_le {α : Type} (f : α → Nat) (le : ∀ a, f a ≤ 100) (l : List α) :
    (l.map f).sum ≤ 100 * l.length := by
  induction l with
  | nil => exact Nat.zero_le _
  | cons a l ih =>
    have here := le a
    rw [List.map_cons, List.sum_cons, List.length_cons]
    omega

section exact_arithmetic

variable {policy} (fits : policy.competences.size ≤ 2 ^ 48)

include fits

theorem size_toNat : policy.size.toNat = policy.competences.size := by
  rw [Policy.size, UInt64.toNat_ofNat_of_lt']
  simp only [UInt64.size]
  omega

theorem maxFaulty_toNat :
    policy.maxFaulty.toNat = policy.byzantineBps.toNat * policy.competences.size / 10000 := by
  have budget := UInt32.lt_iff_toNat_lt.mp policy.budget
  have most : (10000 : UInt32).toNat = 10000 := rfl
  have ten : (10000 : UInt64).toNat = 10000 := rfl
  have product : policy.byzantineBps.toNat * policy.competences.size ≤ 10000 * 2 ^ 48 :=
    Nat.mul_le_mul (by omega) fits
  rw [Policy.maxFaulty, UInt64.toNat_div, UInt64.toNat_mul, UInt32.toNat_toUInt64,
    size_toNat fits, ten, Nat.mod_eq_of_lt (by omega)]

theorem maxFaulty_lt : policy.maxFaulty.toNat < policy.competences.size := by
  have budget := UInt32.lt_iff_toNat_lt.mp policy.budget
  have most : (10000 : UInt32).toNat = 10000 := rfl
  have nonempty : 0 < policy.competences.size := by
    have manned := policy.manned
    rw [Std.ExtTreeMap.isEmpty_eq_size_beq_zero] at manned
    simpa [Nat.pos_iff_ne_zero] using manned
  rw [maxFaulty_toNat fits, Nat.div_lt_iff_lt_mul (by omega), Nat.mul_comm]
  exact Nat.mul_lt_mul_of_pos_left (by omega) nonempty

theorem minSigners_toNat :
    policy.minSigners.toNat = (policy.competences.size + policy.maxFaulty.toNat) / 2 + 1 := by
  have below := maxFaulty_lt fits
  have one : (1 : UInt64).toNat = 1 := rfl
  rw [Policy.minSigners, UInt64.toNat_add, midpoint_toNat, size_toNat fits, one,
    Nat.mod_eq_of_lt (by omega)]

omit fits in
theorem wealth_le : policy.wealth ≤ 100 * policy.competences.size := by
  have bound := sum_worth_le (fun c : Competence => c.value.toNat) Competence.capped
    (values policy.competences)
  rwa [values, List.length_map, Std.ExtTreeMap.length_toList] at bound

theorem totalCompetence_toNat : policy.totalCompetence.toNat = policy.wealth := by
  have bound : policy.wealth ≤ _ := wealth_le
  rw [Policy.wealth] at bound
  have added := foldl_add_toNat (fun c : Competence => c.value.toUInt64)
    (values policy.competences) 0
  simp only [UInt8.toNat_toUInt64, UInt64.toNat_zero, Nat.zero_add] at added
  rw [policy.total, sumOf, added (by omega)]
  rfl

end exact_arithmetic

/-! ## What an evaluation says -/

/-- The word that `support` adds for a signer. -/
def Policy.weight (member : String) : UInt64 :=
  (policy.competenceOf member).elim 0 fun c => c.value.toUInt64

theorem weight_toNat (member : String) : (policy.weight member).toNat = policy.worth member := by
  unfold Policy.weight Policy.worth
  cases policy.competenceOf member <;> simp

theorem worth_le (member : String) : policy.worth member ≤ 100 := by
  unfold Policy.worth
  cases policy.competenceOf member with
  | none => exact Nat.zero_le _
  | some c => exact c.capped

/-- Support is there for members only, and then it is the sum of their weights. -/
theorem support_eq_ok {sum result : UInt64} {signers : List String} :
    support policy sum signers = .ok result ↔
      (∀ signer ∈ signers, signer ∈ keySet policy.competences) ∧
        result = signers.foldl (fun sum signer => sum + policy.weight signer) sum := by
  induction signers generalizing sum with
  | nil =>
    simp only [support, Except.ok.injEq, List.not_mem_nil, false_implies, implies_true,
      List.foldl_nil, true_and]
    exact eq_comm
  | cons signer signers ih =>
    rw [support, List.forall_mem_cons, mem_keySet, List.foldl_cons, Policy.weight,
      Policy.competenceOf]
    cases found : policy.competences[signer]? with
    | none => simp
    | some c => simp [ih]

/-- The count and the sum of an evaluation are those of the numbers. -/
structure Exact (signers : List String) (result : QuorumResult) : Prop where
  known : signers.toFinset ⊆ keySet policy.competences
  count : result.signerCount.toNat = signers.toFinset.card
  sum : result.supportCompetence.toNat = ∑ signer ∈ signers.toFinset, policy.worth signer
  countMet : result.countMet = true ↔
    (policy.competences.size + policy.maxFaulty.toNat) / 2 + 1 ≤ signers.toFinset.card
  competenceMet : result.competenceMet = true ↔
    2 * policy.wealth < 3 * ∑ signer ∈ signers.toFinset, policy.worth signer

variable {policy}

theorem evaluate_exact (fits : policy.competences.size ≤ 2 ^ 48) {signers : List String}
    {result : QuorumResult} (ok : evaluate policy signers = .ok result) :
    Exact policy signers result := by
  cases supported : support policy 0 (collect signers).toList with
  | error e =>
    simp only [evaluate, supported] at ok
    cases ok
  | ok sum =>
    simp only [evaluate, supported] at ok
    cases ok
    obtain ⟨known, added⟩ := (support_eq_ok policy).mp supported
    have sub : signers.toFinset ⊆ keySet policy.competences := by
      intro signer mem
      rw [← toFinset_collect, List.mem_toFinset] at mem
      exact known signer mem
    have card : signers.toFinset.card ≤ policy.competences.size := by
      rw [← card_keySet]
      exact Finset.card_le_card sub
    have length : (collect signers).toList.length = signers.toFinset.card := by
      rw [Std.ExtTreeSet.length_toList, size_collect]
    have count : (UInt64.ofNat (collect signers).size).toNat = signers.toFinset.card := by
      rw [UInt64.toNat_ofNat_of_lt', size_collect]
      simp only [UInt64.size, size_collect]
      omega
    have bound := sum_worth_le policy.worth (worth_le policy) (collect signers).toList
    have total : ((collect signers).toList.map policy.worth).sum =
        ∑ signer ∈ signers.toFinset, policy.worth signer := by
      rw [← toFinset_collect, List.sum_toFinset _ (toList_nodup _)]
    have sum_eq : sum.toNat = ∑ signer ∈ signers.toFinset, policy.worth signer := by
      have exact := foldl_add_toNat policy.weight (collect signers).toList 0
      simp only [weight_toNat, UInt64.toNat_zero, Nat.zero_add] at exact
      rw [added, exact (Nat.lt_of_le_of_lt bound (by omega)), total]
    have wealth := totalCompetence_toNat fits
    have wealth_bound : policy.wealth ≤ _ := wealth_le
    refine ⟨sub, count, sum_eq, ?_, ?_⟩
    · rw [decide_eq_true_iff, UInt64.le_iff_toNat_le, minSigners_toNat fits, count]
    · have two : (2 * policy.totalCompetence).toNat = 2 * policy.wealth := by
        have here : (2 : UInt64).toNat = 2 := rfl
        rw [UInt64.toNat_mul, here, wealth, Nat.mod_eq_of_lt (by omega)]
      have three : (3 * sum).toNat = 3 * sum.toNat := by
        have here : (3 : UInt64).toNat = 3 := rfl
        rw [UInt64.toNat_mul, here, Nat.mod_eq_of_lt (by omega)]
      rw [decide_eq_true_iff, UInt64.lt_iff_toNat_lt, two, three, sum_eq]

/-! ## Quorums intersect -/

/-- An accepted policy has the members that were enrolled and the settings it was given. -/
theorem withSettings_eq_ok {members : List (String × UInt8)} {bps ratio : UInt32}
    (accepted : Policy.withSettings members bps ratio = .ok policy) :
    policy.byzantineBps = bps ∧ policy.maxCompetenceRatio = ratio ∧ 1 ≤ ratio ∧
      enrol ∅ members = .ok policy.competences := by
  unfold Policy.withSettings at accepted
  split at accepted
  · split at accepted
    · cases accepted
    · rename_i positive
      split at accepted
      · cases accepted
      · rename_i enrolled
        split at accepted
        · split at accepted
          · cases accepted
            exact ⟨rfl, rfl, UInt32.not_lt.mp positive, enrolled⟩
          · cases accepted
        · cases accepted
  · cases accepted

/-- Two sets of members share what their sizes exceed the fleet by. -/
theorem card_add_card_le {α : Type} [DecidableEq α] {fleet first second : Finset α}
    (sub : first ⊆ fleet) (sub' : second ⊆ fleet) :
    first.card + second.card ≤ (first ∩ second).card + fleet.card := by
  have both := Finset.card_union_add_card_inter first second
  have within := Finset.card_le_card (Finset.union_subset sub sub')
  omega

/-- Any two lists of signers that meet the count share more members than the fault budget
allows to be compromised, and every number the thresholds are made of is exact. -/
theorem quorum_intersection (members : List (String × UInt8)) (bps ratio : UInt32)
    (policy : Policy) (first second : List String) (result result' : QuorumResult)
    (accepted : Policy.withSettings members bps ratio = .ok policy)
    (fits : policy.competences.size ≤ 2 ^ 48)
    (ok : evaluate policy first = .ok result) (met : result.countMet = true)
    (ok' : evaluate policy second = .ok result') (met' : result'.countMet = true) :
    policy.maxFaulty.toNat < (first.toFinset ∩ second.toFinset).card ∧
      policy.maxFaulty.toNat = bps.toNat * policy.competences.size / 10000 ∧
      policy.minSigners.toNat = (policy.competences.size + policy.maxFaulty.toNat) / 2 + 1 ∧
      Exact policy first result ∧ Exact policy second result' := by
  have exact := evaluate_exact fits ok
  have exact' := evaluate_exact fits ok'
  have share := card_add_card_le exact.known exact'.known
  have count := exact.countMet.mp met
  have count' := exact'.countMet.mp met'
  rw [card_keySet] at share
  have settings : policy.byzantineBps = bps := (withSettings_eq_ok accepted).1
  refine ⟨by omega, ?_, minSigners_toNat fits, exact, exact'⟩
  rw [maxFaulty_toNat fits, settings]

theorem ok_get {ε α : Type} {result : Except ε α} (fine : result.toOption.isSome = true) :
    result = .ok (result.toOption.get fine) := by
  cases result with
  | error e => cases fine
  | ok a => rfl

/-- Five equal members of whom two may be compromised: any two fours share three. -/
theorem quorum_intersection_five :
    let fleet : List (String × UInt8) :=
      [("a", 100), ("b", 100), ("c", 100), ("d", 100), ("e", 100)]
    let first := ["a", "b", "c", "d"]
    let second := ["e", "d", "c", "b", "d"]
    ∃ policy, Policy.withSettings fleet 4000 3 = .ok policy ∧ policy.maxFaulty = 2 ∧
      policy.maxFaulty.toNat < (first.toFinset ∩ second.toFinset).card := by
  intro fleet first second
  let policy := (Policy.withSettings fleet 4000 3).toOption.get (by decide)
  have met : evaluate policy first = .ok ⟨4, 400, true, true⟩ := by decide
  have met' : evaluate policy second = .ok ⟨4, 400, true, true⟩ := by decide
  refine ⟨policy, ok_get _, by decide, ?_⟩
  exact (quorum_intersection fleet 4000 3 policy first second _ _ (ok_get _) (by decide)
    met rfl met' rfl).1

end Quorum
