import Mathlib.Algebra.BigOperators.Group.List.Basic
import Mathlib.Algebra.Order.BigOperators.Group.List
import Mathlib.Algebra.Order.Ring.Int
import Mathlib.Data.List.Induction

/-!
# Costs in a sliding window

Entries have an instant and a cost. Over a list in order of time, no window of
a width costs more than a bound exactly if none that ends at an entry does.
-/

namespace SlidingWindows

variable {α : Type}

/-- What the entries that are asked for cost. -/
def spent (cost : α → Nat) (asked : α → Bool) (l : List α) : Nat := ((l.filter asked).map cost).sum

section costs

variable {cost : α → Nat} {asked wanted : α → Bool} {l r : List α}

@[simp] theorem spent_nil : spent cost asked [] = 0 := rfl

theorem spent_append : spent cost asked (l ++ r) = spent cost asked l + spent cost asked r := by
  rw [spent, List.filter_append, List.map_append, List.sum_append]
  rfl

@[simp] theorem spent_singleton (x : α) :
    spent cost asked [x] = if asked x = true then cost x else 0 := by
  cases h : asked x <;> simp [spent, h]

theorem spent_mono (weaker : ∀ x ∈ l, asked x = true → wanted x = true) :
    spent cost asked l ≤ spent cost wanted l := by
  induction l with
  | nil => exact Nat.le_refl _
  | cons x l ih =>
    have rest := ih fun y mem => weaker y (List.mem_cons_of_mem _ mem)
    have here := weaker x List.mem_cons_self
    rw [← List.singleton_append, spent_append, spent_append, spent_singleton, spent_singleton]
    refine Nat.add_le_add ?_ rest
    split
    · rename_i asks
      rw [if_pos (here asks)]
    · exact Nat.zero_le _

theorem spent_congr (same : ∀ x ∈ l, asked x = wanted x) :
    spent cost asked l = spent cost wanted l := by
  rw [spent, List.filter_congr same]
  rfl

/-- What is asked for is of one kind or of the other. -/
theorem spent_split (kind : α → Bool) (l : List α) : spent cost asked l =
    spent cost (fun x => asked x && kind x) l + spent cost (fun x => asked x && !kind x) l := by
  induction l with
  | nil => rfl
  | cons x l ih =>
    rw [← List.singleton_append, spent_append, spent_append, spent_append, ih]
    simp only [spent_singleton]
    cases asked x <;> cases kind x <;> simp <;> omega

end costs

section windows

variable (time cost : α → Nat) (width : Nat)

/-- The entry starts in the window of this width that begins at an instant. -/
def starting (begins : Nat) (x : α) : Bool :=
  decide (begins ≤ time x) && decide (time x ≤ begins + width)

/-- The entry starts in the window of this width that ends with another. -/
def trailing (last x : α) : Bool := decide (time last ≤ time x + width)

/-- No window costs more than the bound. -/
def Bounded (bound : Nat) (l : List α) : Prop :=
  ∀ begins, spent cost (starting time width begins) l ≤ bound

variable {time cost width} {bound : Nat} {l : List α}

theorem bounded_snoc {x : α} (latest : ∀ y ∈ l, time y ≤ time x) :
    Bounded time cost width bound (l ++ [x]) ↔ Bounded time cost width bound l ∧
      spent cost (trailing time width x) l + cost x ≤ bound := by
  constructor
  · intro bounded
    constructor
    · intro begins
      exact (Nat.le_add_right _ _).trans (spent_append ▸ bounded begins)
    · have window := bounded (time x - width)
      have ends : starting time width (time x - width) x = true := by
        simp only [starting, Bool.and_eq_true, decide_eq_true_eq]
        omega
      rw [spent_append, spent_singleton, if_pos ends] at window
      refine (Nat.add_le_add_right (spent_mono ?_) _).trans window
      intro y mem recent
      have before := latest y mem
      simp only [trailing, decide_eq_true_eq] at recent
      simp only [starting, Bool.and_eq_true, decide_eq_true_eq]
      omega
  · rintro ⟨bounded, last⟩ begins
    rw [spent_append, spent_singleton]
    split
    · rename_i within
      refine (Nat.add_le_add_right (spent_mono ?_) _).trans last
      intro y mem starts
      simp only [starting, Bool.and_eq_true, decide_eq_true_eq] at within starts
      simp only [trailing, decide_eq_true_eq]
      omega
    · exact bounded begins

/-- Over a list in order of time it is enough to look at windows that end with an entry. -/
theorem bounded_iff (ordered : l.Pairwise fun x y => time x ≤ time y) :
    Bounded time cost width bound l ↔ ∀ before x after, l = before ++ x :: after →
      spent cost (trailing time width x) before + cost x ≤ bound := by
  induction l using List.reverseRecOn with
  | nil =>
    constructor
    · intro _ before x after none_
      exact absurd none_.symm (by simp)
    · intro _ begins
      exact Nat.zero_le _
  | append_singleton l x ih =>
    rw [List.pairwise_append] at ordered
    obtain ⟨initially, -, latest⟩ := ordered
    rw [bounded_snoc fun y mem => latest y mem x (List.mem_singleton_self x), ih initially]
    constructor
    · rintro ⟨earlier, last⟩ before y after same
      rcases List.eq_nil_or_concat after with rfl | ⟨rest, z, rfl⟩
      · obtain ⟨rfl, rfl⟩ := List.append_inj' same rfl |>.imp_right List.singleton_inj.mp
        exact last
      · rw [List.concat_eq_append, ← List.cons_append, ← List.append_assoc] at same
        exact earlier before y rest (List.append_inj' same rfl).1
    · intro each
      constructor
      · intro before y after same
        exact each before y (after ++ [x]) (by simp [same])
      · exact each l x [] rfl

end windows

end SlidingWindows
