import Mathlib.Data.Multiset.Lattice

/-!
# The worst of many outcomes

What is decided against each of many comes to the worst of it. A loop that
keeps the worst so far, and stops where nothing can be worse, computes it, in
whatever order it goes.
-/

namespace WorstOutcomes

variable {α L : Type} [LinearOrder L] [OrderBot L]

/-- The worst of what each of many brings; of none, the best there is. -/
def worst (outcome : α → L) (many : List α) : L := ((many : Multiset α).map outcome).sup

/-- Keep the worst so far; the last outcome there can be ends the loop. -/
def gather (outcome : α → L) (last : L) : L → List α → L
  | so, [] => so
  | so, a :: many =>
    if outcome a = last then last else gather outcome last (max so (outcome a)) many

variable {outcome : α → L} {last : L} {many more : List α}

@[simp] theorem worst_nil : worst outcome [] = ⊥ := rfl

@[simp] theorem worst_cons (a : α) (many : List α) :
    worst outcome (a :: many) = max (outcome a) (worst outcome many) :=
  (congrArg Multiset.sup (Multiset.map_cons outcome a many)).trans (Multiset.sup_cons _ _)

theorem worst_singleton (a : α) : worst outcome [a] = outcome a := by
  rw [worst_cons, worst_nil]
  exact max_bot_right _

theorem worst_le {bound : L} : worst outcome many ≤ bound ↔ ∀ a ∈ many, outcome a ≤ bound := by
  rw [worst, Multiset.sup_le]
  constructor
  · intro all a mem
    exact all _ (Multiset.mem_map_of_mem outcome mem)
  · intro all b mem
    obtain ⟨a, inside, rfl⟩ := Multiset.mem_map.mp mem
    exact all a inside

theorem le_worst {a : α} (mem : a ∈ many) : outcome a ≤ worst outcome many :=
  worst_le.mp (le_refl _) a mem

/-- The order does not matter. -/
theorem worst_perm (shuffled : many.Perm more) : worst outcome many = worst outcome more := by
  rw [worst, worst, Multiset.coe_eq_coe.mpr shuffled]

/-- More of them never bring less. -/
theorem worst_mono (subset : many ⊆ more) : worst outcome many ≤ worst outcome more :=
  worst_le.mpr fun _ mem => le_worst (subset mem)

variable (outcome) in
/-- The worst is the outcome of one of them, if there is any. -/
theorem worst_mem (some : many ≠ []) : ∃ a ∈ many, worst outcome many = outcome a := by
  induction many with
  | nil => exact absurd rfl some
  | cons a many ih =>
    rw [worst_cons]
    rcases le_total (worst outcome many) (outcome a) with less | more
    · exact ⟨a, List.mem_cons_self, max_eq_left less⟩
    · cases many with
      | nil =>
        refine ⟨a, List.mem_cons_self, max_eq_left ?_⟩
        rw [worst_nil]
        exact bot_le
      | cons b many =>
        obtain ⟨c, mem, same⟩ := ih (List.cons_ne_nil b many)
        exact ⟨c, List.mem_cons_of_mem a mem, (max_eq_right more).trans same⟩

/-- The loop finds the worst, wherever it stops. -/
theorem gather_eq {so : L} (below : so ≤ last) (all : ∀ a ∈ many, outcome a ≤ last) :
    gather outcome last so many = max so (worst outcome many) := by
  induction many generalizing so with
  | nil => exact (max_bot_right so).symm
  | cons a many ih =>
    have rest := fun b mem => all b (List.mem_cons_of_mem a mem)
    rw [gather, worst_cons]
    split
    · rename_i reached
      rw [reached, max_eq_left (worst_le.mpr rest), max_eq_right below]
    · rw [ih (max_le below (all a List.mem_cons_self)) rest, max_assoc]

end WorstOutcomes
