import Mathlib.Algebra.Order.Ring.Int
import Mathlib.Data.Finset.Card
import Mathlib.Data.List.Basic

/-!
# Maps and sets kept in key order

Lookups after an update, by equality of keys, and the rebuilding of a map or a
set from its own listing.
-/

namespace OrderedMap

variable {κ ν : Type} [Ord κ]

abbrev Map (κ ν : Type) [Ord κ] : Type := Std.ExtTreeMap κ ν compare

abbrev Keys (κ : Type) [Ord κ] : Type := Std.ExtTreeSet κ compare

variable [Std.TransOrd κ]

/-- The values, in the order of their keys. -/
def values (m : Map κ ν) : List ν := m.toList.map Prod.snd

theorem contains_iff (m : Map κ ν) (k : κ) : m.contains k = true ↔ ∃ v, m[k]? = some v := by
  rw [← Std.ExtTreeMap.isSome_getElem?_eq_contains, Option.isSome_iff_exists]

theorem not_contains_iff (m : Map κ ν) (k : κ) : m.contains k = false ↔ m[k]? = none := by
  rw [← Std.ExtTreeMap.isSome_getElem?_eq_contains, Option.isSome_eq_false_iff,
    Option.isNone_iff_eq_none]

variable [Std.LawfulEqOrd κ]

theorem get_ext {m n : Map κ ν} (same : ∀ k : κ, m[k]? = n[k]?) : m = n :=
  Std.ExtTreeMap.ext_getElem? same

theorem mem_insert_iff (s : Keys κ) (k a : κ) : a ∈ s.insert k ↔ k = a ∨ a ∈ s := by
  rw [Std.ExtTreeSet.mem_insert]
  simp only [Std.compare_eq_iff_eq]

variable [DecidableEq κ]

@[simp] theorem get_insert (m : Map κ ν) (k a : κ) (v : ν) :
    (m.insert k v)[a]? = if k = a then some v else m[a]? := by
  rw [Std.ExtTreeMap.getElem?_insert]
  simp only [Std.compare_eq_iff_eq]

@[simp] theorem get_erase (m : Map κ ν) (k a : κ) :
    (m.erase k)[a]? = if k = a then none else m[a]? := by
  rw [Std.ExtTreeMap.getElem?_erase]
  simp only [Std.compare_eq_iff_eq]

theorem get_insertIfNew (m : Map κ ν) (k a : κ) (v : ν) :
    (m.insertIfNew k v)[a]? = if k = a ∧ m[k]? = none then some v else m[a]? := by
  rw [Std.ExtTreeMap.getElem?_insertIfNew]
  simp only [Std.compare_eq_iff_eq, Std.ExtTreeMap.mem_iff_isSome_getElem?,
    Option.not_isSome_iff_eq_none]

theorem insert_same {m : Map κ ν} {k : κ} {v : ν} (held : m[k]? = some v) : m.insert k v = m := by
  apply get_ext
  intro a
  rw [get_insert]
  split
  · rename_i here
    rw [← here, held]
  · rfl

theorem insertIfNew_held {m : Map κ ν} {k : κ} (held : m.contains k = true) (v : ν) :
    m.insertIfNew k v = m := by
  obtain ⟨w, found⟩ := (contains_iff m k).mp held
  apply get_ext
  intro a
  rw [get_insertIfNew]
  split
  · rename_i here
    exact absurd (here.2.symm.trans found) nofun
  · rfl

theorem erase_absent {m : Map κ ν} {k : κ} (absent : m.contains k = false) : m.erase k = m := by
  have none := (not_contains_iff m k).mp absent
  apply get_ext
  intro a
  rw [get_erase]
  split
  · rename_i here
    rw [← here, none]
  · rfl

omit [DecidableEq κ] in
/-- The first value is the one whose key has none below it. -/
theorem head_values_iff (m : Map κ ν) (v : ν) : (values m).head? = some v ↔
    ∃ k, m[k]? = some v ∧ ∀ l : κ, compare l k = .lt → m[l]? = none := by
  have listed (k : κ) (w : ν) : (k, w) ∈ m.toList ↔ m[k]? = some w :=
    Std.ExtTreeMap.mem_toList_iff_getElem?_eq_some
  have sorted := Std.ExtTreeMap.ordered_keys_toList (t := m)
  unfold values
  generalize m.toList = entries at listed sorted
  cases entries with
  | nil =>
    constructor
    · rintro ⟨⟩
    · rintro ⟨k, here, -⟩
      cases (listed k v).mpr here
  | cons first rest =>
    obtain ⟨k, w⟩ := first
    obtain ⟨below, -⟩ := List.pairwise_cons.mp sorted
    constructor
    · rintro ⟨⟩
      refine ⟨k, (listed k w).mp List.mem_cons_self, fun l lt => ?_⟩
      cases found : m[l]? with
      | none => rfl
      | some x =>
        rcases List.mem_cons.mp ((listed l x).mpr found) with same | later
        · cases same
          have equal : compare k k = .eq := Std.ReflCmp.compare_self
          rw [equal] at lt
          cases lt
        · have gt : compare k l = (compare l k).swap := Std.OrientedCmp.eq_swap
          rw [below (l, x) later, lt] at gt
          cases gt
    · rintro ⟨l, here, least⟩
      rcases List.mem_cons.mp ((listed l v).mpr here) with same | later
      · cases same
        rfl
      · have first := (listed k w).mp List.mem_cons_self
        rw [least k (below (l, v) later)] at first
        cases first

/-- Entries under different keys, put down one by one: what is found afterwards. -/
theorem get_foldl_put (put : Map κ ν → κ → ν → Map κ ν)
    (fresh : ∀ m k v, m[k]? = none → put m k v = m.insert k v) :
    ∀ (listing : List (κ × ν)) (m : Map κ ν),
      listing.Pairwise (fun p q => p.1 ≠ q.1) → (∀ p ∈ listing, m[p.1]? = none) →
      ∀ a v, (listing.foldl (fun n p => put n p.1 p.2) m)[a]? = some v ↔
        (a, v) ∈ listing ∨ m[a]? = some v := by
  intro listing
  induction listing with
  | nil => simp
  | cons p listing ih =>
    obtain ⟨k, w⟩ := p
    intro m apart absent a v
    rw [List.pairwise_cons] at apart
    have here : m[k]? = none := absent (k, w) List.mem_cons_self
    have later : ∀ p ∈ listing, (m.insert k w)[p.1]? = none := by
      intro p mem
      rw [get_insert, if_neg (apart.1 p mem)]
      exact absent p (List.mem_cons_of_mem _ mem)
    rw [List.foldl_cons, fresh m k w here, ih _ apart.2 later a v, get_insert, List.mem_cons]
    by_cases same : k = a
    · subst same
      simp only [if_true, here, Option.some.injEq, Prod.mk.injEq, true_and]
      constructor
      · rintro (mem | rfl)
        · exact Or.inl (Or.inr mem)
        · exact Or.inl (Or.inl rfl)
      · rintro ((rfl | mem) | none)
        · exact Or.inr rfl
        · exact Or.inl mem
        · cases none
    · have other : (a, v) ≠ (k, w) := fun h => same (congrArg Prod.fst h).symm
      simp only [if_neg same, other, false_or]

/-- Putting a map's own entries into an empty one gives the map back. -/
theorem foldl_toList (put : Map κ ν → κ → ν → Map κ ν)
    (fresh : ∀ m k v, m[k]? = none → put m k v = m.insert k v) (m : Map κ ν) :
    m.toList.foldl (fun n p => put n p.1 p.2) ∅ = m := by
  apply get_ext
  intro a
  have distinct : m.toList.Pairwise (fun p q => p.1 ≠ q.1) := by
    have keys := Std.ExtTreeMap.distinct_keys_toList (t := m)
    simpa only [Std.compare_eq_iff_eq] using keys
  have found := get_foldl_put put fresh m.toList ∅ distinct (by simp) a
  apply Option.ext
  intro v
  rw [found v, Std.ExtTreeMap.mem_toList_iff_getElem?_eq_some]
  simp

/-- Entries put down one by one, a later one over an earlier one of the same key. -/
def gather (listing : List (κ × ν)) : Map κ ν := listing.foldl (fun m p => m.insert p.1 p.2) ∅

theorem gather_toList (m : Map κ ν) : gather m.toList = m :=
  foldl_toList (fun n k v => n.insert k v) (fun _ _ _ _ => rfl) m

theorem get_foldl_erase (keys : List κ) (m : Map κ ν) (a : κ) :
    (keys.foldl (fun n k => n.erase k) m)[a]? = if a ∈ keys then none else m[a]? := by
  induction keys generalizing m with
  | nil => simp
  | cons k keys ih =>
    rw [List.foldl_cons, ih, get_erase]
    by_cases later : a ∈ keys
    · simp [later]
    · by_cases here : k = a
      · simp [here]
      · simp [later, here, Ne.symm here]

omit [DecidableEq κ] in
theorem mem_foldl_insert (l : List κ) (s : Keys κ) (a : κ) :
    a ∈ l.foldl (fun t k => t.insert k) s ↔ a ∈ l ∨ a ∈ s := by
  induction l generalizing s with
  | nil => simp
  | cons k l ih =>
    rw [List.foldl_cons, ih, mem_insert_iff, List.mem_cons, eq_comm (a := k), or_left_comm,
      or_assoc]

omit [DecidableEq κ] in
theorem foldl_insert_toList (s : Keys κ) : s.toList.foldl (fun t k => t.insert k) ∅ = s := by
  apply Std.ExtTreeSet.ext_mem
  intro a
  rw [mem_foldl_insert, Std.ExtTreeSet.mem_toList]
  simp

/-! ## As finite sets -/

omit [DecidableEq κ] in
theorem toList_nodup (s : Keys κ) : s.toList.Nodup := by
  have distinct := Std.ExtTreeSet.distinct_toList (t := s)
  rw [List.nodup_iff_pairwise_ne]
  simpa only [Std.compare_eq_iff_eq] using distinct

/-- The elements of a list, each once. -/
def collect (l : List κ) : Keys κ := l.foldl (fun s k => s.insert k) ∅

omit [DecidableEq κ] in
theorem mem_collect (l : List κ) (k : κ) : k ∈ collect l ↔ k ∈ l := by
  rw [collect, mem_foldl_insert]
  simp

theorem toFinset_collect (l : List κ) : (collect l).toList.toFinset = l.toFinset := by
  ext k
  rw [List.mem_toFinset, Std.ExtTreeSet.mem_toList, mem_collect, List.mem_toFinset]

theorem size_collect (l : List κ) : (collect l).size = l.toFinset.card := by
  rw [← Std.ExtTreeSet.length_toList, ← toFinset_collect,
    List.toFinset_card_of_nodup (toList_nodup _)]

/-- The keys of a map. -/
def keySet (m : Map κ ν) : Finset κ := m.keys.toFinset

theorem mem_keySet (m : Map κ ν) (k : κ) : k ∈ keySet m ↔ ∃ v, m[k]? = some v := by
  rw [keySet, List.mem_toFinset, Std.ExtTreeMap.mem_keys, ← Std.ExtTreeMap.contains_iff_mem,
    contains_iff]

omit [Std.LawfulEqOrd κ] in
theorem card_keySet (m : Map κ ν) : (keySet m).card = m.size := by
  rw [keySet, List.toFinset_card_of_nodup Std.ExtTreeMap.nodup_keys, Std.ExtTreeMap.length_keys]

end OrderedMap
