import Mathlib.Algebra.Order.Ring.Int
import Mathlib.Data.List.Basic

/-!
# Lines that are waited in

Everything that joins a line stays in its book, with what has become of it: it
waits, or it was served or dropped in some turn. Turns are numbered upwards.
-/

namespace WaitingLines

inductive Fate where
  | waiting
  | served (turn : Nat)
  | dropped (turn : Nat)
  deriving DecidableEq

structure Entry (α : Type) where
  item : α
  fate : Fate

variable {α : Type}

/-- The entry had left the line before this turn. -/
def Entry.Gone (e : Entry α) (turn : Nat) : Prop :=
  ∃ earlier, earlier < turn ∧ (e.fate = .served earlier ∨ e.fate = .dropped earlier)

def items (book : List (Entry α)) : List α := book.map Entry.item

def waiting (book : List (Entry α)) : List α :=
  items (book.filter fun e => decide (e.fate = .waiting))

/-- What was served in a turn. -/
def servedIn (turn : Nat) (book : List (Entry α)) : List α :=
  items (book.filter fun e => decide (e.fate = .served turn))

/-- Whoever is served, all that joined before it had left by then. -/
def InOrder (book : List (Entry α)) : Prop :=
  book.Pairwise fun a b => ∀ turn, b.fate = .served turn → a.Gone turn

/-- Nothing has left in this turn or later. -/
def Until (turn : Nat) (book : List (Entry α)) : Prop :=
  ∀ e ∈ book, e.fate = .waiting ∨ e.Gone turn

/-! ## What can happen to a line -/

def join (book : List (Entry α)) (item : α) : List (Entry α) := book ++ [⟨item, .waiting⟩]

/-- Serve the one that has waited longest. -/
def serve (turn : Nat) : List (Entry α) → List (Entry α)
  | [] => []
  | e :: book =>
    if e.fate = .waiting then ⟨e.item, .served turn⟩ :: book else e :: serve turn book

def drop (turn : Nat) (out : α → Bool) (book : List (Entry α)) : List (Entry α) :=
  book.map fun e =>
    if e.fate = .waiting ∧ out e.item = true then ⟨e.item, .dropped turn⟩ else e

/-! ## What is in a line -/

variable {book : List (Entry α)} {e : Entry α} {turn : Nat} {out : α → Bool}

theorem waiting_cons (e : Entry α) (book : List (Entry α)) : waiting (e :: book) =
    if e.fate = .waiting then e.item :: waiting book else waiting book := by
  unfold waiting items
  rw [List.filter_cons]
  simp only [decide_eq_true_eq]
  split <;> rfl

theorem servedIn_cons (turn : Nat) (e : Entry α) (book : List (Entry α)) :
    servedIn turn (e :: book) =
      if e.fate = .served turn then e.item :: servedIn turn book else servedIn turn book := by
  unfold servedIn items
  rw [List.filter_cons]
  simp only [decide_eq_true_eq]
  split <;> rfl

theorem items_join (book : List (Entry α)) (item : α) :
    items (join book item) = items book ++ [item] := by
  rw [items, join, List.map_append]
  rfl

theorem waiting_join (book : List (Entry α)) (item : α) :
    waiting (join book item) = waiting book ++ [item] := by
  induction book with
  | nil => rfl
  | cons e book ih =>
    rw [join, List.cons_append, waiting_cons, waiting_cons, ← join, ih]
    split <;> rfl

theorem servedIn_join (turn : Nat) (book : List (Entry α)) (item : α) :
    servedIn turn (join book item) = servedIn turn book := by
  induction book with
  | nil => rfl
  | cons e book ih => rw [join, List.cons_append, servedIn_cons, servedIn_cons, ← join, ih]

theorem items_serve (turn : Nat) (book : List (Entry α)) :
    items (serve turn book) = items book := by
  induction book with
  | nil => rfl
  | cons e book ih =>
    rw [serve]
    split
    · rfl
    · rw [items, List.map_cons, ← items, ih]
      rfl

theorem waiting_serve (turn : Nat) (book : List (Entry α)) :
    waiting (serve turn book) = (waiting book).tail := by
  induction book with
  | nil => rfl
  | cons e book ih =>
    rw [serve, waiting_cons]
    split
    · rw [waiting_cons, if_neg (by rintro ⟨⟩), List.tail_cons]
    · rename_i left
      rw [waiting_cons, if_neg left, ih]

theorem Until.unserved (since : Until turn book) (mem : e ∈ book) : e.fate ≠ .served turn := by
  intro served
  rcases since e mem with waits | ⟨earlier, before, gone⟩
  · rw [served] at waits
    cases waits
  · rw [served] at gone
    rcases gone with same | other
    · cases same
      exact Nat.lt_irrefl _ before
    · cases other

theorem servedIn_none (since : Until turn book) : servedIn turn book = [] := by
  rw [servedIn, items, List.map_eq_nil_iff, List.filter_eq_nil_iff]
  intro e mem
  rw [decide_eq_true_eq]
  exact since.unserved mem

/-- In its turn the first of those waiting is served and nobody else. -/
theorem servedIn_serve (since : Until turn book) :
    servedIn turn (serve turn book) = (waiting book).head?.toList := by
  induction book with
  | nil => rfl
  | cons e book ih =>
    have later : Until turn book := fun d mem => since d (List.mem_cons_of_mem _ mem)
    rw [serve, waiting_cons]
    split
    · rw [servedIn_cons, if_pos rfl, servedIn_none later]
      rfl
    · rw [servedIn_cons, if_neg (since.unserved List.mem_cons_self), ih later]

theorem servedIn_serve_other {other : Nat} (differ : other ≠ turn) (book : List (Entry α)) :
    servedIn other (serve turn book) = servedIn other book := by
  have apart : Fate.served turn ≠ .served other := by
    rintro ⟨⟩
    exact differ rfl
  induction book with
  | nil => rfl
  | cons e book ih =>
    rw [serve]
    split
    · rename_i waits
      have unserved : e.fate ≠ .served other := by
        rw [waits]
        rintro ⟨⟩
      rw [servedIn_cons, servedIn_cons, if_neg apart, if_neg unserved]
    · rw [servedIn_cons, servedIn_cons, ih]

theorem items_drop (turn : Nat) (out : α → Bool) (book : List (Entry α)) :
    items (drop turn out book) = items book := by
  rw [items, drop, List.map_map, items]
  apply List.map_congr_left
  intro e mem
  dsimp only [Function.comp]
  split <;> rfl

theorem waiting_drop (turn : Nat) (out : α → Bool) (book : List (Entry α)) :
    waiting (drop turn out book) = (waiting book).filter fun x => !out x := by
  induction book with
  | nil => rfl
  | cons e book ih =>
    rw [drop, List.map_cons, ← drop, waiting_cons, waiting_cons, ih]
    by_cases waits : e.fate = .waiting
    · cases leaves : out e.item <;> simp [waits, leaves]
    · simp [waits]

theorem servedIn_drop (turn other : Nat) (out : α → Bool) (book : List (Entry α)) :
    servedIn other (drop turn out book) = servedIn other book := by
  induction book with
  | nil => rfl
  | cons e book ih =>
    rw [drop, List.map_cons, ← drop, servedIn_cons, servedIn_cons, ih]
    by_cases waits : e.fate = .waiting
    · cases out e.item <;> simp [waits]
    · simp [waits]

/-! ## Who leaves before whom -/

theorem Entry.Gone.mono {later : Nat} (gone : e.Gone turn) (onward : turn ≤ later) :
    e.Gone later := by
  obtain ⟨earlier, before, how⟩ := gone
  exact ⟨earlier, Nat.lt_of_lt_of_le before onward, how⟩

theorem Entry.Gone.not_waiting (gone : e.Gone turn) : e.fate ≠ .waiting := by
  intro waits
  obtain ⟨earlier, -, how⟩ := gone
  rw [waits] at how
  rcases how with ⟨⟨⟩⟩ | ⟨⟨⟩⟩

theorem Until.next (since : Until turn book) : Until (turn + 1) book := by
  intro e mem
  rcases since e mem with waits | gone
  · exact Or.inl waits
  · exact Or.inr (gone.mono (Nat.le_succ _))

theorem until_join (since : Until turn book) (item : α) : Until turn (join book item) := by
  intro e mem
  rcases List.mem_append.mp mem with old | new
  · exact since e old
  · rw [List.mem_singleton.mp new]
    exact Or.inl rfl

theorem mem_serve (mem : e ∈ serve turn book) :
    e ∈ book ∨ e.fate = .served turn ∧ ⟨e.item, .waiting⟩ ∈ book := by
  induction book with
  | nil => cases mem
  | cons d book ih =>
    rw [serve] at mem
    split at mem
    · rename_i waits
      rcases List.mem_cons.mp mem with rfl | mem
      · refine Or.inr ⟨rfl, ?_⟩
        rw [← waits]
        exact List.mem_cons_self
      · exact Or.inl (List.mem_cons_of_mem _ mem)
    · rcases List.mem_cons.mp mem with rfl | mem
      · exact Or.inl List.mem_cons_self
      · rcases ih mem with old | ⟨served, old⟩
        · exact Or.inl (List.mem_cons_of_mem _ old)
        · exact Or.inr ⟨served, List.mem_cons_of_mem _ old⟩

theorem mem_drop (mem : e ∈ drop turn out book) :
    e ∈ book ∨ e.fate = .dropped turn ∧ out e.item = true ∧ ⟨e.item, .waiting⟩ ∈ book := by
  obtain ⟨d, old, rfl⟩ := List.mem_map.mp mem
  split
  · rename_i leaves
    refine Or.inr ⟨rfl, leaves.2, ?_⟩
    rw [← leaves.1]
    exact old
  · exact Or.inl old

theorem until_serve (since : Until turn book) : Until (turn + 1) (serve turn book) := by
  intro e mem
  rcases mem_serve mem with old | ⟨served, -⟩
  · exact since.next e old
  · exact Or.inr ⟨turn, Nat.lt_succ_self _, Or.inl served⟩

theorem until_drop (since : Until turn book) (out : α → Bool) :
    Until (turn + 1) (drop turn out book) := by
  intro e mem
  rcases mem_drop mem with old | ⟨dropped, -⟩
  · exact since.next e old
  · exact Or.inr ⟨turn, Nat.lt_succ_self _, Or.inr dropped⟩

theorem inOrder_join (ordered : InOrder book) (item : α) : InOrder (join book item) := by
  unfold InOrder join
  rw [List.pairwise_append]
  refine ⟨ordered, List.pairwise_singleton _ _, ?_⟩
  intro a mem b new later served
  rw [List.mem_singleton.mp new] at served
  cases served

/-- Behind one that waits nobody has been served. -/
theorem inOrder_serve (ordered : InOrder book) (since : Until turn book) :
    InOrder (serve turn book) := by
  induction book with
  | nil => exact ordered
  | cons e book ih =>
    obtain ⟨behind, rest⟩ := List.pairwise_cons.mp ordered
    have later : Until turn book := fun d mem => since d (List.mem_cons_of_mem _ mem)
    rw [serve]
    split
    · rename_i waits
      refine List.pairwise_cons.mpr ⟨?_, rest⟩
      intro d mem other served
      exact absurd waits (behind d mem other served).not_waiting
    · rename_i left
      refine List.pairwise_cons.mpr ⟨?_, ih rest later⟩
      intro d mem other served
      rcases mem_serve mem with old | ⟨here, -⟩
      · exact behind d old other served
      · rw [here] at served
        cases served
        rcases since e List.mem_cons_self with waits | gone
        · exact absurd waits left
        · exact gone

theorem inOrder_drop (ordered : InOrder book) (turn : Nat) (out : α → Bool) :
    InOrder (drop turn out book) := by
  unfold InOrder drop
  rw [List.pairwise_map]
  refine ordered.imp ?_
  intro a b before other served
  have same : b.fate = .served other := by
    split at served
    · cases served
    · exact served
  have gone := before other same
  rw [if_neg fun leaves => gone.not_waiting leaves.1]
  exact gone

end WaitingLines
