import Mathlib.Algebra.Order.Ring.Int
import Mathlib.Data.List.Basic

/-!
# Circular buffers

A buffer of a fixed size, written and read from any place on, past its end from
its start again. What was written is read back, and a read that stops at the
end gives the part that lay before it.
-/

namespace CircularBuffers

variable {α : Type} {n : Nat} [NeZero n]

theorem turned_lt (place : Nat) : place % n < n := Nat.mod_lt _ (Nat.pos_of_neZero n)

/-- The values written one after another from a place on. -/
def store (buffer : Vector α n) (place : Nat) : List α → Vector α n
  | [] => buffer
  | value :: values => store (buffer.set (place % n) value (turned_lt place)) (place + 1) values

/-- The values read one after another from a place on. -/
def load (buffer : Vector α n) (place count : Nat) : List α :=
  (List.range count).map fun offset => buffer.get ⟨(place + offset) % n, turned_lt _⟩

theorem get_cell {size : Nat} (buffer : Vector α size) {i : Nat} (h : i < size) :
    buffer.get ⟨i, h⟩ = buffer[i] := rfl

@[simp] theorem load_length (buffer : Vector α n) (place count : Nat) :
    (load buffer place count).length = count := by
  simp [load]

theorem load_succ (buffer : Vector α n) (place count : Nat) :
    load buffer place (count + 1) =
      buffer.get ⟨place % n, turned_lt place⟩ :: load buffer (place + 1) count := by
  simp only [load, List.range_succ_eq_map, List.map_cons, List.map_map, Nat.add_zero]
  congr 1
  apply List.map_congr_left
  intro offset _
  simp only [Function.comp_apply, Nat.succ_eq_add_one, Nat.add_assoc, Nat.add_comm 1]

theorem load_add (buffer : Vector α n) (place count more : Nat) :
    load buffer place (count + more) =
      load buffer place count ++ load buffer (place + count) more := by
  induction count generalizing place with
  | zero => simp [load]
  | succ count ih =>
    rw [Nat.succ_add, load_succ, load_succ, ih, List.cons_append, Nat.add_assoc place,
      Nat.add_comm 1]

/-- A place that is not written keeps what it held. -/
theorem store_untouched (buffer : Vector α n) (place : Nat) (values : List α) {i : Nat} (h : i < n)
    (away : ∀ offset < values.length, (place + offset) % n ≠ i) :
    (store buffer place values)[i] = buffer[i] := by
  induction values generalizing buffer place with
  | nil => rfl
  | cons value values ih =>
    rw [store, ih]
    · exact Vector.getElem_set_ne _ h (away 0 (Nat.succ_pos _))
    · intro offset small
      rw [Nat.add_assoc, Nat.add_comm 1]
      exact away (offset + 1) (Nat.succ_lt_succ small)

theorem turned_ne {size place offset : Nat} (small : offset + 1 < size) :
    (place + 1 + offset) % size ≠ place % size := by
  intro same
  have divides : size ∣ place + 1 + offset - place :=
    Nat.dvd_of_mod_eq_zero (Nat.sub_mod_eq_zero_of_mod_eq same)
  exact Nat.not_dvd_of_pos_of_lt (by omega) (by omega) divides

/-- What was written is read back, as long as it does not overtake itself. -/
theorem load_store (buffer : Vector α n) (place : Nat) {values : List α}
    (fits : values.length ≤ n) : load (store buffer place values) place values.length = values := by
  induction values generalizing buffer place with
  | nil => rfl
  | cons value values ih =>
    rw [List.length_cons] at fits
    rw [List.length_cons, load_succ, store, ih _ _ (Nat.le_of_succ_le fits)]
    congr 1
    rw [get_cell, store_untouched _ _ _ _ fun offset small => turned_ne (by omega)]
    exact Vector.getElem_set_self _

/-- A read that stops at the end of the buffer. -/
theorem load_flat (buffer : Vector α n) {place count : Nat} (inside : place + count ≤ n) :
    load buffer place count = (buffer.toList.drop place).take count := by
  apply List.ext_getElem
  · simp
    omega
  · intro offset small _
    rw [load_length] at small
    have low : (place + offset) % n = place + offset := Nat.mod_eq_of_lt (by omega)
    simp [load, low, get_cell]

/-- A flat read of what was written gives the part that lies before the end. -/
theorem flat_store (buffer : Vector α n) {place : Nat} {values : List α}
    (fits : values.length ≤ n) :
    ((store buffer place values).toList.drop place).take values.length =
      values.take (n - place) := by
  by_cases behind : n ≤ place
  · have none : n - place = 0 := by omega
    rw [List.drop_of_length_le (by simpa using behind), List.take_nil, none, List.take_zero]
  have inside : place + min values.length (n - place) ≤ n := by omega
  have split : min values.length (n - place) + (values.length - (n - place)) = values.length := by
    omega
  have whole := load_store buffer place fits
  rw [← split, load_add] at whole
  have front : load (store buffer place values) place (min values.length (n - place)) =
      values.take (min values.length (n - place)) := by
    have taken := congrArg (List.take (min values.length (n - place))) whole
    rwa [List.take_left' (load_length _ _ _)] at taken
  rw [load_flat _ inside] at front
  calc ((store buffer place values).toList.drop place).take values.length
      = ((store buffer place values).toList.drop place).take (min values.length (n - place)) := by
        rw [← List.take_take]
        congr 1
        exact (List.take_of_length_le (by simp)).symm
    _ = values.take (min values.length (n - place)) := front
    _ = values.take (n - place) := by
        rw [Nat.min_comm]
        exact List.take_eq_take_min.symm

end CircularBuffers
