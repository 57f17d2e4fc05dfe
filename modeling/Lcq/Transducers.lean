import Mathlib.Algebra.Order.Ring.Int
import Mathlib.Data.List.Basic

/-!
# Machines fed from a stream

A machine takes one input at a time and may say something at each. What it has
said after a stream does not depend on how the stream was cut, and two machines
whose steps agree under a relation of their states say the same.
-/

namespace Transducers

variable {σ τ ι ω υ : Type}

/-- Feed a machine, collecting what it says. -/
def feed (step : σ → ι → σ × List ω) : σ → List ι → σ × List ω
  | s, [] => (s, [])
  | s, x :: xs =>
    let said := step s x
    let rest := feed step said.1 xs
    (rest.1, said.2 ++ rest.2)

/-- Feed a machine chunk by chunk. -/
def feedChunks (step : σ → ι → σ × List ω) : σ → List (List ι) → σ × List ω
  | s, [] => (s, [])
  | s, chunk :: chunks =>
    let said := feed step s chunk
    let rest := feedChunks step said.1 chunks
    (rest.1, said.2 ++ rest.2)

variable (step : σ → ι → σ × List ω)

@[simp] theorem feed_nil (s : σ) : feed step s [] = (s, []) := rfl

@[simp] theorem feed_cons (s : σ) (x : ι) (xs : List ι) :
    feed step s (x :: xs) =
      ((feed step (step s x).1 xs).1, (step s x).2 ++ (feed step (step s x).1 xs).2) := rfl

theorem feed_append (s : σ) (xs ys : List ι) :
    feed step s (xs ++ ys) =
      ((feed step (feed step s xs).1 ys).1,
        (feed step s xs).2 ++ (feed step (feed step s xs).1 ys).2) := by
  induction xs generalizing s with
  | nil => simp
  | cons x xs ih => simp [ih, List.append_assoc]

/-- Chunks are fed as the stream they are cut from. -/
theorem feedChunks_eq (s : σ) (chunks : List (List ι)) :
    feedChunks step s chunks = feed step s chunks.flatten := by
  induction chunks generalizing s with
  | nil => rfl
  | cons chunk chunks ih => simp [feedChunks, ih, feed_append]

/-- What every step keeps, and grants of what is said, a whole stream does. -/
theorem feed_keeps {I : σ → Prop} {G : ω → Prop}
    (kept : ∀ s x, I s → I (step s x).1 ∧ ∀ o ∈ (step s x).2, G o)
    {s : σ} (inv : I s) (xs : List ι) :
    I (feed step s xs).1 ∧ ∀ o ∈ (feed step s xs).2, G o := by
  induction xs generalizing s with
  | nil => exact ⟨inv, fun o mem => absurd mem List.not_mem_nil⟩
  | cons x xs ih =>
    obtain ⟨inv', good⟩ := kept s x inv
    obtain ⟨last, goods⟩ := ih inv'
    refine ⟨last, fun o mem => ?_⟩
    rcases List.mem_append.mp mem with now | later
    · exact good o now
    · exact goods o later

/-- Two machines with related states that say the same at each input, the first one's words
translated, say the same over a stream. -/
theorem feed_simulated {step' : τ → ι → τ × List υ} {Related : σ → τ → Prop}
    {translate : ω → Option υ}
    (alike : ∀ s t x, Related s t → Related (step s x).1 (step' t x).1 ∧
      (step s x).2.filterMap translate = (step' t x).2)
    {s : σ} {t : τ} (related : Related s t) (xs : List ι) :
    Related (feed step s xs).1 (feed step' t xs).1 ∧
      (feed step s xs).2.filterMap translate = (feed step' t xs).2 := by
  induction xs generalizing s t with
  | nil => exact ⟨related, rfl⟩
  | cons x xs ih =>
    obtain ⟨related', now⟩ := alike s t x related
    obtain ⟨last, later⟩ := ih related'
    exact ⟨last, by simp only [feed_cons, List.filterMap_append, now, later]⟩

end Transducers
