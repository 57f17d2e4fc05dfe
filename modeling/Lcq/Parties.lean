import Mathlib.Logic.Function.Basic

/-!
# Parties that rely on each other

Parties change their own states one at a time, in any order. What a party may
do can go by what the parties have shown so far. If the steps a party may take
keep what is said of it, and take back nothing it has shown, then it is kept of
all of them, however their steps are interleaved.
-/

namespace Parties

/-- Parties with a step each, and what a party in a state has shown. -/
structure System (ι σ ε φ : Type) where
  next : ι → σ → ε → σ
  shows : ι → σ → φ → Prop

namespace System

variable {ι σ ε φ : Type} (S : System ι σ ε φ)

/-- What some party has shown. -/
def Known (world : ι → σ) (x : φ) : Prop := ∃ i, S.shows i (world i) x

variable [DecidableEq ι]

def step (world : ι → σ) (event : ι × ε) : ι → σ :=
  Function.update world event.1 (S.next event.1 (world event.1) event.2)

def after (world : ι → σ) (events : List (ι × ε)) : ι → σ := events.foldl S.step world

/-- Every step is one its party may take, by what is known when it is taken. -/
def Follows (rule : (φ → Prop) → ι → σ → ε → Prop) : (ι → σ) → List (ι × ε) → Prop
  | _, [] => True
  | world, event :: rest =>
    rule (S.Known world) event.1 (world event.1) event.2 ∧ Follows rule (S.step world event) rest

/-- What is said of a party stands as more becomes known, and a step it may take, while it is
true of all, keeps it and what the party has shown. -/
structure Reliable (rule : (φ → Prop) → ι → σ → ε → Prop) (I : (φ → Prop) → ι → σ → Prop) :
    Prop where
  more : ∀ {K L : φ → Prop} {i s}, (∀ x, K x → L x) → I K i s → I L i s
  kept : ∀ {world : ι → σ} {i e}, (∀ j, I (S.Known world) j (world j)) →
    rule (S.Known world) i (world i) e → I (S.Known world) i (S.next i (world i) e)
  shown : ∀ {world : ι → σ} {i e x}, (∀ j, I (S.Known world) j (world j)) →
    rule (S.Known world) i (world i) e → S.shows i (world i) x → S.shows i (S.next i (world i) e) x

variable {S} {rule : (φ → Prop) → ι → σ → ε → Prop} {I : (φ → Prop) → ι → σ → Prop}
  {world : ι → σ}

theorem step_own (world : ι → σ) (event : ι × ε) :
    S.step world event event.1 = S.next event.1 (world event.1) event.2 :=
  Function.update_self ..

theorem step_other {i : ι} (event : ι × ε) (other : i ≠ event.1) :
    S.step world event i = world i :=
  Function.update_of_ne other ..

theorem known_step (reliable : S.Reliable rule I) {event : ι × ε}
    (holds : ∀ i, I (S.Known world) i (world i))
    (allowed : rule (S.Known world) event.1 (world event.1) event.2) {x : φ}
    (known : S.Known world x) : S.Known (S.step world event) x := by
  obtain ⟨i, shown⟩ := known
  refine ⟨i, ?_⟩
  by_cases own : i = event.1
  · subst own
    rw [step_own]
    exact reliable.shown holds allowed shown
  · rw [step_other event own]
    exact shown

theorem holds_step (reliable : S.Reliable rule I) {event : ι × ε}
    (holds : ∀ i, I (S.Known world) i (world i))
    (allowed : rule (S.Known world) event.1 (world event.1) event.2) (i : ι) :
    I (S.Known (S.step world event)) i (S.step world event i) := by
  have grown : ∀ x, S.Known world x → S.Known (S.step world event) x :=
    fun _ known => known_step reliable holds allowed known
  by_cases own : i = event.1
  · subst own
    rw [step_own]
    exact reliable.more grown (reliable.kept holds allowed)
  · rw [step_other event own]
    exact reliable.more grown (holds i)

/-- However the steps are interleaved, what is said of the parties is true of them at the end,
and what has been shown stays so. -/
theorem holds_after (reliable : S.Reliable rule I) {events : List (ι × ε)}
    (holds : ∀ i, I (S.Known world) i (world i)) (follows : S.Follows rule world events) :
    (∀ i, I (S.Known (S.after world events)) i (S.after world events i)) ∧
      ∀ x, S.Known world x → S.Known (S.after world events) x := by
  induction events generalizing world with
  | nil => exact ⟨holds, fun _ known => known⟩
  | cons event rest ih =>
    obtain ⟨allowed, follows⟩ := follows
    obtain ⟨all, later⟩ := ih (holds_step reliable holds allowed) follows
    exact ⟨all, fun x known => later x (known_step reliable holds allowed known)⟩

theorem after_append (world : ι → σ) (events later : List (ι × ε)) :
    S.after world (events ++ later) = S.after (S.after world events) later :=
  List.foldl_append

theorem follows_append {events later : List (ι × ε)} :
    S.Follows rule world (events ++ later) ↔
      S.Follows rule world events ∧ S.Follows rule (S.after world events) later := by
  induction events generalizing world with
  | nil => exact ⟨fun follows => ⟨trivial, follows⟩, fun follows => follows.2⟩
  | cons event rest ih =>
    constructor
    · rintro ⟨allowed, follows⟩
      exact ⟨⟨allowed, (ih.mp follows).1⟩, (ih.mp follows).2⟩
    · rintro ⟨⟨allowed, first⟩, second⟩
      exact ⟨allowed, ih.mpr ⟨first, second⟩⟩

end System
end Parties
