import Mathlib.Algebra.Order.Ring.Int
import Mathlib.Data.List.Basic

/-!
# Programs that can be stopped anywhere

A program changes a state call by call. It runs to its end, or a call fails
and an error comes back, or the process dies inside a call; in each case the
state is what the calls so far have made of it. What the world does at a call
is a `Fate`, given from outside.
-/

namespace Program

/-- Why a program did not run to its end. -/
inductive Stop (ε : Type) where
  | failed (error : ε)
  | died
  deriving DecidableEq

/-- What becomes of one call. A call that fails or dies may have done part of its work. -/
inductive Fate where
  | done
  | fails (part : Nat)
  | dies (part : Nat)
  deriving DecidableEq

def Fate.isFailure : Fate → Bool
  | .fails _ => true
  | _ => false

def Fate.isDeath : Fate → Bool
  | .dies _ => true
  | _ => false

def Prog (σ ε α : Type) : Type := σ → Except (Stop ε) α × σ

variable {σ τ ε δ α β : Type}

def andThen (r : Except (Stop ε) α × σ) (f : α → Prog σ ε β) : Except (Stop ε) β × σ :=
  match r with
  | (.ok a, s) => f a s
  | (.error stop, s) => (.error stop, s)

instance : Monad (Prog σ ε) where
  pure a := fun s => (.ok a, s)
  bind p f := fun s => andThen (p s) f

def read : Prog σ ε σ := fun s => (.ok s, s)

def change (f : σ → σ) : Prog σ ε Unit := fun s => (.ok (), f s)

def fail (error : ε) : Prog σ ε α := fun s => (.error (.failed error), s)

/-- A call that does `part n` of its work, or all of it, as its fate has it. -/
def call (fate : Fate) (error : ε) (part : Nat → σ → σ) (whole : σ → σ) : Prog σ ε Unit :=
  fun s =>
    match fate with
    | .done => (.ok (), whole s)
    | .fails n => (.error (.failed error), part n s)
    | .dies n => (.error .died, part n s)

/-- A call that has no effect unless it succeeds. -/
def step (fate : Fate) (error : ε) (whole : σ → σ) : Prog σ ε Unit :=
  call fate error (fun _ s => s) whole

/-- Die on the spot. -/
def halt : Prog σ ε α := fun s => (.error .died, s)

/-- Hand an error back as a value. Death cannot be caught. -/
def caught (p : Prog σ ε α) : Prog σ δ (Except ε α) := fun s =>
  match p s with
  | (.ok a, t) => (.ok (.ok a), t)
  | (.error (.failed e), t) => (.ok (.error e), t)
  | (.error .died, t) => (.error .died, t)

/-- The same program, its errors under another name. -/
def mapError (f : ε → δ) (p : Prog σ ε α) : Prog σ δ α := fun s =>
  match p s with
  | (.ok a, t) => (.ok a, t)
  | (.error (.failed e), t) => (.error (.failed (f e)), t)
  | (.error .died, t) => (.error .died, t)

/-- A program on a part of the state. -/
def zoom (get : σ → τ) (put : τ → σ → σ) (p : Prog τ ε α) : Prog σ ε α := fun s =>
  ((p (get s)).1, put (p (get s)).2 s)

def ofExcept : Except ε α → Prog σ ε α
  | .ok a => pure a
  | .error e => fail e

@[simp] theorem andThen_ok (a : α) (s : σ) (f : α → Prog σ ε β) :
    andThen (.ok a, s) f = f a s := rfl

@[simp] theorem andThen_error (stop : Stop ε) (s : σ) (f : α → Prog σ ε β) :
    andThen (.error stop, s) f = (.error stop, s) := rfl

@[simp] theorem bind_apply (p : Prog σ ε α) (f : α → Prog σ ε β) (s : σ) :
    (p >>= f) s = andThen (p s) f := rfl

theorem andThen_bind {γ : Type} (r : Except (Stop ε) α × σ) (f : α → Prog σ ε β)
    (g : β → Prog σ ε γ) : andThen r (fun a => f a >>= g) = andThen (andThen r f) g := by
  obtain ⟨_ | _, _⟩ := r <;> rfl

instance : LawfulMonad (Prog σ ε) :=
  .mk' _ (fun p => funext fun s => by
    show andThen (p s) _ = p s
    obtain ⟨_ | _, _⟩ := p s <;> rfl) (fun _ _ => rfl)
    fun p f g => funext fun s => (andThen_bind (p s) f g).symm

theorem andThen_eq_ok {r : Except (Stop ε) α × σ} {f : α → Prog σ ε β} {b : β} {t : σ}
    (ok : andThen r f = (.ok b, t)) : ∃ a s, r = (.ok a, s) ∧ f a s = (.ok b, t) := by
  obtain ⟨stop | a, s⟩ := r
  · cases ok
  · exact ⟨a, s, rfl, ok⟩

@[simp] theorem pure_apply (a : α) (s : σ) : (pure a : Prog σ ε α) s = (.ok a, s) := rfl

@[simp] theorem read_apply (s : σ) : (read : Prog σ ε σ) s = (.ok s, s) := rfl

@[simp] theorem change_apply (f : σ → σ) (s : σ) :
    (change f : Prog σ ε Unit) s = (.ok (), f s) := rfl

@[simp] theorem fail_apply (error : ε) (s : σ) :
    (fail error : Prog σ ε α) s = (.error (.failed error), s) := rfl

theorem mapError_eq_ok {p : Prog σ ε α} {f : ε → δ} {s t : σ} {a : α}
    (ok : mapError f p s = (.ok a, t)) : p s = (.ok a, t) := by
  unfold mapError at ok
  split at ok
  · cases ok
    assumption
  · cases ok
  · cases ok

theorem caught_eq_ok {p : Prog σ ε α} {s t : σ} {a : α}
    (ok : (caught p : Prog σ δ _) s = (.ok (.ok a), t)) : p s = (.ok a, t) := by
  unfold caught at ok
  split at ok
  · cases ok
    assumption
  · cases ok
  · cases ok

/-- A caught program ends or dies; it does not fail. -/
theorem caught_not_failed (p : Prog σ ε α) (s : σ) (e : δ) :
    (caught p s).1 ≠ .error (.failed e) := by
  unfold caught
  split <;> simp

@[simp] theorem zoom_apply (get : σ → τ) (put : τ → σ → σ) (p : Prog τ ε α) (s : σ) :
    zoom get put p s = ((p (get s)).1, put (p (get s)).2 s) := rfl

@[simp] theorem ofExcept_ok (a : α) (s : σ) :
    (ofExcept (.ok a) : Prog σ ε α) s = (.ok a, s) := rfl

@[simp] theorem ofExcept_error (e : ε) (s : σ) :
    (ofExcept (.error e) : Prog σ ε α) s = (.error (.failed e), s) := rfl

@[simp] theorem call_done (error : ε) (part : Nat → σ → σ) (whole : σ → σ) (s : σ) :
    call .done error part whole s = (.ok (), whole s) := rfl

@[simp] theorem call_fails (n : Nat) (error : ε) (part : Nat → σ → σ) (whole : σ → σ) (s : σ) :
    call (.fails n) error part whole s = (.error (.failed error), part n s) := rfl

@[simp] theorem call_dies (n : Nat) (error : ε) (part : Nat → σ → σ) (whole : σ → σ) (s : σ) :
    call (.dies n) error part whole s = (.error .died, part n s) := rfl

@[simp] theorem step_done (error : ε) (whole : σ → σ) (s : σ) :
    step .done error whole s = (.ok (), whole s) := rfl

@[simp] theorem step_fails (n : Nat) (error : ε) (whole : σ → σ) (s : σ) :
    step (.fails n) error whole s = (.error (.failed error), s) := rfl

@[simp] theorem step_dies (n : Nat) (error : ε) (whole : σ → σ) (s : σ) :
    step (.dies n) error whole s = (.error .died, s) := rfl

/-! ## Invariants -/

/-- The program keeps an invariant wherever it stops, short of dying. -/
def Keeps (I : σ → Prop) (p : Prog σ ε α) : Prop :=
  ∀ s, I s → (p s).1 ≠ .error .died → I (p s).2

section keeps

variable {I : σ → Prop}

theorem Keeps.pure (a : α) : Keeps I (Pure.pure a : Prog σ ε α) := fun _ held _ => held

theorem Keeps.read : Keeps I (Program.read : Prog σ ε σ) := fun _ held _ => held

theorem Keeps.fail (error : ε) : Keeps I (Program.fail error : Prog σ ε α) := fun _ held _ => held

theorem Keeps.change {f : σ → σ} (kept : ∀ s, I s → I (f s)) :
    Keeps I (Program.change f : Prog σ ε Unit) := fun s held _ => kept s held

theorem Keeps.call {fate : Fate} {error : ε} {part : Nat → σ → σ} {whole : σ → σ}
    (parts : ∀ n s, I s → I (part n s)) (wholes : ∀ s, I s → I (whole s)) :
    Keeps I (Program.call fate error part whole) := by
  intro s held lives
  cases fate with
  | done => exact wholes s held
  | fails n => exact parts n s held
  | dies n => exact absurd rfl lives

theorem Keeps.step {fate : Fate} {error : ε} {whole : σ → σ} (wholes : ∀ s, I s → I (whole s)) :
    Keeps I (Program.step fate error whole) :=
  Keeps.call (fun _ _ held => held) wholes

theorem Keeps.ofExcept (r : Except ε α) : Keeps I (Program.ofExcept r : Prog σ ε α) := by
  cases r with
  | ok a => exact Keeps.pure a
  | error e => exact Keeps.fail e

theorem Keeps.bind {p : Prog σ ε α} {f : α → Prog σ ε β} (first : Keeps I p)
    (second : ∀ a, Keeps I (f a)) : Keeps I (p >>= f) := by
  intro s held lives
  have here := first s held
  simp only [bind_apply] at lives ⊢
  generalize p s = out at here lives
  obtain ⟨(e | _) | a, t⟩ := out
  · exact here (by simp)
  · exact absurd rfl lives
  · exact second a t (here (by simp)) lives

theorem Keeps.caught {p : Prog σ ε α} (kept : Keeps I p) :
    Keeps I (Program.caught p : Prog σ δ _) := by
  intro s held lives
  have here := kept s held
  unfold Program.caught at lives ⊢
  generalize p s = out at here lives
  obtain ⟨(e | _) | a, t⟩ := out
  · exact here (by simp)
  · exact absurd rfl lives
  · exact here (by simp)

theorem Keeps.mapError {p : Prog σ ε α} {f : ε → δ} (kept : Keeps I p) :
    Keeps I (Program.mapError f p) := by
  intro s held lives
  have here := kept s held
  unfold Program.mapError at lives ⊢
  generalize p s = out at here lives
  obtain ⟨(e | _) | a, t⟩ := out
  · exact here (by simp)
  · exact absurd rfl lives
  · exact here (by simp)

/-- What a program keeps of a part, it keeps of the whole. -/
theorem Keeps.zoom {J : τ → Prop} {get : σ → τ} {put : τ → σ → σ}
    {p : Prog τ ε α} (kept : Keeps J p) (get_put : ∀ t s, get (put t s) = t) :
    Keeps (fun s => J (get s)) (Program.zoom get put p) := by
  intro s held lives
  have here := kept (get s) held lives
  rw [← get_put (p (get s)).2 s] at here
  exact here

end keeps

/-! ## What a program that runs to its end leaves -/

/-- If the program returns, its answer and the state it leaves are as said. -/
def Yields (p : Prog σ ε α) (s : σ) (Q : α → σ → Prop) : Prop :=
  ∀ a t, p s = (.ok a, t) → Q a t

section yields

variable {s : σ} {Q : α → σ → Prop}

theorem Yields.pure {a : α} (holds : Q a s) : Yields (Pure.pure a : Prog σ ε α) s Q := by
  rintro _ _ ⟨⟩
  exact holds

theorem Yields.change {f : σ → σ} {Q : Unit → σ → Prop} (holds : Q () (f s)) :
    Yields (Program.change f : Prog σ ε Unit) s Q := by
  rintro _ _ ⟨⟩
  exact holds

theorem Yields.halt : Yields (Program.halt : Prog σ ε α) s Q := by
  rintro _ _ ⟨⟩

theorem Yields.bind {p : Prog σ ε α} {f : α → Prog σ ε β} {R : α → σ → Prop}
    {Q : β → σ → Prop} (first : Yields p s R) (second : ∀ a t, R a t → Yields (f a) t Q) :
    Yields (p >>= f) s Q := by
  intro b u ran
  obtain ⟨a, t, here, rest⟩ := andThen_eq_ok ran
  exact second a t (first a t here) b u rest

theorem Yields.reading {f : σ → Prog σ ε α} (rest : Yields (f s) s Q) :
    Yields (Program.read >>= f) s Q := rest

theorem Yields.weaken {p : Prog σ ε α} {R : α → σ → Prop} (yields : Yields p s R)
    (weaker : ∀ a t, R a t → Q a t) : Yields p s Q :=
  fun a t ran => weaker a t (yields a t ran)

/-- What is caught has left its state, and is the answer or the error there was. -/
theorem Yields.caught (p : Prog σ ε α) : Yields (Program.caught p : Prog σ δ (Except ε α)) s
    fun out t => t = (p s).2 ∧ (p s).1 ≠ .error .died ∧ (∀ a, out = .ok a → p s = (.ok a, t)) ∧
      ∀ e, out = .error e → p s = (.error (.failed e), t) := by
  intro out t ran
  unfold Program.caught at ran
  split at ran
  · rename_i a u done
    cases ran
    rw [done]
    exact ⟨rfl, nofun, by rintro _ ⟨⟩; rfl, nofun⟩
  · rename_i e u failed
    cases ran
    rw [failed]
    exact ⟨rfl, nofun, nofun, by rintro _ ⟨⟩; rfl⟩
  · cases ran

end yields

/-! ## Wherever a program stops -/

/-- The program keeps an invariant wherever it stops, dying included. -/
def Always (I : σ → Prop) (p : Prog σ ε α) : Prop := ∀ s, I s → I (p s).2

section always

variable {I : σ → Prop}

theorem Always.pure (a : α) : Always I (Pure.pure a : Prog σ ε α) := fun _ held => held

theorem Always.halt : Always I (Program.halt : Prog σ ε α) := fun _ held => held

theorem Always.change {f : σ → σ} (kept : ∀ s, I s → I (f s)) :
    Always I (Program.change f : Prog σ ε Unit) := kept

theorem Always.bind {p : Prog σ ε α} {f : α → Prog σ ε β} (first : Always I p)
    (second : ∀ a, Always I (f a)) : Always I (p >>= f) := by
  intro s held
  have here := first s held
  rw [bind_apply]
  generalize p s = out at here
  obtain ⟨_ | a, t⟩ := out
  · exact here
  · exact second a t here

theorem Always.reading {f : σ → Prog σ ε α} (rest : ∀ s, Always I (f s)) :
    Always I (Program.read >>= f) := fun s held => rest s s held

theorem Always.caught {p : Prog σ ε α} (kept : Always I p) :
    Always I (Program.caught p : Prog σ δ _) := by
  intro s held
  have here := kept s held
  unfold Program.caught
  split
  all_goals
    rename_i ran
    rwa [ran] at here

/-- What a program on a part does not reach. -/
theorem Always.beside {get : σ → τ} {put : τ → σ → σ} (p : Prog τ ε α)
    (kept : ∀ t s, I s → I (put t s)) : Always I (Program.zoom get put p) :=
  fun _ held => kept _ _ held

end always

/-- If the program returns, its answer and the state it leaves are as said, and if it is
stopped, the state it leaves is. -/
structure Leads (p : Prog σ ε α) (s : σ) (Q : α → σ → Prop) (E : σ → Prop) : Prop where
  returned : Yields p s Q
  stopped : ∀ stop t, p s = (.error stop, t) → E t

section leads

variable {s : σ} {Q : α → σ → Prop} {E : σ → Prop}

theorem Always.leads {I : σ → Prop} {p : Prog σ ε α} (always : Always I p) (held : I s) :
    Leads p s (fun _ t => I t) I := by
  have here := always s held
  constructor
  · intro a t ran
    rwa [ran] at here
  · intro stop t ran
    rwa [ran] at here

theorem Leads.pure {a : α} (holds : Q a s) : Leads (Pure.pure a : Prog σ ε α) s Q E :=
  ⟨Yields.pure holds, nofun⟩

theorem Leads.change {f : σ → σ} {Q : Unit → σ → Prop} (holds : Q () (f s)) :
    Leads (Program.change f : Prog σ ε Unit) s Q E :=
  ⟨Yields.change holds, nofun⟩

theorem Leads.halt (holds : E s) : Leads (Program.halt : Prog σ ε α) s Q E := by
  refine ⟨Yields.halt, ?_⟩
  rintro _ _ ⟨⟩
  exact holds

theorem Leads.bind {p : Prog σ ε α} {f : α → Prog σ ε β} {R : α → σ → Prop}
    {Q : β → σ → Prop} (first : Leads p s R E) (second : ∀ a t, R a t → Leads (f a) t Q E) :
    Leads (p >>= f) s Q E := by
  refine ⟨first.returned.bind fun a t here => (second a t here).returned, ?_⟩
  intro stop u ran
  rw [bind_apply] at ran
  cases here : p s with
  | mk out t =>
    rw [here] at ran
    cases out with
    | error e =>
      cases ran
      exact first.stopped _ _ here
    | ok a => exact (second a t (first.returned a t here)).stopped stop u ran

theorem Leads.reading {f : σ → Prog σ ε α} (rest : Leads (f s) s Q E) :
    Leads (Program.read >>= f) s Q E := ⟨rest.returned, rest.stopped⟩

theorem Leads.weaken {p : Prog σ ε α} {R : α → σ → Prop} {F : σ → Prop} (leads : Leads p s R F)
    (returned : ∀ a t, R a t → Q a t) (stopped : ∀ t, F t → E t) : Leads p s Q E :=
  ⟨leads.returned.weaken returned, fun stop t ran => stopped t (leads.stopped stop t ran)⟩

/-- What has been run may be told. -/
theorem Leads.ran {p : Prog σ ε α} (leads : Leads p s Q E) :
    Leads p s (fun a t => p s = (.ok a, t) ∧ Q a t) E :=
  ⟨fun a t here => ⟨here, leads.returned a t here⟩, leads.stopped⟩

/-- What is caught has left its state, as an answer, as an error or dying. -/
theorem Leads.caught (p : Prog σ ε α) : Leads (Program.caught p : Prog σ δ (Except ε α)) s
    (fun out t => t = (p s).2 ∧ (p s).1 ≠ .error .died ∧ (∀ a, out = .ok a → p s = (.ok a, t)) ∧
      ∀ e, out = .error e → p s = (.error (.failed e), t))
    (fun t => p s = (.error .died, t)) := by
  refine ⟨Yields.caught p, ?_⟩
  intro stop t ran
  unfold Program.caught at ran
  split at ran
  · cases ran
  · cases ran
  · rename_i died
    cases ran
    exact died

end leads

end Program
