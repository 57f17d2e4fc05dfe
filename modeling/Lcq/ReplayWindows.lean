import Mathlib.Algebra.Order.Ring.Int
import Mathlib.Data.List.Induction
import Mathlib.Data.List.Nodup
import Mathlib.Data.Nat.Bitwise

/-!
# What a receiver remembers of one sender's sequence numbers

A window keeps the newest number and one bit for each of the recent ones. A
number is a replay if its bit is set or if it is too far behind for a bit.
-/

namespace ReplayWindows

/-- How many numbers behind the newest a frame may still be admitted. -/
def replayWindow : UInt64 := 64

/-- Bit `i` of `bits` is set when `highest - i` has been seen. -/
structure ReplayWindow where
  highest : Option UInt64
  bits : UInt64
  deriving DecidableEq

namespace ReplayWindow

def new : ReplayWindow := ⟨none, 0⟩

/-- Everything at or below the highest number a journal recorded counts as seen. -/
def resumed (highest : UInt64) : ReplayWindow := ⟨some highest, 18446744073709551615⟩

def seen (w : ReplayWindow) (sequence : UInt64) : Bool :=
  match w.highest with
  | none => false
  | some highest =>
    if highest < sequence then false
    else
      let back := highest - sequence
      if replayWindow ≤ back then true else w.bits &&& (1 <<< back) != 0

def mark (w : ReplayWindow) (sequence : UInt64) : ReplayWindow :=
  match w.highest with
  | none => ⟨some sequence, 1⟩
  | some highest =>
    if highest < sequence then
      let shift := sequence - highest
      let bits := if replayWindow ≤ shift then 0 else w.bits <<< shift
      ⟨some sequence, bits ||| 1⟩
    else
      let back := highest - sequence
      if back < replayWindow then { w with bits := w.bits ||| (1 <<< back) } else w

end ReplayWindow

/-! ## Bits -/

theorem bit_set {bits k : UInt64} (small : k.toNat < 64) :
    (bits &&& (1 <<< k) != 0) = bits.toNat.testBit k.toNat := by
  have mask : (1 <<< k : UInt64).toNat = 2 ^ k.toNat := by
    have low : 2 ^ k.toNat < 2 ^ 64 := Nat.pow_lt_pow_right (by omega) small
    rw [UInt64.toNat_shiftLeft, Nat.mod_eq_of_lt small, UInt64.toNat_one, Nat.one_shiftLeft,
      Nat.mod_eq_of_lt low]
  have zero : (bits &&& (1 <<< k) = 0) ↔ bits.toNat &&& 2 ^ k.toNat = 0 := by
    rw [← UInt64.toNat_inj, UInt64.toNat_and, mask]
    rfl
  cases set : bits.toNat.testBit k.toNat with
  | true =>
    have nonzero : ¬ bits.toNat &&& 2 ^ k.toNat = 0 := by
      rw [Nat.and_two_pow, set]
      simp
    simpa [zero] using nonzero
  | false =>
    have null : bits.toNat &&& 2 ^ k.toNat = 0 := by
      rw [Nat.and_two_pow, set]
      simp
    simpa [zero] using null

/-- Setting one bit sets that bit. -/
theorem testBit_set {bits k : UInt64} (small : k.toNat < 64) (i : Nat) :
    (bits ||| (1 <<< k)).toNat.testBit i = (bits.toNat.testBit i || decide (k.toNat = i)) := by
  have low : 2 ^ k.toNat < 2 ^ 64 := Nat.pow_lt_pow_right (by omega) small
  rw [UInt64.toNat_or, Nat.testBit_or, UInt64.toNat_shiftLeft, Nat.mod_eq_of_lt small,
    UInt64.toNat_one, Nat.one_shiftLeft, Nat.mod_eq_of_lt low, Nat.testBit_two_pow]

theorem testBit_slide {bits k : UInt64} (small : k.toNat < 64) {i : Nat} (low : i < 64) :
    (bits <<< k ||| 1).toNat.testBit i =
      ((decide (k.toNat ≤ i) && bits.toNat.testBit (i - k.toNat)) || decide (i = 0)) := by
  rw [UInt64.toNat_or, Nat.testBit_or, UInt64.toNat_shiftLeft, Nat.mod_eq_of_lt small,
    Nat.testBit_mod_two_pow, Nat.testBit_shiftLeft, UInt64.toNat_one]
  have one : Nat.testBit 1 i = decide (i = 0) := by
    rw [Bool.eq_iff_iff, Nat.testBit_one_eq_true_iff_self_eq_zero, decide_eq_true_iff]
  simp [low, one]

/-! ## What a window knows -/

/-- The newest number is known, none newer is, and the bits say of every recent one. -/
structure Knows (w : ReplayWindow) (known : UInt64 → Prop) : Prop where
  top : ∀ s, known s → ∃ highest, w.highest = some highest ∧ s.toNat ≤ highest.toNat
  newest : ∀ highest, w.highest = some highest → known highest
  recent : ∀ highest s, w.highest = some highest → s.toNat ≤ highest.toNat →
    highest.toNat - s.toNat < 64 →
      (w.bits.toNat.testBit (highest.toNat - s.toNat) = true ↔ known s)

variable {w : ReplayWindow} {known : UInt64 → Prop}

theorem knows_new : Knows .new fun _ => False := by
  constructor
  · rintro s ⟨⟩
  · rintro highest ⟨⟩
  · rintro highest s ⟨⟩

theorem knows_resumed (highest : UInt64) :
    Knows (.resumed highest) fun s => s.toNat ≤ highest.toNat := by
  constructor
  · intro s le
    exact ⟨highest, rfl, le⟩
  · rintro _ ⟨⟩
    exact Nat.le_refl _
  · rintro _ s ⟨⟩ le small
    have full : (ReplayWindow.resumed highest).bits.toNat = 2 ^ 64 - 1 := rfl
    rw [full, Nat.testBit_two_pow_sub_one]
    simp only [small, decide_true, le]

theorem Knows.le (knows : Knows w known) {s highest : UInt64} (newest : w.highest = some highest)
    (here : known s) : s.toNat ≤ highest.toNat := by
  obtain ⟨_, some, le⟩ := knows.top s here
  rw [newest] at some
  cases some
  exact le

theorem Knows.empty (knows : Knows w known) (none : w.highest = none) (s : UInt64) :
    ¬ known s := by
  intro here
  obtain ⟨_, some, -⟩ := knows.top s here
  rw [none] at some
  cases some

/-- A number is taken for a replay exactly if it is known or out of the window. -/
theorem seen_iff (knows : Knows w known) (s : UInt64) :
    w.seen s = true ↔
      known s ∨ ∃ highest, w.highest = some highest ∧ s.toNat + 64 ≤ highest.toNat := by
  unfold ReplayWindow.seen
  cases newest : w.highest with
  | none => simp [knows.empty newest s]
  | some highest =>
    dsimp only
    have limit : replayWindow.toNat = 64 := rfl
    split
    · rename_i above
      rw [UInt64.lt_iff_toNat_lt] at above
      have unknown : ¬ known s := fun here => absurd (knows.le newest here) (by omega)
      simp only [Bool.false_eq_true, unknown, Option.some.injEq, exists_eq_left', false_or,
        false_iff]
      omega
    · rename_i below
      rw [UInt64.lt_iff_toNat_lt, Nat.not_lt] at below
      have back : (highest - s).toNat = highest.toNat - s.toNat :=
        UInt64.toNat_sub_of_le _ _ (UInt64.le_iff_toNat_le.mpr below)
      simp only [Option.some.injEq, exists_eq_left']
      split
      · rename_i far
        rw [UInt64.le_iff_toNat_le, back, limit] at far
        have out : s.toNat + 64 ≤ highest.toNat := by omega
        simp [out]
      · rename_i near
        rw [UInt64.le_iff_toNat_le, back, limit] at near
        have inside : ¬ s.toNat + 64 ≤ highest.toNat := by omega
        rw [bit_set (by omega), back, knows.recent highest s newest below (by omega)]
        simp [inside]

theorem knows_first (knows : Knows w known) (none : w.highest = none) (s : UInt64) :
    Knows ⟨some s, 1⟩ fun x => x = s ∨ known x := by
  constructor
  · rintro x (rfl | here)
    · exact ⟨x, rfl, Nat.le_refl _⟩
    · exact absurd here (knows.empty none x)
  · rintro _ ⟨⟩
    exact Or.inl rfl
  · rintro _ x ⟨⟩ le -
    simp only [knows.empty none x, or_false, UInt64.toNat_one,
      Nat.testBit_one_eq_true_iff_self_eq_zero, ← UInt64.toNat_inj]
    omega

/-- A newer number slides the bits. -/
theorem knows_newer (knows : Knows w known) {s highest : UInt64}
    (newest : w.highest = some highest) (above : highest.toNat < s.toNat) :
    Knows ⟨some s, (if replayWindow ≤ s - highest then 0 else w.bits <<< (s - highest)) ||| 1⟩
      fun x => x = s ∨ known x := by
  have limit : replayWindow.toNat = 64 := rfl
  have shift : (s - highest).toNat = s.toNat - highest.toNat :=
    UInt64.toNat_sub_of_le _ _ (UInt64.le_iff_toNat_le.mpr (Nat.le_of_lt above))
  constructor
  · rintro x (rfl | here)
    · exact ⟨x, rfl, Nat.le_refl _⟩
    · exact ⟨s, rfl, Nat.le_trans (knows.le newest here) (Nat.le_of_lt above)⟩
  · rintro _ ⟨⟩
    exact Or.inl rfl
  · rintro _ x ⟨⟩ le small
    dsimp only
    rw [← UInt64.toNat_inj]
    split
    · rename_i far
      rw [UInt64.le_iff_toNat_le, shift, limit] at far
      have unknown : ¬ known x := fun here => absurd (knows.le newest here) (by omega)
      rw [UInt64.zero_or, UInt64.toNat_one, Nat.testBit_one_eq_true_iff_self_eq_zero]
      simp only [unknown, or_false]
      omega
    · rename_i near
      rw [UInt64.le_iff_toNat_le, shift, limit] at near
      rw [testBit_slide (by omega) (by omega), shift, Bool.or_eq_true, Bool.and_eq_true,
        decide_eq_true_iff, decide_eq_true_iff]
      by_cases old : x.toNat ≤ highest.toNat
      · have place : s.toNat - x.toNat - (s.toNat - highest.toNat) =
            highest.toNat - x.toNat := by omega
        have reached : s.toNat - highest.toNat ≤ s.toNat - x.toNat := by omega
        have same : s.toNat - x.toNat = 0 ↔ x.toNat = s.toNat := by omega
        rw [place, knows.recent highest x newest old (by omega), or_comm]
        simp only [reached, true_and, same]
      · have unknown : ¬ known x := fun here => old (knows.le newest here)
        have short : ¬ s.toNat - highest.toNat ≤ s.toNat - x.toNat := by omega
        simp only [short, false_and, unknown, false_or, or_false]
        omega

/-- An older number inside the window sets its bit. -/
theorem knows_older (knows : Knows w known) {s highest : UInt64}
    (newest : w.highest = some highest) (below : s.toNat ≤ highest.toNat)
    (near : highest.toNat - s.toNat < 64) :
    Knows { w with bits := w.bits ||| (1 <<< (highest - s)) } fun x => x = s ∨ known x := by
  have back : (highest - s).toNat = highest.toNat - s.toNat :=
    UInt64.toNat_sub_of_le _ _ (UInt64.le_iff_toNat_le.mpr below)
  constructor
  · rintro x (rfl | here)
    · exact ⟨highest, newest, below⟩
    · exact ⟨highest, newest, knows.le newest here⟩
  · intro h some
    exact Or.inr (knows.newest h some)
  · intro h x some le small
    dsimp only at some ⊢
    rw [newest] at some
    cases some
    rw [testBit_set (by omega), Bool.or_eq_true, knows.recent highest x newest le small,
      decide_eq_true_iff, back, or_comm, ← UInt64.toNat_inj]
    have same : highest.toNat - s.toNat = highest.toNat - x.toNat ↔ x.toNat = s.toNat := by
      omega
    rw [same]

/-- Marking a number that is not out of the window makes it known, and nothing else. -/
theorem knows_mark (knows : Knows w known) {s : UInt64}
    (inside : ∀ highest, w.highest = some highest → highest.toNat < s.toNat + 64) :
    Knows (w.mark s) fun x => x = s ∨ known x := by
  have limit : replayWindow.toNat = 64 := rfl
  unfold ReplayWindow.mark
  split
  · rename_i none
    exact knows_first knows none s
  · rename_i highest newest
    split
    · rename_i above
      exact knows_newer knows newest (UInt64.lt_iff_toNat_lt.mp above)
    · rename_i below
      rw [UInt64.lt_iff_toNat_lt, Nat.not_lt] at below
      have near := inside highest newest
      have back : (highest - s).toNat = highest.toNat - s.toNat :=
        UInt64.toNat_sub_of_le _ _ (UInt64.le_iff_toNat_le.mpr below)
      have marked : highest - s < replayWindow := by
        rw [UInt64.lt_iff_toNat_lt, back, limit]
        omega
      dsimp only
      rw [if_pos marked]
      exact knows_older knows newest below (by omega)

/-! ## Any run of marks -/

/-- The two ways a window comes about. -/
inductive Start where
  | fresh
  | resumed (highest : UInt64)

namespace Start

def window : Start → ReplayWindow
  | fresh => .new
  | resumed highest => .resumed highest

/-- What counts as seen before the first mark. -/
def Held : Start → UInt64 → Prop
  | fresh, _ => False
  | resumed highest, s => s.toNat ≤ highest.toNat

def newest : Start → List UInt64
  | fresh => []
  | resumed highest => [highest]

end Start

theorem knows_start (start : Start) : Knows start.window start.Held := by
  cases start with
  | fresh => exact knows_new
  | resumed highest => exact knows_resumed highest

/-- What a window says after a run of marks, against all of the marks there were. -/
structure Exact (start : Start) (marks : List UInt64) (w : ReplayWindow) : Prop where
  highest : w.highest.map UInt64.toNat = ((start.newest ++ marks).map UInt64.toNat).max?
  seen : ∀ s, w.seen s = true ↔
    s ∈ marks ∨ (∃ highest, w.highest = some highest ∧ s.toNat + 64 ≤ highest.toNat) ∨
      start.Held s

/-- What a window holds is what counted at the start and every mark still in its reach. -/
structure Follows (start : Start) (marks : List UInt64) (w : ReplayWindow)
    (known : UInt64 → Prop) : Prop where
  knows : Knows w known
  highest : w.highest.map UInt64.toNat = ((start.newest ++ marks).map UInt64.toNat).max?
  sound : ∀ s, known s → s ∈ marks ∨ start.Held s
  complete : ∀ s, s ∈ marks ∨ start.Held s →
    known s ∨ ∃ highest, w.highest = some highest ∧ s.toNat + 64 ≤ highest.toNat

theorem max?_snoc (xs : List Nat) (n : Nat) :
    (xs ++ [n]).max? = some (xs.max?.elim n fun highest => max highest n) := by
  cases xs with
  | nil => rfl
  | cons x xs =>
    rw [List.cons_append, List.max?_cons', List.max?_cons', List.foldl_append]
    rfl

/-- The newest number never goes down, and every mark reaches it. -/
theorem mark_highest (w : ReplayWindow) (s : UInt64) :
    (w.mark s).highest.map UInt64.toNat =
      some ((w.highest.map UInt64.toNat).elim s.toNat fun highest => max highest s.toNat) := by
  unfold ReplayWindow.mark
  cases newest : w.highest with
  | none => rfl
  | some highest =>
    simp only [Option.map_some, Option.elim_some]
    by_cases above : highest < s
    · rw [if_pos above]
      rw [UInt64.lt_iff_toNat_lt] at above
      rw [Option.map_some, Nat.max_eq_right (Nat.le_of_lt above)]
    · rw [if_neg above]
      rw [UInt64.lt_iff_toNat_lt, Nat.not_lt] at above
      rw [Nat.max_eq_left above]
      split
      · rfl
      · exact congrArg (Option.map UInt64.toNat) newest

theorem follows_start (start : Start) : Follows start [] start.window start.Held := by
  constructor
  · exact knows_start start
  · cases start with
    | fresh => rfl
    | resumed highest => rfl
  · intro s held
    exact Or.inr held
  · rintro s (none | held)
    · cases none
    · exact Or.inl held

theorem mark_past {w : ReplayWindow} {s highest : UInt64} (newest : w.highest = some highest)
    (far : s.toNat + 64 ≤ highest.toNat) : w.mark s = w := by
  have limit : replayWindow.toNat = 64 := rfl
  have below : ¬ highest < s := by
    rw [UInt64.lt_iff_toNat_lt]
    omega
  have out : ¬ highest - s < replayWindow := by
    rw [UInt64.lt_iff_toNat_lt,
      UInt64.toNat_sub_of_le _ _ (UInt64.le_iff_toNat_le.mpr (by omega)), limit]
    omega
  unfold ReplayWindow.mark
  rw [newest]
  dsimp only
  rw [if_neg below, if_neg out]

/-- A number once out of reach stays out of reach. -/
theorem mark_reach {w : ReplayWindow} {highest : UInt64} (newest : w.highest = some highest)
    (s : UInt64) : ∃ next, (w.mark s).highest = some next ∧ highest.toNat ≤ next.toNat := by
  have marked := mark_highest w s
  rw [newest, Option.map_some, Option.elim_some, Option.map_eq_some_iff] at marked
  obtain ⟨next, now, top⟩ := marked
  exact ⟨next, now, by omega⟩

theorem Follows.mark {start : Start} {marks : List UInt64} {w : ReplayWindow}
    {known : UInt64 → Prop} (follows : Follows start marks w known) (s : UInt64) :
    ∃ known', Follows start (marks ++ [s]) (w.mark s) known' := by
  have highest : (w.mark s).highest.map UInt64.toNat =
      ((start.newest ++ (marks ++ [s])).map UInt64.toNat).max? := by
    have last : (start.newest ++ (marks ++ [s])).map UInt64.toNat =
        (start.newest ++ marks).map UInt64.toNat ++ [s.toNat] := by
      rw [← List.append_assoc, List.map_append, List.map_singleton]
    rw [mark_highest, follows.highest, last, max?_snoc]
  by_cases past : ∃ highest, w.highest = some highest ∧ s.toNat + 64 ≤ highest.toNat
  · obtain ⟨newest, now, far⟩ := past
    have same : w.mark s = w := mark_past now far
    rw [same] at highest ⊢
    refine ⟨known, follows.knows, highest, ?_, ?_⟩
    · intro x here
      rcases follows.sound x here with old | held
      · exact Or.inl (List.mem_append_left _ old)
      · exact Or.inr held
    · rintro x (old | held)
      · rcases List.mem_append.mp old with old | last
        · exact follows.complete x (Or.inl old)
        · rw [List.mem_singleton.mp last]
          exact Or.inr ⟨newest, now, far⟩
      · exact follows.complete x (Or.inr held)
  · have inside : ∀ highest, w.highest = some highest → highest.toNat < s.toNat + 64 := by
      intro newest now
      by_cases far : s.toNat + 64 ≤ newest.toNat
      · exact absurd ⟨newest, now, far⟩ past
      · omega
    have kept : ∀ x, x ∈ marks ∨ start.Held x → (x = s ∨ known x) ∨
        ∃ highest, (w.mark s).highest = some highest ∧ x.toNat + 64 ≤ highest.toNat := by
      intro x counted
      rcases follows.complete x counted with here | ⟨newest, now, far⟩
      · exact Or.inl (Or.inr here)
      · obtain ⟨next, after, up⟩ := mark_reach now s
        exact Or.inr ⟨next, after, by omega⟩
    refine ⟨fun x => x = s ∨ known x, knows_mark follows.knows inside, highest, ?_, ?_⟩
    · rintro x (rfl | here)
      · exact Or.inl (List.mem_append_right _ (List.mem_singleton_self _))
      · rcases follows.sound x here with old | held
        · exact Or.inl (List.mem_append_left _ old)
        · exact Or.inr held
    · rintro x (old | held)
      · rcases List.mem_append.mp old with old | last
        · exact kept x (Or.inl old)
        · exact Or.inl (Or.inl (List.mem_singleton.mp last))
      · exact kept x (Or.inr held)

theorem Follows.exact {start : Start} {marks : List UInt64} {w : ReplayWindow}
    {known : UInt64 → Prop} (follows : Follows start marks w known) : Exact start marks w := by
  refine ⟨follows.highest, fun s => ?_⟩
  rw [seen_iff follows.knows]
  constructor
  · rintro (here | far)
    · rcases follows.sound s here with old | held
      · exact Or.inl old
      · exact Or.inr (Or.inr held)
    · exact Or.inr (Or.inl far)
  · rintro (old | far | held)
    · exact follows.complete s (Or.inl old)
    · exact Or.inr far
    · exact follows.complete s (Or.inr held)

theorem followed (start : Start) (marks : List UInt64) :
    ∃ known, Follows start marks (marks.foldl ReplayWindow.mark start.window) known := by
  induction marks using List.reverseRecOn with
  | nil => exact ⟨start.Held, follows_start start⟩
  | append_singleton marks s ih =>
    obtain ⟨known, follows⟩ := ih
    rw [List.foldl_append]
    exact follows.mark s

/-! ## Admitting what is not seen -/

/-- What happens to a window: a mark, or a frame admitted and marked if it is not seen. -/
inductive Arrival where
  | marked (s : UInt64)
  | offered (s : UInt64)

structure Ledger where
  window : ReplayWindow
  marks : List UInt64
  admitted : List UInt64

namespace Ledger

def mark (l : Ledger) (s : UInt64) : Ledger :=
  { l with window := l.window.mark s, marks := l.marks ++ [s] }

def receive (l : Ledger) : Arrival → Ledger
  | .marked s => l.mark s
  | .offered s =>
    if l.window.seen s then l else { l.mark s with admitted := l.admitted ++ [s] }

def opened (start : Start) : Ledger := ⟨start.window, [], []⟩

def run (start : Start) (arrivals : List Arrival) : Ledger :=
  arrivals.foldl receive (opened start)

end Ledger

structure Kept (start : Start) (l : Ledger) : Prop where
  window : l.window = l.marks.foldl ReplayWindow.mark start.window
  marked : ∀ s ∈ l.admitted, s ∈ l.marks
  once : l.admitted.Nodup

theorem Kept.exact {start : Start} {l : Ledger} (kept : Kept start l) :
    Exact start l.marks l.window := by
  obtain ⟨known, follows⟩ := followed start l.marks
  rw [kept.window]
  exact follows.exact

theorem Kept.mark {start : Start} {l : Ledger} (kept : Kept start l) (s : UInt64) :
    Kept start (l.mark s) := by
  constructor
  · change l.window.mark s = _
    rw [show (l.mark s).marks = l.marks ++ [s] from rfl, List.foldl_append, ← kept.window]
    rfl
  · intro x admitted
    exact List.mem_append_left _ (kept.marked x admitted)
  · exact kept.once

theorem kept_receive {start : Start} {l : Ledger} (kept : Kept start l) (arrival : Arrival) :
    Kept start (l.receive arrival) := by
  cases arrival with
  | marked s => exact kept.mark s
  | offered s =>
    unfold Ledger.receive
    dsimp only
    split
    · exact kept
    · rename_i unseen
      have fresh : s ∉ l.admitted := by
        intro admitted
        exact unseen ((kept.exact.seen s).mpr (Or.inl (kept.marked s admitted)))
      constructor
      · exact (kept.mark s).window
      · intro x admitted
        rcases List.mem_append.mp admitted with old | last
        · exact (kept.mark s).marked x old
        · rw [List.mem_singleton.mp last]
          exact List.mem_append_right _ (List.mem_singleton_self _)
      · rw [List.nodup_append]
        refine ⟨kept.once, List.nodup_singleton s, ?_⟩
        intro x old y last
        rw [List.mem_singleton.mp last]
        rintro rfl
        exact fresh old

theorem kept_run (start : Start) (arrivals : List Arrival) :
    Kept start (.run start arrivals) := by
  induction arrivals using List.reverseRecOn with
  | nil =>
    refine ⟨rfl, ?_, List.nodup_nil⟩
    rintro s ⟨⟩
  | append_singleton arrivals arrival ih =>
    unfold Ledger.run
    rw [List.foldl_append]
    exact kept_receive ih arrival

/-- After any run of marks the window says exactly what an unbounded set of them would say of
every number in its reach; a number is admitted once at most; and a run from a fresh window
refuses no number that is in reach and was not marked. -/
theorem window_exact (start : Start) :
    (∀ marks, Exact start marks (marks.foldl ReplayWindow.mark start.window)) ∧
      ∀ arrivals, let l := Ledger.run start arrivals
        l.window = l.marks.foldl ReplayWindow.mark start.window ∧
          l.admitted.Nodup ∧
          (start = .fresh → ∀ s, s ∉ l.marks →
            (∀ highest, l.window.highest = some highest → highest.toNat < s.toNat + 64) →
              (l.receive (.offered s)).admitted = l.admitted ++ [s]) := by
  refine ⟨fun marks => ?_, fun arrivals => ?_⟩
  · obtain ⟨known, follows⟩ := followed start marks
    exact follows.exact
  · have kept := kept_run start arrivals
    refine ⟨kept.window, kept.once, ?_⟩
    rintro rfl s unmarked inside
    have unseen : ¬ (Ledger.run .fresh arrivals).window.seen s = true := by
      rw [kept.exact.seen s]
      rintro (marked | ⟨highest, newest, far⟩ | held)
      · exact unmarked marked
      · have near := inside highest newest
        omega
      · exact held
    unfold Ledger.receive
    dsimp only
    rw [if_neg unseen]

end ReplayWindows
