import Lcq.Transitions
import Mathlib.Order.Lattice
import Mathlib.Order.MinMax

/-!
# The protocol's clock

A monotonic clock read in whole milliseconds and run faster than wall time.
Instants are counted in nanoseconds. Two such clocks of one epoch differ by how
far apart they were started.
-/

namespace ProtocolClock

open Contracts Transitions

def saturatingMul (a b : UInt64) : UInt64 :=
  if a.toNat * b.toNat < 2 ^ 64 then a * b else 18446744073709551615

theorem saturatingMul_toNat (a b : UInt64) :
    (saturatingMul a b).toNat = min (a.toNat * b.toNat) (2 ^ 64 - 1) := by
  have top : (18446744073709551615 : UInt64).toNat = 2 ^ 64 - 1 := rfl
  unfold saturatingMul
  split
  · rename_i fits
    rw [UInt64.toNat_mul, Nat.mod_eq_of_lt fits]
    omega
  · rw [top]
    omega

/-- Protocol milliseconds since an instant. -/
def protocolMs (scale : UInt32) (origin now : Nat) : UInt64 :=
  let elapsed := (now - origin) / 1000000
  saturatingMul (if elapsed < 2 ^ 64 then UInt64.ofNat elapsed else 18446744073709551615)
    scale.toUInt64

theorem protocolMs_toNat (scale : UInt32) (origin now : Nat) : (protocolMs scale origin now).toNat =
    min (min ((now - origin) / 1000000) (2 ^ 64 - 1) * scale.toNat) (2 ^ 64 - 1) := by
  have top : (18446744073709551615 : UInt64).toNat = 2 ^ 64 - 1 := rfl
  rw [protocolMs, saturatingMul_toNat, UInt32.toNat_toUInt64]
  congr 2
  split
  · rename_i fits
    rw [UInt64.toNat_ofNat_of_lt' fits]
    omega
  · rw [top]
    omega

theorem protocolMs_mono {scale : UInt32} {origin now later : Nat} (onward : now ≤ later) :
    protocolMs scale origin now ≤ protocolMs scale origin later := by
  rw [UInt64.le_iff_toNat_le, protocolMs_toNat, protocolMs_toNat]
  have elapsed : (now - origin) / 1000000 ≤ (later - origin) / 1000000 := by omega
  refine min_le_min (Nat.mul_le_mul_right _ (min_le_min elapsed ?_)) ?_ <;> exact Nat.le_refl _

def saturatingAddSigned (a : UInt64) (b : Int64) : UInt64 :=
  .ofNat (min (a.toNat + b.toInt) (2 ^ 64 - 1)).toNat

/-- A clock whose epoch fell at an instant, with an error of its own. -/
structure ScaledClock where
  origin : Nat
  epoch : Timestamp
  scale : UInt32
  offsetS : Int64

namespace ScaledClock

def anchoredAt (origin : Nat) (epoch : Timestamp) (scale : UInt32) (offsetS : Int64) :
    ScaledClock :=
  ⟨origin, epoch, max scale 1, offsetS⟩

def now (clock : ScaledClock) (instant : Nat) : Timestamp :=
  let seconds := saturatingAdd clock.epoch.secs
    (protocolMs clock.scale clock.origin instant / 1000)
  ⟨saturatingAddSigned seconds clock.offsetS⟩

end ScaledClock

theorem saturatingAddSigned_zero (a : UInt64) : saturatingAddSigned a 0 = a := by
  have most := a.toNat_lt
  have zero : (0 : Int64).toInt = 0 := rfl
  have same : (min ((a.toNat : Int) + 0) (2 ^ 64 - 1)).toNat = a.toNat := by omega
  rw [saturatingAddSigned, zero, same, UInt64.ofNat_toNat]

/-- What is read of a time elapsed, on a clock that stands still at a top. -/
def shown (epoch top elapsed : Nat) : Nat := min (epoch + min (elapsed / 1000000) top / 1000) top

/-- What a clock without an error reads at scale 1. -/
theorem now_exact (origin : Nat) (epoch : Timestamp) (instant : Nat) :
    ((ScaledClock.anchoredAt origin epoch 1 0).now instant).secs.toNat =
      shown epoch.secs.toNat (2 ^ 64 - 1) (instant - origin) := by
  have one : (max 1 1 : UInt32).toNat = 1 := rfl
  have thousand : (1000 : UInt64).toNat = 1000 := rfl
  rw [ScaledClock.now, ScaledClock.anchoredAt]
  dsimp only
  rw [saturatingAddSigned_zero, saturatingAdd_toNat, UInt64.toNat_div, protocolMs_toNat, one,
    thousand, Nat.mul_one, Nat.min_assoc, Nat.min_self, shown]

theorem shown_mono {epoch top less more : Nat} (le : less ≤ more) :
    shown epoch top less ≤ shown epoch top more := by
  unfold shown
  omega

theorem shown_close {epoch top less more : Nat} (close : more ≤ less + 30000000000) :
    shown epoch top more ≤ shown epoch top less + 30 := by
  have millis : more / 1000000 ≤ less / 1000000 + 30000 := by omega
  unfold shown
  omega

theorem shown_standing {epoch top start less more : Nat} (onward : start ≤ less)
    (running : start / 1000000 ≤ top) (standing : top ≤ epoch + start / 1000000000 + 30) :
    shown epoch top more ≤ shown epoch top less + 30 := by
  have millis : start / 1000000 ≤ less / 1000000 := by omega
  have seconds : start / 1000000000 = start / 1000000 / 1000 := by omega
  unfold shown
  omega

/-- Just before the later one's next second two clocks are furthest apart. -/
theorem shown_apart {epoch top start instant lead : Nat} (far : 30000000000 < lead)
    (last : instant + 1 = (start / 1000000000 + 1) * 1000000000)
    (running : start / 1000000 + 40000 ≤ top)
    (moving : epoch + start / 1000000000 + 30 < top) :
    shown epoch top instant + 30 < shown epoch top (instant + lead) := by
  have same : instant / 1000000 / 1000 = start / 1000000000 := by omega
  have ahead : start / 1000000000 + 31 ≤ (instant + lead) / 1000000 / 1000 := by omega
  have early : instant / 1000000 ≤ top := by omega
  have late : start / 1000000000 + 31 ≤ min ((instant + lead) / 1000000) top / 1000 := by omega
  unfold shown
  rw [Nat.min_eq_left early, same]
  omega

/-- Two readings no further apart than two honest clocks may be. -/
def WithinSkew (a b : Timestamp) : Prop :=
  a.secs.toNat ≤ b.secs.toNat + maxClockSkewSeconds.toNat ∧
    b.secs.toNat ≤ a.secs.toNat + maxClockSkewSeconds.toNat

/-- What is certainly past on one of them is past on the other, and what is certainly ahead is
ahead. -/
theorem WithinSkew.certain {a b : Timestamp} (within : WithinSkew a b) (deadline : Timestamp) :
    (certainlyAfter a deadline = true → deadline.secs < b.secs) ∧
      (certainlyBefore a deadline = true → b.secs < deadline.secs) := by
  obtain ⟨ahead, behind⟩ := within
  have skew : maxClockSkewSeconds.toNat = 30 := rfl
  have most := a.secs.toNat_lt
  have most' := deadline.secs.toNat_lt
  simp only [certainlyAfter, certainlyBefore, decide_eq_true_eq, UInt64.lt_iff_toNat_lt,
    saturatingAdd_toNat]
  omega

/-- Of two clocks the one started later stays within the skew from an instant on, exactly if it
was started no later than that, or is then about to stand still. -/
theorem withinSkew_iff {origin late joined : Nat} (epoch : Timestamp) (later : origin ≤ late)
    (started : late ≤ joined) (soon : joined < late + 2 ^ 60) :
    (∀ instant, joined ≤ instant → WithinSkew
        ((ScaledClock.anchoredAt origin epoch 1 0).now instant)
        ((ScaledClock.anchoredAt late epoch 1 0).now instant)) ↔
      late ≤ origin + maxClockSkewSeconds.toNat * 1000000000 ∨
        2 ^ 64 ≤ epoch.secs.toNat + (joined - late) / 1000000000 + maxClockSkewSeconds.toNat + 1 := by
  have skew : maxClockSkewSeconds.toNat = 30 := rfl
  rw [skew]
  constructor
  · intro within
    by_contra apart
    rw [not_or, Nat.not_le, Nat.not_le] at apart
    obtain ⟨far, running⟩ := apart
    let elapsed := ((joined - late) / 1000000000 + 1) * 1000000000 - 1
    have last : elapsed + 1 = ((joined - late) / 1000000000 + 1) * 1000000000 := by omega
    have first := (within (late + elapsed) (by omega)).1
    have since : late + elapsed - late = elapsed := by omega
    have before : late + elapsed - origin = elapsed + (late - origin) := by omega
    rw [now_exact, now_exact, skew, since, before] at first
    refine absurd first (Nat.not_le.mpr ?_)
    exact @shown_apart _ _ (joined - late) _ _ (by omega) last (by omega) (by omega)
  · intro near instant onward
    have less : instant - late ≤ instant - origin := by omega
    have behind := @shown_mono epoch.secs.toNat (2 ^ 64 - 1) _ _ less
    rw [WithinSkew, now_exact, now_exact, skew]
    refine ⟨?_, behind.trans (Nat.le_add_right _ _)⟩
    rcases near with close | standing
    · exact shown_close (by omega)
    · exact @shown_standing _ _ (joined - late) _ _ (by omega) (by omega) (by omega)

/-! ## Two members at one deadline -/

theorem WithinSkew.symm {a b : Timestamp} (within : WithinSkew a b) : WithinSkew b a :=
  ⟨within.2, within.1⟩

theorem not_after_before {now deadline : Timestamp} (before : now.secs < deadline.secs) :
    certainlyAfter now deadline = false := by
  have most := now.secs.toNat_lt
  rw [certainlyAfter, decide_eq_false_iff_not]
  rw [UInt64.lt_iff_toNat_lt] at before ⊢
  rw [saturatingAdd_toNat]
  omega

theorem not_before_past {now deadline : Timestamp} (past : deadline.secs < now.secs) :
    certainlyBefore now deadline = false := by
  have most := deadline.secs.toNat_lt
  rw [certainlyBefore, decide_eq_false_iff_not]
  rw [UInt64.lt_iff_toNat_lt] at past ⊢
  rw [saturatingAdd_toNat]
  omega

/-- A clock asked at one instant reads the same however often it is asked. -/
def atInstant (reading : Timestamp) : Clock := fun _ => reading

/-- A binding vote is taken only where its deadline is certainly ahead. -/
theorem taken_ahead {case after : Case} {opinion : Opinion} {reading : Timestamp}
    (binding : opinion.stage = .bindingSupport)
    (taken : case.accept opinion (atInstant reading) = .ok after) :
    certainlyBefore reading case.expiresAt = true := by
  obtain ⟨-, valid, ⟨other, -⟩ | ⟨-, -, sure, -⟩⟩ := Case.accept_ok taken
  · exact absurd binding other
  · simp only [atInstant] at valid
    simpa [Case.doubtful, atInstant, valid] using sure

theorem accept_expired {case : Case} {opinion : Opinion} {clock : Clock}
    (refused : case.accept opinion clock = .error .expired) :
    certainlyAfter (clock 0) case.expiresAt = true := by
  by_contra valid
  rw [Bool.not_eq_true] at valid
  unfold Case.accept at refused
  rw [valid] at refused
  simp only [Bool.false_eq_true, if_false] at refused
  grind

/-- What two members make of one deadline at one instant: no one is certain of what the other
rules out, so a close is behind the cutoff for both, and a vote taken is not expired for the
other. -/
theorem clocks_agree {a b : Timestamp} (within : WithinSkew a b) :
    (∀ deadline,
        (certainlyAfter a deadline = true → deadline.secs < b.secs) ∧
        (certainlyBefore a deadline = true → b.secs < deadline.secs) ∧
        ¬ (certainlyAfter a deadline = true ∧ certainlyBefore b deadline = true) ∧
        ¬ (certainlyBefore a deadline = true ∧ certainlyAfter b deadline = true)) ∧
      ∀ case other : Case, case.subject = other.subject → case.expiresAt = other.expiresAt →
        (∀ after, case.closeConsultation (atInstant a) = .ok after →
          other.subject.consultationCutoff.secs < b.secs) ∧
        ∀ opinion after, opinion.stage = .bindingSupport →
          case.accept opinion (atInstant a) = .ok after →
            other.accept opinion (atInstant b) ≠ .error .expired := by
  constructor
  · intro deadline
    obtain ⟨past, ahead⟩ := within.certain deadline
    refine ⟨past, ahead, ?_, ?_⟩
    · rintro ⟨after, before⟩
      rw [not_before_past (past after)] at before
      cases before
    · rintro ⟨before, after⟩
      rw [not_after_before (ahead before)] at after
      cases after
  · intro case other subjects expiries
    constructor
    · intro after closed
      obtain ⟨-, past, -⟩ := Case.closeConsultation_ok closed
      rw [← subjects]
      exact (within.certain _).1 past
    · intro opinion after binding taken refused
      have ahead := (within.certain _).2 (taken_ahead binding taken)
      have past := accept_expired refused
      rw [← expiries, atInstant, not_after_before ahead] at past
      cases past

/-- Two clocks half a minute apart, at the top of what a clock can show. -/
theorem clocks_agree_late : certainlyAfter ⟨18446744073709551615⟩ ⟨18446744073709551584⟩ = true ∧
    certainlyBefore ⟨18446744073709551585⟩ ⟨18446744073709551584⟩ = false := by
  have within : WithinSkew ⟨18446744073709551615⟩ ⟨18446744073709551585⟩ := by
    constructor <;> decide
  have after : certainlyAfter ⟨18446744073709551615⟩ ⟨18446744073709551584⟩ = true := by decide
  refine ⟨after, ?_⟩
  have apart := ((clocks_agree within).1 ⟨18446744073709551584⟩).2.2.1
  rw [not_and, Bool.not_eq_true] at apart
  exact apart after

end ProtocolClock
