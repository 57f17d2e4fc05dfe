import Lcq.Utterances
import Mathlib.Data.Rat.Floor
import Mathlib.Order.CompletePartialOrder

/-!
# The slot schedule

When each member sends what, counted from the instant the round began: the
stages and every attempt of the binding vote, then rounds of repair, each a
window for requests and a window for the resends they ask for. Machine words
wrap as the source's do.
-/

namespace Schedule

open Contracts Utterances Wire

/-! ## Time on air -/

/-- Time on air in milliseconds, over exact fractions: 125 kHz, coding rate 4/5, eight preamble
symbols, and the low data rate optimisation from spreading factor 11 on. -/
def airtimeMsAt (spreadingFactor payloadBytes : Nat) : Nat :=
  let sf := min (max spreadingFactor 7) 12
  let symbolMs : ℚ := 2 ^ sf / 125000 * 1000
  let lowDataRate : ℚ := if 11 ≤ spreadingFactor then 1 else 0
  let payload : ℚ := (min payloadBytes 255 : Nat)
  let numerator := 8 * payload - 4 * sf + 28 + 16
  let denominator := 4 * (sf - 2 * lowDataRate)
  let symbols := 8 + max (numerator / denominator).ceil 0 * (5 : ℚ)
  let preambleMs := (8 + 17 / 4) * symbolMs
  min (preambleMs + symbols * symbolMs + 1 / 2).floor.toNat 4294967295

def defaultSpreadingFactor : Nat := 10

def airtimeMs (payloadBytes : Nat) : UInt64 :=
  .ofNat (airtimeMsAt defaultSpreadingFactor payloadBytes)

/-! ## Instants -/

/-- A duration. Instants, the readings of the monotonic clock, and durations are counted in
nanoseconds. -/
def fromMillis (ms : UInt64) : Nat := 1000000 * ms.toNat

/-- The instant this much earlier, if it can be represented. -/
def checkedSub (now : Nat) (duration : Nat) : Option Nat :=
  if duration ≤ now then some (now - duration) else none

/-- A draw below a bound. -/
def entropyBelow (draw bound : UInt64) : UInt64 := if bound = 0 then 0 else draw % bound

def divCeil (n d : UInt64) : UInt64 := if n % d = 0 then n / d else n / d + 1

/-! ## The schedule of one member -/

section member

variable (options : Options) (size : Nat)

/-- Wall milliseconds of a protocol duration. -/
def wallMs (protocolMs : UInt64) : UInt64 := protocolMs / (max options.scale 1).toUInt64

/-- The widest frame and the guard. -/
def slotMs : UInt64 := airtimeMs maxFrameBytes + options.guardMs

/-- Protocol seconds a stage is given. -/
def stageWindowS : UInt64 :=
  if options.slots = true then divCeil (slotMs options * .ofNat size) 1000 + 2 else 30

/-- One whole window, so that a repeat lands in this member's slot again. -/
def retryGapMs : UInt64 := wallMs options (stageWindowS options size * 1000)

def slotOffsetMs : UInt64 :=
  if options.slots = true then slotMs options * .ofNat options.index
  else (.ofNat options.index * 7919) % 25000 + 500

def leadIn : UInt64 := 3

def repairRounds : UInt64 := 3

/-- The protocol second each stage opens at. -/
def starts : Stage → UInt64
  | .independent => leadIn
  | .consultation => leadIn + stageWindowS options size
  | .bindingSupport => bindingStageOpensSeconds + 1

/-- Windows for binding attempts. -/
def attemptWindows : UInt64 := .ofNat (max options.attempts 1)

/-- The protocol second everything is over. -/
def finish : UInt64 :=
  starts options size .bindingSupport
    + stageWindowS options size * (attemptWindows options + 2 * repairRounds) + 5

/-- Wall milliseconds into the round before this member's frame for a stage. -/
def offset (stage : Stage) : UInt64 :=
  wallMs options (starts options size stage * 1000 + slotOffsetMs options)

variable (anchor : Nat)

/-- When an attempt at a stage's frame is due. -/
def attemptDue (stage : Stage) (attempt : Nat) : Nat :=
  anchor + fromMillis (offset options size stage + .ofNat attempt * retryGapMs options size)

def windowWall : Nat := fromMillis (wallMs options (stageWindowS options size * 1000))

def repairStart : Nat :=
  anchor + fromMillis (wallMs options ((starts options size .bindingSupport
    + stageWindowS options size * attemptWindows options) * 1000))

def ownSlot : Nat := fromMillis (wallMs options (slotMs options * .ofNat options.index))

/-- The width of a slot on the wall clock. -/
def slotWall : Nat := fromMillis (wallMs options (slotMs options))

def requestDue (round : Nat) : Nat :=
  repairStart options size anchor + windowWall options size * 2 * round + ownSlot options

def resendDue (round : Nat) : Nat :=
  repairStart options size anchor + windowWall options size * (2 * round + 1) + ownSlot options

/-- Which repair round it is, if any. -/
def repairRound (now : Nat) : Option Nat :=
  match checkedSub now (repairStart options size anchor) with
  | none => none
  | some since =>
    let pair := max (windowWall options size / 1000000 * 2) 1
    let index := since / 1000000 / pair
    if index < repairRounds.toNat then some index else none

end member

/-! ## What is planned -/

inductive Planned where
  | independent
  | consultation
  | binding (attempt : Nat)
  | request (round : Nat)
  | resend (round : Nat)
  deriving DecidableEq

namespace Planned

variable (options : Options) (size : Nat) (anchor : Nat)

/-- What this configuration provides for. -/
def Provided : Planned → Prop
  | binding attempt => attempt < options.attempts
  | request round => round < repairRounds.toNat
  | resend round => round < repairRounds.toNat
  | _ => True

/-- The place of a transmission's stage, attempt or repair window among the others. -/
def turn : Planned → Nat
  | independent => 0
  | consultation => 1
  | binding attempt => 2 + attempt
  | request round => 2 + max options.attempts 1 + 2 * round
  | resend round => 2 + max options.attempts 1 + 2 * round + 1

/-- When the member these options are for is due to send it. -/
def due : Planned → Nat
  | independent => attemptDue options size anchor .independent 0
  | consultation => attemptDue options size anchor .consultation 0
  | binding attempt => attemptDue options size anchor .bindingSupport attempt
  | request round => requestDue options size anchor round
  | resend round => resendDue options size anchor round

end Planned

/-! ## The schedule in whole numbers -/

section exact

variable (options : Options) (size : Nat)

def exactSlot : Nat := (airtimeMs maxFrameBytes).toNat + options.guardMs.toNat

def exactWindow : Nat := (exactSlot options * size + 999) / 1000 + 2

def exactFinish : Nat := 363 + exactWindow options size * (max options.attempts 1 + 6) + 5

/-- The protocol second each window opens at: two stages, then window upon window. -/
def windowOpens : Nat → Nat
  | 0 => 3
  | 1 => 3 + exactWindow options size
  | k + 2 => 363 + k * exactWindow options size

/-- The protocol second a transmission's window opens at. -/
def opens (t : Planned) : Nat := windowOpens options size (t.turn options)

end exact

/-- A configuration whose schedule, in whole numbers, is over before endorsement is expected. -/
structure Fits (options : Options) (size : Nat) : Prop where
  slots : options.slots = true
  scale : options.scale = 1
  seated : options.index < size
  finish : exactFinish options size ≤ endorsementTargetSeconds.toNat

section fits

variable {options : Options} {size : Nat}

theorem exactWindow_le (fits : exactFinish options size ≤ 600) :
    exactWindow options size ≤ 33 ∧ max options.attempts 1 ≤ 226 := by
  unfold exactFinish at fits
  have wide : 2 ≤ exactWindow options size := Nat.le_add_left 2 _
  constructor
  · have seven := Nat.mul_le_mul_left (exactWindow options size)
      (show 7 ≤ max options.attempts 1 + 6 by omega)
    omega
  · have two := Nat.mul_le_mul_right (max options.attempts 1 + 6) wide
    omega

/-- The words the schedule is computed in hold its whole numbers. -/
theorem Fits.small (fits : Fits options size) : exactWindow options size ≤ 33 ∧
    max options.attempts 1 ≤ 226 ∧ exactSlot options * size ≤ 31000 ∧
      exactSlot options * options.index + exactSlot options ≤ exactSlot options * size := by
  have target : endorsementTargetSeconds.toNat = 600 := rfl
  obtain ⟨window, attempts⟩ := exactWindow_le (target ▸ fits.finish)
  refine ⟨window, attempts, ?_, ?_⟩
  · unfold exactWindow at window
    omega
  · rw [← Nat.mul_succ]
    exact Nat.mul_le_mul_left _ fits.seated

theorem airtime_widest : airtimeMs maxFrameBytes = 1436 := by decide +kernel

theorem exactSlot_eq : exactSlot options = 1436 + options.guardMs.toNat := by
  rw [exactSlot, airtime_widest]
  rfl

theorem Fits.size_le (fits : Fits options size) : size ≤ 21 := by
  obtain ⟨-, -, area, -⟩ := fits.small
  rw [exactSlot_eq, Nat.add_mul] at area
  omega

theorem toNat_size (fits : Fits options size) : (UInt64.ofNat size).toNat = size :=
  UInt64.toNat_ofNat_of_lt' (Nat.lt_of_le_of_lt fits.size_le (by decide))

theorem slotMs_exact (fits : Fits options size) : (slotMs options).toNat = exactSlot options := by
  obtain ⟨-, -, area, row⟩ := fits.small
  rw [slotMs, UInt64.toNat_add, ← exactSlot, Nat.mod_eq_of_lt (by omega)]

theorem divCeil_thousand (n : UInt64) : (divCeil n 1000).toNat = (n.toNat + 999) / 1000 := by
  have bound := n.toNat_lt
  have thousand : (1000 : UInt64).toNat = 1000 := rfl
  unfold divCeil
  split
  · rename_i whole
    rw [← UInt64.toNat_inj, UInt64.toNat_mod, thousand, UInt64.toNat_zero] at whole
    rw [UInt64.toNat_div, thousand]
    omega
  · rename_i broken
    rw [← UInt64.toNat_inj, UInt64.toNat_mod, thousand, UInt64.toNat_zero] at broken
    rw [UInt64.toNat_add, UInt64.toNat_div, thousand, UInt64.toNat_one]
    omega

theorem stageWindowS_exact (fits : Fits options size) :
    (stageWindowS options size).toNat = exactWindow options size := by
  obtain ⟨-, -, area, -⟩ := fits.small
  have two : (2 : UInt64).toNat = 2 := rfl
  have whole : exactSlot options * size < 2 ^ 64 := by omega
  rw [stageWindowS, if_pos fits.slots, UInt64.toNat_add, divCeil_thousand, UInt64.toNat_mul,
    slotMs_exact fits, toNat_size fits, two, Nat.mod_eq_of_lt whole, exactWindow]
  omega

theorem wallMs_exact (fits : Fits options size) (ms : UInt64) : wallMs options ms = ms := by
  rw [wallMs, fits.scale]
  exact UInt64.div_one

theorem attemptWindows_exact (fits : Fits options size) :
    (attemptWindows options).toNat = max options.attempts 1 := by
  obtain ⟨-, attempts, -⟩ := fits.small
  exact UInt64.toNat_ofNat_of_lt' (Nat.lt_of_le_of_lt attempts (by decide))

/-- No sum or product on the way to the check wraps. -/
theorem finish_exact (fits : Fits options size) :
    (finish options size).toNat = exactFinish options size := by
  obtain ⟨window, attempts, -⟩ := fits.small
  have area : exactWindow options size * (max options.attempts 1 + 6) ≤ 33 * 232 :=
    Nat.mul_le_mul window (by omega)
  have opening : (starts options size .bindingSupport).toNat = 363 := rfl
  have windows : (attemptWindows options + 2 * repairRounds).toNat =
      max options.attempts 1 + 6 := by
    have six : (2 * repairRounds).toNat = 6 := rfl
    rw [UInt64.toNat_add, attemptWindows_exact fits, six]
    omega
  rw [finish, UInt64.toNat_add, UInt64.toNat_add, opening, UInt64.toNat_mul, windows,
    stageWindowS_exact fits, exactFinish]
  have five : (5 : UInt64).toNat = 5 := rfl
  rw [five]
  omega

/-! ## Each transmission in its place -/

theorem ownSlot_exact (fits : Fits options size) :
    (slotMs options * .ofNat options.index).toNat = exactSlot options * options.index := by
  obtain ⟨-, -, area, row⟩ := fits.small
  have index : (UInt64.ofNat options.index).toNat = options.index :=
    UInt64.toNat_ofNat_of_lt' (Nat.lt_of_lt_of_le fits.seated (fits.size_le.trans (by decide)))
  rw [UInt64.toNat_mul, slotMs_exact fits, index, Nat.mod_eq_of_lt (by omega)]

theorem retryGap_exact (fits : Fits options size) :
    (retryGapMs options size).toNat = exactWindow options size * 1000 := by
  obtain ⟨window, -⟩ := fits.small
  have thousand : (1000 : UInt64).toNat = 1000 := rfl
  rw [retryGapMs, wallMs_exact fits, UInt64.toNat_mul, stageWindowS_exact fits, thousand]
  omega

theorem starts_le (fits : Fits options size) (stage : Stage) :
    (starts options size stage).toNat ≤ 363 := by
  obtain ⟨window, -⟩ := fits.small
  cases stage with
  | independent => exact (by decide : leadIn.toNat ≤ 363)
  | consultation =>
    have lead : leadIn.toNat = 3 := rfl
    rw [starts, UInt64.toNat_add, stageWindowS_exact fits, lead]
    omega
  | bindingSupport => exact (by decide : (bindingStageOpensSeconds + 1).toNat ≤ 363)

theorem offset_exact (fits : Fits options size) (stage : Stage) :
    (offset options size stage).toNat =
      (starts options size stage).toNat * 1000 + exactSlot options * options.index := by
  obtain ⟨-, -, area, row⟩ := fits.small
  have early := starts_le fits stage
  have thousand : (1000 : UInt64).toNat = 1000 := rfl
  rw [offset, wallMs_exact fits, slotOffsetMs, if_pos fits.slots, UInt64.toNat_add,
    UInt64.toNat_mul, ownSlot_exact fits, thousand]
  omega

theorem attemptDue_exact (fits : Fits options size) (anchor : Nat) (stage : Stage)
    {attempt : Nat} (few : attempt ≤ 226) : attemptDue options size anchor stage attempt =
      anchor + ((starts options size stage).toNat * 1000 + exactSlot options * options.index
        + attempt * (exactWindow options size * 1000)) * 1000000 := by
  obtain ⟨window, -, area, row⟩ := fits.small
  have early := starts_le fits stage
  have count : (UInt64.ofNat attempt).toNat = attempt :=
    UInt64.toNat_ofNat_of_lt' (Nat.lt_of_le_of_lt few (by decide))
  have gaps : attempt * (exactWindow options size * 1000) ≤ 226 * (33 * 1000) :=
    Nat.mul_le_mul few (Nat.mul_le_mul_right 1000 window)
  rw [attemptDue, fromMillis, UInt64.toNat_add, offset_exact fits, UInt64.toNat_mul, count,
    retryGap_exact fits, Nat.mod_eq_of_lt (a := attempt * _) (by omega),
    Nat.mod_eq_of_lt (by omega), Nat.mul_comm 1000000]

theorem repairStart_exact (fits : Fits options size) (anchor : Nat) :
    repairStart options size anchor =
      anchor + (363 + exactWindow options size * max options.attempts 1) * 1000 * 1000000 := by
  obtain ⟨window, attempts, -⟩ := fits.small
  have area : exactWindow options size * max options.attempts 1 ≤ 33 * 226 :=
    Nat.mul_le_mul window attempts
  have opening : (starts options size .bindingSupport).toNat = 363 := rfl
  have thousand : (1000 : UInt64).toNat = 1000 := rfl
  rw [repairStart, fromMillis, wallMs_exact fits, UInt64.toNat_mul, UInt64.toNat_add, opening,
    UInt64.toNat_mul, stageWindowS_exact fits, attemptWindows_exact fits, thousand,
    Nat.mod_eq_of_lt (a := exactWindow options size * _) (by omega),
    Nat.mod_eq_of_lt (a := 363 + _) (by omega), Nat.mod_eq_of_lt (by omega),
    Nat.mul_comm 1000000]

theorem windowWall_exact (fits : Fits options size) :
    windowWall options size = exactWindow options size * 1000 * 1000000 := by
  have gap := retryGap_exact fits
  rw [retryGapMs] at gap
  rw [windowWall, fromMillis, gap, Nat.mul_comm]

theorem ownSlotWall_exact (fits : Fits options size) :
    ownSlot options = exactSlot options * options.index * 1000000 := by
  rw [ownSlot, fromMillis, wallMs_exact fits, ownSlot_exact fits, Nat.mul_comm]

/-- When the member is due, in whole milliseconds. -/
theorem due_exact (fits : Fits options size) (anchor : Nat) {t : Planned}
    (provided : t.Provided options) : t.due options size anchor =
      anchor + (opens options size t * 1000 + exactSlot options * options.index) * 1000000 := by
  obtain ⟨window, attempts, -⟩ := fits.small
  cases t with
  | independent =>
    have start : (starts options size .independent).toNat = 3 := rfl
    rw [Planned.due, attemptDue_exact fits anchor _ (Nat.zero_le _), start, opens,
      Planned.turn, windowOpens]
    ring
  | consultation =>
    have start : (starts options size .consultation).toNat = 3 + exactWindow options size := by
      have lead : leadIn.toNat = 3 := rfl
      rw [starts, UInt64.toNat_add, stageWindowS_exact fits, lead]
      omega
    rw [Planned.due, attemptDue_exact fits anchor _ (Nat.zero_le _), start, opens,
      Planned.turn, windowOpens]
    ring
  | binding attempt =>
    have start : (starts options size .bindingSupport).toNat = 363 := rfl
    have few : attempt < options.attempts := provided
    have place : 2 + attempt = attempt + 2 := Nat.add_comm 2 attempt
    rw [Planned.due, attemptDue_exact fits anchor _ (by omega), start, opens, Planned.turn, place,
      windowOpens]
    ring
  | request round =>
    have place : 2 + max options.attempts 1 + 2 * round =
        max options.attempts 1 + 2 * round + 2 := by omega
    rw [Planned.due, requestDue, repairStart_exact fits, windowWall_exact fits,
      ownSlotWall_exact fits, opens, Planned.turn, place, windowOpens]
    ring
  | resend round =>
    have place : 2 + max options.attempts 1 + 2 * round + 1 =
        max options.attempts 1 + 2 * round + 1 + 2 := by omega
    rw [Planned.due, resendDue, repairStart_exact fits, windowWall_exact fits,
      ownSlotWall_exact fits, opens, Planned.turn, place, windowOpens]
    ring

/-- A window is over before a later one opens. -/
theorem windowOpens_later (window : exactWindow options size ≤ 33) {k l : Nat} (later : k < l) :
    windowOpens options size k + exactWindow options size ≤ windowOpens options size l := by
  match k, l with
  | _, 0 => exact absurd later (Nat.not_lt_zero _)
  | 0, 1 => exact Nat.le_refl _
  | _ + 1, 1 => omega
  | 0, l + 2 =>
    simp only [windowOpens]
    omega
  | 1, l + 2 =>
    simp only [windowOpens]
    omega
  | k + 2, l + 2 =>
    have windows := Nat.mul_le_mul_right (exactWindow options size) (show k + 1 ≤ l by omega)
    rw [Nat.add_mul, Nat.one_mul] at windows
    simp only [windowOpens]
    omega

end fits

/-! ## The slots do not collide -/

/-- The options of another member of the same fleet. -/
def seatedAt (options : Options) (index : Nat) : Options := { options with index }

/-- How long the widest frame is on the air. -/
def widest : Nat := fromMillis (airtimeMs maxFrameBytes)

/-- When the member of an index begins to send. -/
def begins (options : Options) (size : Nat) (anchor : Nat) (index : Nat) (t : Planned) :
    Nat :=
  t.due (seatedAt options index) size anchor

section apart

variable {options : Options} {size : Nat} {anchor : Nat}

theorem Fits.elsewhere (fits : Fits options size) {index : Nat} (seated : index < size) :
    Fits (seatedAt options index) size :=
  ⟨fits.slots, fits.scale, seated, fits.finish⟩

theorem widest_eq : widest = 1436 * 1000000 := by
  rw [widest, airtime_widest]
  rfl

theorem begins_exact (fits : Fits options size) {index : Nat} (seated : index < size)
    {t : Planned} (provided : t.Provided options) : begins options size anchor index t =
      anchor + (opens options size t * 1000 + exactSlot options * index) * 1000000 :=
  due_exact (fits.elsewhere seated) anchor provided

/-- In one window members are a slot apart. -/
theorem begins_apart (fits : Fits options size) {i j : Nat} (seated : j < size) (lt : i < j)
    {t t' : Planned} (provided : t.Provided options) (provided' : t'.Provided options)
    (same : t.turn options = t'.turn options) :
    begins options size anchor i t + widest + options.guardMs.toNat * 1000000 ≤
      begins options size anchor j t' := by
  have slots := Nat.mul_le_mul_left (exactSlot options) (Nat.succ_le_of_lt lt)
  have places : opens options size t = opens options size t' :=
    congrArg (windowOpens options size) same
  have width : exactSlot options = 1436 + options.guardMs.toNat := exactSlot_eq
  rw [Nat.mul_succ] at slots
  rw [begins_exact fits (lt.trans seated) provided, begins_exact fits seated provided', places,
    widest_eq]
  omega

/-- What is sent in one window ends before what is sent in a later one begins. -/
theorem begins_later (fits : Fits options size) {i j : Nat} (seated : i < size)
    (seated' : j < size) {t t' : Planned} (provided : t.Provided options)
    (provided' : t'.Provided options) (later : t.turn options < t'.turn options) :
    begins options size anchor i t + widest + options.guardMs.toNat * 1000000 <
      begins options size anchor j t' := by
  have windows : opens options size t + exactWindow options size ≤ opens options size t' :=
    windowOpens_later fits.small.1 later
  have row : exactSlot options * i + exactSlot options ≤ exactSlot options * size :=
    (fits.elsewhere seated).small.2.2.2
  have window : (exactSlot options * size + 999) / 1000 + 2 = exactWindow options size := rfl
  have width : exactSlot options = 1436 + options.guardMs.toNat := exactSlot_eq
  rw [begins_exact fits seated provided, begins_exact fits seated' provided', widest_eq]
  omega

/-- Two members' transmissions, one behind the other. -/
theorem begins_ordered (fits : Fits options size) {i j : Nat} (seated : i < size)
    (seated' : j < size) (other : i ≠ j) {t t' : Planned} (provided : t.Provided options)
    (provided' : t'.Provided options) :
    begins options size anchor i t + widest + options.guardMs.toNat * 1000000 ≤
        begins options size anchor j t' ∨
      begins options size anchor j t' + widest + options.guardMs.toNat * 1000000 ≤
        begins options size anchor i t := by
  rcases Nat.lt_trichotomy (t.turn options) (t'.turn options) with lt | same | gt
  · exact Or.inl (begins_later fits seated seated' provided provided' lt).le
  · rcases Nat.lt_or_gt_of_ne other with first | second
    · exact Or.inl (begins_apart fits seated' first provided provided' same)
    · exact Or.inr (begins_apart fits seated second provided' provided same.symm)
  · exact Or.inr (begins_later fits seated' seated provided' provided gt).le

end apart

/-- Where the schedule, computed without wrapping, is over before endorsement is expected, no
two members' planned transmissions are on the air at once, not even at the instant one ends if
there is a guard, and what is sent in one window ends before what is sent in a later one. -/
theorem slots_apart (options : Options) (size : Nat) (anchor : Nat)
    (slots : options.slots = true) (scale : options.scale = 1) (manned : 0 < size)
    (fits : exactFinish options size ≤ endorsementTargetSeconds.toNat) :
    (finish options size).toNat = exactFinish options size ∧
    (∀ i < size, ∀ j < size, i ≠ j → ∀ t t' : Planned, t.Provided options →
      t'.Provided options →
      Disjoint
        (Set.Ico (begins options size anchor i t) (begins options size anchor i t + widest))
        (Set.Ico (begins options size anchor j t') (begins options size anchor j t' + widest)) ∧
      (0 < options.guardMs → Disjoint
        (Set.Icc (begins options size anchor i t) (begins options size anchor i t + widest))
        (Set.Icc (begins options size anchor j t')
          (begins options size anchor j t' + widest)))) ∧
    ∀ i < size, ∀ j < size, ∀ t t' : Planned, t.Provided options → t'.Provided options →
      t.turn options < t'.turn options →
      begins options size anchor i t + widest < begins options size anchor j t' := by
  have first : Fits (seatedAt options 0) size := ⟨slots, scale, manned, fits⟩
  have whole := finish_exact first
  refine ⟨whole, ?_, ?_⟩
  · intro i seated j seated' other t t' provided provided'
    have ordered : begins options size anchor i t + widest + options.guardMs.toNat * 1000000 ≤
          begins options size anchor j t' ∨
        begins options size anchor j t' + widest + options.guardMs.toNat * 1000000 ≤
          begins options size anchor i t :=
      begins_ordered first seated seated' other provided provided'
    constructor
    · rw [Set.disjoint_left]
      rintro now ⟨begun, running⟩ ⟨begun', running'⟩
      omega
    · intro guarded
      rw [UInt64.lt_iff_toNat_lt, UInt64.toNat_zero] at guarded
      rw [Set.disjoint_left]
      rintro now ⟨begun, running⟩ ⟨begun', running'⟩
      omega
  · intro i seated j seated' t t' provided provided' later
    have behind : begins options size anchor i t + widest + options.guardMs.toNat * 1000000 <
        begins options size anchor j t' :=
      begins_later first seated seated' provided provided' later
    omega

theorem slots_apart_three :
    begins firstMember 3 0 2 (.request 2) + widest < begins firstMember 3 0 1 (.resend 2) := by
  have fits : exactFinish firstMember 3 ≤ endorsementTargetSeconds.toNat := by
    rw [exactFinish, exactWindow, exactSlot_eq]
    decide
  refine (slots_apart firstMember 3 0 rfl rfl (by decide) fits).2.2 2 (by decide) 1
    (by decide) _ _ ?_ ?_ (by decide)
  · exact (by decide : 2 < repairRounds.toNat)
  · exact (by decide : 2 < repairRounds.toNat)

def unguarded : Options := { firstMember with guardMs := 0 }

/-- A guard that wraps the width of a slot to nothing. -/
def wrapped : Options := { firstMember with guardMs := 18446744073709550180 }

theorem touching {first second width : Nat} (before : first ≤ second)
    (reached : second ≤ first + width) :
    ¬ Disjoint (Set.Icc first (first + width)) (Set.Icc second (second + width)) := by
  intro apart
  refine Set.disjoint_left.mp apart ⟨before, reached⟩ ⟨Nat.le_refl second, ?_⟩
  exact Nat.le_add_right second width

/-- Without a guard one member's frame ends at the very instant the next one's begins; and with
a guard that wraps, which the check does not see, all members are due at once. -/
theorem slots_touching :
    finish unguarded 2 ≤ endorsementTargetSeconds ∧
    ¬ Disjoint
      (Set.Icc (begins unguarded 2 0 0 .independent) (begins unguarded 2 0 0 .independent + widest))
      (Set.Icc (begins unguarded 2 0 1 .independent)
        (begins unguarded 2 0 1 .independent + widest)) ∧
    finish wrapped 2 ≤ endorsementTargetSeconds ∧
    ¬ Disjoint
      (Set.Icc (begins wrapped 2 0 0 .independent) (begins wrapped 2 0 0 .independent + widest))
      (Set.Icc (begins wrapped 2 0 1 .independent)
        (begins wrapped 2 0 1 .independent + widest)) := by
  refine ⟨by decide +kernel, touching ?_ ?_, by decide +kernel, touching ?_ ?_⟩
  all_goals decide +kernel

end Schedule
