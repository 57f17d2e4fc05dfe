import Lcq.Contracts
import Lcq.WorstOutcomes
import Mathlib.Algebra.Order.Field.Rat

/-!
# The shared medium

Who gets through when two radios talk at once. Powers and moments are exact,
where the source has floats.
-/

namespace Medium

open Contracts WorstOutcomes

/-! ## Powers -/

/-- A received power in dBm: none at all past the horizon, and without bound for what the
receiver sends itself. -/
inductive Power where
  | silence
  | dbm (value : ℚ)
  | infinity
  deriving DecidableEq

namespace Power

/-- The difference of two powers; none where it is not a number. -/
def minus : Power → Power → Option Power
  | .dbm p, .dbm q => some (.dbm (p - q))
  | .infinity, .infinity => none
  | .silence, .silence => none
  | .infinity, _ => some .infinity
  | .silence, _ => some .silence
  | _, .infinity => some .silence
  | _, .silence => some .infinity

/-- Nothing compares with what is not a number. -/
def atLeast : Option Power → ℚ → Bool
  | none, _ => false
  | some .silence, _ => false
  | some .infinity, _ => true
  | some (.dbm p), q => decide (q ≤ p)

def below : Power → ℚ → Bool
  | .silence, _ => true
  | .infinity, _ => false
  | .dbm p, q => decide (p < q)

end Power

/-! ## Frames and the moments that decide them -/

/-- What the timing takes of a physical-layer profile. -/
structure PhyProfile where
  spreadingFactor : UInt8
  bandwidthHz : UInt32
  preambleSymbols : UInt16
  preambleSymbolsToLock : UInt16
  captureThresholdDb : UInt8

def PhyProfile.eu868Sf10 : PhyProfile where
  spreadingFactor := 10
  bandwidthHz := 125000
  preambleSymbols := 8
  preambleSymbolsToLock := 6
  captureThresholdDb := 6

/-- Receiver sensitivity for a spreading factor. -/
def sensitivityDbmAt (spreadingFactor : UInt8) : ℚ :=
  if spreadingFactor ≤ 7 then -123
  else if spreadingFactor = 8 then -126
  else if spreadingFactor = 9 then -129
  else if spreadingFactor = 10 then -132
  else if spreadingFactor = 11 then -269 / 2
  else -137

def sensitivityDbm : ℚ := sensitivityDbmAt PhyProfile.eu868Sf10.spreadingFactor

/-- One frame occupying the channel, as seen at a particular receiver. -/
structure Transmission where
  startMs : UInt64
  airtimeMs : UInt64
  rssiDbm : Power

namespace Transmission

/-- The receiver's own frame: nothing can be heard over it. -/
def ownTransmission (startMs airtimeMs : UInt64) : Transmission := ⟨startMs, airtimeMs, .infinity⟩

def endMs (t : Transmission) : UInt64 := saturatingAdd t.startMs t.airtimeMs

/-- Whether the two share any instant on the air. -/
def overlaps (t other : Transmission) : Bool :=
  decide (t.startMs < other.endMs) && decide (other.startMs < t.endMs)

end Transmission

/-- The moments in a frame that decide its fate, in symbols from its start: when the lock window
opens, where the lock is, where the header ends; and how much stronger a frame has to be. -/
structure Acquisition where
  symbolMs : ℚ
  leadSymbols : ℚ
  lockedSymbols : ℚ
  headerEndSymbols : ℚ
  captureThresholdDb : ℚ

namespace Acquisition

def syncSymbols : ℚ := 17 / 4

def headerSymbols : ℚ := 8

/-- The timing the profile implies. -/
def fromProfile (profile : PhyProfile) : Acquisition where
  symbolMs := (2 ^ min profile.spreadingFactor.toNat 12 : ℕ) / profile.bandwidthHz.toNat * 1000
  leadSymbols := (profile.preambleSymbols.toNat - profile.preambleSymbolsToLock.toNat : ℕ)
  lockedSymbols := profile.preambleSymbols.toNat + syncSymbols
  headerEndSymbols := profile.preambleSymbols.toNat + syncSymbols + headerSymbols
  captureThresholdDb := profile.captureThresholdDb.toNat

def defaultProfile : Acquisition := fromProfile .eu868Sf10

variable (a : Acquisition)

/-- The same timing with time compressed. -/
def scaled (scale : UInt32) : Acquisition := { a with symbolMs := a.symbolMs / (max scale 1).toNat }

def lockWindow (frame : Transmission) : ℚ × ℚ :=
  (frame.startMs.toNat + a.leadSymbols * a.symbolMs,
    frame.startMs.toNat + a.lockedSymbols * a.symbolMs)

def headerEnd (frame : Transmission) : ℚ := frame.startMs.toNat + a.headerEndSymbols * a.symbolMs

end Acquisition

/-! ## A frame's fate -/

/-- How a frame fared at one receiver, in the order of how bad it is. -/
inductive Reception where
  | decoded
  | crcError
  | headerError
  | noLock
  | tooWeak
  deriving DecidableEq

namespace Reception

def rank : Reception → ℕ
  | decoded => 0
  | crcError => 1
  | headerError => 2
  | noLock => 3
  | tooWeak => 4

theorem rank_injective : Function.Injective rank := by
  intro r s same
  cases r <;> cases s <;> first | rfl | cases same

instance : LinearOrder Reception := LinearOrder.lift' rank rank_injective

instance : OrderBot Reception where
  bot := decoded
  bot_le r := Nat.zero_le r.rank

end Reception

variable (target : Transmission) (acquisition : Acquisition)

/-- The loop over what else is on the air, with the worst so far. -/
def judging : Reception → List Transmission → Reception
  | worst, [] => worst
  | worst, other :: others =>
    -- not there, or enough weaker to be noise under this frame
    if target.overlaps other = false ∨
        Power.atLeast (target.rssiDbm.minus other.rssiDbm) acquisition.captureThresholdDb = true then
      judging worst others
    else
      let (lockStart, lockEnd) := acquisition.lockWindow target
      let start : ℚ := other.startMs.toNat
      -- over the symbols the lock needs
      if start < lockEnd ∧ lockStart < other.endMs.toNat then .noLock
      else if lockEnd ≤ start then
        judging (max worst (if start < acquisition.headerEnd target then .headerError else .crcError))
          others
      -- it ended before the lock window opened
      else judging worst others

/-- Decide a frame's fate at one receiver against everything on the air there. -/
def judge (others : List Transmission) : Reception :=
  if target.rssiDbm.below sensitivityDbm = true then .tooWeak
  else judging target acquisition .decoded others

/-! ## One interferer at a time -/

/-- What one other frame does to this one. -/
def against (other : Transmission) : Reception :=
  if target.overlaps other = false ∨
      Power.atLeast (target.rssiDbm.minus other.rssiDbm) acquisition.captureThresholdDb = true then
    .decoded
  else
    let (lockStart, lockEnd) := acquisition.lockWindow target
    let start : ℚ := other.startMs.toNat
    if start < lockEnd ∧ lockStart < other.endMs.toNat then .noLock
    else if lockEnd ≤ start then
      if start < acquisition.headerEnd target then .headerError else .crcError
    else .decoded

variable {target acquisition} {others : List Transmission}

theorem against_le (other : Transmission) : against target acquisition other ≤ .noLock := by
  unfold against
  dsimp only
  split
  · exact bot_le
  · split
    · exact le_refl _
    · split
      · split <;> decide
      · exact bot_le

/-- The loop keeps the worst and stops where there is no lock. -/
theorem judging_eq_gather (so : Reception) :
    judging target acquisition so others =
      gather (against target acquisition) .noLock so others := by
  induction others generalizing so with
  | nil => rfl
  | cons other others ih =>
    have harmless : max so .decoded = so := max_bot_right so
    rw [judging, gather, against]
    dsimp only
    split
    · -- out of the way, or captured
      rw [if_neg (by decide), harmless]
      exact ih so
    · split
      · rw [if_pos rfl]
      · split
        · -- behind the lock: over the header or over the payload
          have locked (c : Prop) [Decidable c] :
              (if c then Reception.headerError else .crcError) ≠ .noLock := by
            split <;> decide
          rw [if_neg (locked _)]
          exact ih _
        · rw [if_neg (by decide), harmless]
          exact ih so

theorem judging_eq (others : List Transmission) :
    judging target acquisition .decoded others = worst (against target acquisition) others := by
  have found : gather (against target acquisition) .noLock .decoded others =
      max .decoded (worst (against target acquisition) others) :=
    gather_eq bot_le fun other _ => against_le other
  rw [judging_eq_gather, found]
  exact max_bot_left _

/-- A frame that is strong enough fares as with the worst of the others. -/
theorem judge_heard (strong : target.rssiDbm.below sensitivityDbm = false)
    (others : List Transmission) :
    judge target acquisition others = worst (against target acquisition) others := by
  rw [judge, if_neg (by rw [strong]; exact Bool.false_ne_true), judging_eq]

theorem judge_weak (weak : target.rssiDbm.below sensitivityDbm = true)
    (others : List Transmission) : judge target acquisition others = .tooWeak := if_pos weak

theorem judge_perm {shuffled : List Transmission} (perm : others.Perm shuffled) :
    judge target acquisition others = judge target acquisition shuffled := by
  cases level : target.rssiDbm.below sensitivityDbm with
  | true => rw [judge_weak level, judge_weak level]
  | false => rw [judge_heard level, judge_heard level, worst_perm perm]

/-- More on the air never makes a frame fare better. -/
theorem judge_mono {more : List Transmission} (subset : others ⊆ more) :
    judge target acquisition others ≤ judge target acquisition more := by
  cases level : target.rssiDbm.below sensitivityDbm with
  | true => rw [judge_weak level, judge_weak level]
  | false =>
    rw [judge_heard level, judge_heard level]
    exact worst_mono subset

/-- A frame against which anything counts fares as it does against some one other. -/
theorem judge_by_one (some : others ≠ []) :
    ∃ other ∈ others, judge target acquisition others = judge target acquisition [other] := by
  cases level : target.rssiDbm.below sensitivityDbm with
  | true =>
    obtain ⟨other, mem⟩ := List.exists_mem_of_ne_nil others some
    exact ⟨other, mem, by rw [judge_weak level, judge_weak level]⟩
  | false =>
    obtain ⟨other, mem, same⟩ := worst_mem (against target acquisition) some
    refine ⟨other, mem, ?_⟩
    rw [judge_heard level, judge_heard level, same, worst_singleton]

/-! ## What the outcomes mean -/

/-- The other frame is on the air at some instant of this one, and not so much weaker that it
is noise under it. -/
structure Interferes (target : Transmission) (acquisition : Acquisition) (other : Transmission) :
    Prop where
  overlaps : target.overlaps other = true
  uncaptured :
    Power.atLeast (target.rssiDbm.minus other.rssiDbm) acquisition.captureThresholdDb = false

theorem against_decoded (other : Transmission) : against target acquisition other = .decoded ↔
    (Interferes target acquisition other →
      (other.endMs.toNat : ℚ) ≤ (acquisition.lockWindow target).1 ∧
        (other.startMs.toNat : ℚ) < (acquisition.lockWindow target).2) := by
  unfold against
  dsimp only
  split
  · rename_i away
    refine iff_of_true rfl fun interferes => ?_
    rcases away with apart | captured
    · exact absurd (apart.symm.trans interferes.overlaps) Bool.false_ne_true
    · exact absurd (interferes.uncaptured.symm.trans captured) Bool.false_ne_true
  · rename_i there
    rw [not_or, Bool.not_eq_false, Bool.not_eq_true] at there
    have interferes : Interferes target acquisition other := ⟨there.1, there.2⟩
    split
    · rename_i locking
      refine iff_of_false (by decide) fun gone => ?_
      exact absurd locking.2 (not_lt.mpr (gone interferes).1)
    · rename_i outside
      split
      · rename_i behind
        refine iff_of_false (by split <;> decide) fun gone => ?_
        exact absurd (gone interferes).2 (not_lt.mpr behind)
      · rename_i before
        have before := not_le.mp before
        refine iff_of_true rfl fun _ => ⟨not_lt.mp fun late => outside ⟨before, late⟩, before⟩

/-- A frame is received intact exactly if it is strong enough and whatever interferes with it
ended before its lock window opened. -/
theorem judge_decoded_iff : judge target acquisition others = .decoded ↔
    target.rssiDbm.below sensitivityDbm = false ∧
      ∀ other ∈ others, Interferes target acquisition other →
        (other.endMs.toNat : ℚ) ≤ (acquisition.lockWindow target).1 ∧
          (other.startMs.toNat : ℚ) < (acquisition.lockWindow target).2 := by
  cases level : target.rssiDbm.below sensitivityDbm with
  | true =>
    rw [judge_weak level]
    exact iff_of_false (by decide) fun strong => Bool.noConfusion strong.1
  | false =>
    have least (r : Reception) : r = .decoded ↔ r ≤ .decoded := le_bot_iff.symm
    rw [judge_heard level, least, worst_le]
    constructor
    · intro all
      exact ⟨rfl, fun other mem => (against_decoded other).mp ((least _).mpr (all other mem))⟩
    · rintro ⟨-, all⟩ other mem
      exact (least _).mp ((against_decoded other).mpr (all other mem))

/-! ## Order and number do not matter -/

/-- For every frame, every timing and every list of others: the order of the list does not
matter; the outcome is the worst of those against each alone, or the frame is too weak whatever
the list; and one more on the air never makes it fare better. -/
theorem interference (target : Transmission) (acquisition : Acquisition) :
    (Reception.decoded < .crcError ∧ Reception.crcError < .headerError ∧
        Reception.headerError < .noLock ∧ Reception.noLock < .tooWeak) ∧
      (∀ others shuffled : List Transmission, others.Perm shuffled →
        judge target acquisition shuffled = judge target acquisition others) ∧
      ((∀ others, judge target acquisition others = .tooWeak) ∨
        ∀ others, judge target acquisition others ≠ .tooWeak ∧
          judge target acquisition others =
            worst (fun other => judge target acquisition [other]) others) ∧
      ∀ before other after, judge target acquisition (before ++ after) ≤
        judge target acquisition (before ++ other :: after) := by
  refine ⟨by decide, fun others shuffled perm => (judge_perm perm).symm, ?_,
    fun before other after => judge_mono fun one mem => ?_⟩
  · cases level : target.rssiDbm.below sensitivityDbm with
    | true => exact Or.inl (judge_weak level)
    | false =>
      right
      intro others
      have alone : (fun other => judge target acquisition [other]) = against target acquisition :=
        funext fun other => (judge_heard level [other]).trans (worst_singleton other)
      rw [judge_heard level, alone]
      have heard : worst (against target acquisition) others ≤ .noLock :=
        worst_le.mpr fun other _ => against_le other
      exact ⟨ne_of_lt (lt_of_le_of_lt heard (by decide)), rfl⟩
  · rcases List.mem_append.mp mem with front | back
    · exact List.mem_append_left _ front
    · exact List.mem_append_right _ (List.mem_cons_of_mem _ back)

/-- One frame over the payload, one over the header, either way round. -/
theorem interference_swapped :
    let target : Transmission := ⟨0, 2000, .dbm (-100)⟩
    let overPayload : Transmission := ⟨245, 500, .dbm (-100)⟩
    let overHeader : Transmission := ⟨114, 500, .dbm (-100)⟩
    judge target .defaultProfile [overPayload, overHeader] = .headerError ∧
      judge target .defaultProfile [overHeader, overPayload] =
        judge target .defaultProfile [overPayload, overHeader] := by
  intro target overPayload overHeader
  refine ⟨by decide +kernel, ?_⟩
  exact (interference target .defaultProfile).2.1 _ _ (List.Perm.swap overHeader overPayload [])

end Medium
