import Lcq.LateJoining
import Lcq.ScenarioRounds
import Lcq.SealedFrames
import Lcq.UniformFleets
import Mathlib.Tactic.GCongr

/-!
# When a scenario's members are on the air

What the observer can hear of one round is over before anything of the next
begins, so that a frame is judged fairly against its own round alone. Slots do
not overlap within a round either, and nothing collides in them.
-/

namespace ScenarioTiming

open ByteFormat Coder Contracts LateJoining LegalAirtime Medium ScenarioAccounts ScenarioRounds
open Scenarios Schedule SealedFrames SimAdmission UniformFleets Utterances Wire

/-! ## How long a frame takes -/

theorem writeGroups_length_mono (fuel : Nat) {m n : Nat} (le : m ≤ n) :
    (writeGroups fuel m).length ≤ (writeGroups fuel n).length := by
  induction fuel generalizing m n with
  | zero => exact Nat.le_refl _
  | succ fuel ih =>
    rw [writeGroups, writeGroups]
    by_cases small : m < 128
    · rw [if_pos small]
      split
      · exact Nat.le_refl _
      · rw [List.length_singleton, List.length_cons]
        omega
    · rw [if_neg small, if_neg (by omega), List.length_cons, List.length_cons]
      have rest := ih (Nat.div_le_div_right (c := 128) le)
      omega

/-- The width of a serialised envelope: two of its fields are a member's own. -/
theorem encodeCompact_size {signed : SignedCompactEnvelope} {bytes : Bytes}
    (written : encodeCompact signed = .ok bytes) :
    bytes.length = (writeGroups 3 signed.envelope.missionEpoch.toNat).length +
      (writeGroups 5 signed.envelope.event.toNat).length +
      (writeGroups 3 signed.envelope.revision.toNat).length +
      (writeGroups 10 signed.envelope.startedAt.toNat).length +
      (writeGroups 3 signed.envelope.authorIndex.toNat).length +
      (writeGroups 10 signed.envelope.sequence.toNat).length +
      (writeGroups 3 signed.envelope.round.opener.toNat).length +
      (writeGroups 5 signed.envelope.round.sequence.toNat).length + 83 := by
  have size : signed.signature.1.length < 2 ^ 64 := by
    rw [signed.signature.2]
    decide
  have wide : (writeGroups 10 (UInt64.ofNat signed.signature.1.length).toNat).length = 1 := by
    rw [signed.signature.2]
    rfl
  unfold encodeCompact at written
  split at written
  · cases written
  · rename_i w made
    cases written
    simp only [compactCoder, envelopeCoder, signatureCoder, along, pair, lengthed, fixed, byte,
      varint16, varint32, varint64, if_pos size, Option.bind_some, Option.map_some,
      Option.some.injEq] at made
    rw [← made]
    simp only [List.length_append, List.length_singleton, wide, signed.envelope.case.2,
      signed.envelope.heard.size]
    rw [signed.signature.2]
    omega

/-- Symbols of the payload. -/
def payloadSymbols (payloadBytes : Nat) : ℤ :=
  max ((8 * ((min payloadBytes 255 : Nat) : ℚ) - 4 * 10 + 28 + 16) / (4 * 10)).ceil 0

theorem payloadSymbols_mono {short long : Nat} (le : short ≤ long) :
    payloadSymbols short ≤ payloadSymbols long := by
  have capped : ((min short 255 : Nat) : ℚ) ≤ ((min long 255 : Nat) : ℚ) := by
    exact_mod_cast min_le_min_right 255 le
  refine max_le_max_right 0 (Rat.ceil_le_iff.mpr (le_trans ?_ Rat.le_ceil))
  linarith

theorem airtimeMsAt_eq (payloadBytes : Nat) : airtimeMsAt defaultSpreadingFactor payloadBytes =
    min ((8 + 17 / 4) * (2 ^ 10 / 125000 * 1000) +
      (8 + (payloadSymbols payloadBytes : ℚ) * 5) * (2 ^ 10 / 125000 * 1000) +
        1 / 2 : ℚ).floor.toNat 4294967295 := by
  have plain : (if 11 ≤ 10 then 1 else 0 : ℚ) = 0 := if_neg (by decide)
  have factor : min (max 10 7) 12 = 10 := rfl
  unfold airtimeMsAt defaultSpreadingFactor payloadSymbols
  simp only [plain, factor, mul_zero, sub_zero, Nat.cast_ofNat]

theorem airtimeMsAt_mono {short long : Nat} (le : short ≤ long) :
    airtimeMsAt defaultSpreadingFactor short ≤ airtimeMsAt defaultSpreadingFactor long := by
  have symbols : (payloadSymbols short : ℚ) ≤ payloadSymbols long := by
    exact_mod_cast payloadSymbols_mono le
  rw [airtimeMsAt_eq, airtimeMsAt_eq]
  refine min_le_min_right _ (Int.toNat_le_toNat (Rat.floor_monotone ?_))
  linarith

theorem airtimeMs_mono {short long : Nat} (le : short ≤ long) :
    (airtimeMs short).toNat ≤ (airtimeMs long).toNat := by
  have bound (n : Nat) : airtimeMsAt defaultSpreadingFactor n < UInt64.size :=
    Nat.lt_of_le_of_lt (min_le_right _ _) (by decide)
  rw [airtimeMs, airtimeMs, UInt64.toNat_ofNat_of_lt' (bound short),
    UInt64.toNat_ofNat_of_lt' (bound long)]
  exact airtimeMsAt_mono le

variable {C : Primitives} {s : Scenario} {frames : Nat → Bytes} {manifest : List VerifyingKey}
  {subject : Subject} {r : Run} {n : Nat}

/-- Bytes of a member's frame that grow with its index. -/
def ownBytes (sender : Nat) : Nat :=
  (writeGroups 3 (authorOf sender).toNat).length +
    (writeGroups 10 (UInt64.ofNat sender).toNat).length

theorem ownBytes_mono {first second : Nat} (le : first ≤ second) (fits : second < 2 ^ 64) :
    ownBytes first ≤ ownBytes second := by
  have authors := writeGroups_length_mono 3 (m := (authorOf first).toNat)
    (n := (authorOf second).toNat) (by rw [authorOf_toNat, authorOf_toNat]; omega)
  have numbers := writeGroups_length_mono 10 (m := (UInt64.ofNat first).toNat)
    (n := (UInt64.ofNat second).toNat) (by
      rw [UInt64.toNat_ofNat_of_lt' (Nat.lt_of_le_of_lt le fits), UInt64.toNat_ofNat_of_lt' fits]
      exact le)
  exact Nat.add_le_add authors numbers

theorem frameFor_size (aead : Aead C) {sender : Nat} {frame : Bytes}
    (made : frameFor C s sender = some frame) : frame.length = ownBytes sender + 117 := by
  unfold frameFor at made
  split at made
  · cases made
  · rename_i encoded written
    have wide := encodeCompact_length written
    obtain ⟨shut, closes, length, -⟩ := open_sealFrame aead labGroupKey (authorOf sender)
      (.ofNat sender) (Nat.lt_of_le_of_lt wide (by decide))
    rw [closes] at made
    cases made
    have exact := encodeCompact_size written
    rw [length, exact, ownBytes, frameHeaderBytes, tagBytes]
    change 10 + (1 + 1 + 1 + 1 + (writeGroups 3 (authorOf sender).toNat).length +
      (writeGroups 10 (UInt64.ofNat sender).toNat).length +
      (writeGroups 3 (RoundId.none).opener.toNat).length +
      (writeGroups 5 (RoundId.none).sequence.toNat).length + 83) + 16 = _
    have opener : (writeGroups 3 (RoundId.none).opener.toNat).length = 3 := rfl
    have label : (writeGroups 5 (RoundId.none).sequence.toNat).length = 1 := rfl
    omega

/-- Nobody's frame takes longer than that of a member with a greater index, nor than the
widest. -/
structure Sized (s : Scenario) (frames : Nat → Bytes) : Prop where
  rising : ∀ i j, i ≤ j → j < s.fleet →
    (Run.air frames i).toNat ≤ (Run.air frames j).toNat
  short : ∀ i < s.fleet, (Run.air frames i).toNat ≤ 1436

theorem sized (aead : Aead C)
    (framed : ∀ sender < s.fleet, frameFor C s sender = some (frames sender)) :
    Sized s frames := by
  have size (i : Nat) (inside : i < s.fleet) := frameFor_size aead (framed i inside)
  constructor
  · intro i j le inside
    refine airtimeMs_mono ?_
    rw [size i (by omega), size j inside]
    have own := ownBytes_mono le (Nat.lt_trans inside s.counted)
    omega
  · intro i inside
    have widest : (airtimeMs maxFrameBytes).toNat = 1436 := by
      rw [airtime_widest]
      rfl
    rw [← widest]
    refine airtimeMs_mono ?_
    have short := writeGroups_length_le 3 (authorOf i).toNat
    have short' := writeGroups_length_le 10 (UInt64.ofNat i).toNat
    rw [size i inside, ownBytes, maxFrameBytes]
    omega

/-! ## Within a round -/

/-- The longest a round can last, in milliseconds. -/
def span (s : Scenario) : Nat :=
  match s.access with
  | .random => 240000 + 1436
  | .slotted guardMs => (1436 + guardMs.toNat) * s.fleet

/-- The clock of a run does not wrap. -/
def Roomy (s : Scenario) : Prop := maxRetries * span s < 2 ^ 64

instance (s : Scenario) : Decidable (Roomy s) := inferInstanceAs (Decidable (_ < _))

theorem windowMs_bounds (round : Nat) :
    0 < (windowMs round).toNat ∧ (windowMs round).toNat ≤ 240000 := by
  unfold windowMs contentionWindowMs
  split <;> decide

theorem windowFor_le (sized : Sized s frames) (roomy : Roomy s) (round : Nat) :
    (Run.windowFor s frames round).toNat ≤ span s := by
  unfold Roomy maxRetries at roomy
  unfold Run.windowFor
  unfold span at roomy ⊢
  cases access : s.access with
  | random =>
    have bounds := windowMs_bounds round
    dsimp only
    omega
  | slotted guardMs =>
    rw [access] at roomy
    dsimp only at roomy ⊢
    have own := sized.short observer s.manned
    have product : ((Run.air frames observer).toNat + guardMs.toNat) * s.fleet ≤
        (1436 + guardMs.toNat) * s.fleet := Nat.mul_le_mul_right _ (by omega)
    have least : (1436 + guardMs.toNat) ≤ (1436 + guardMs.toNat) * s.fleet :=
      Nat.le_mul_of_pos_right _ s.manned
    rw [UInt64.toNat_mul, UInt64.toNat_add, UInt64.toNat_ofNat_of_lt' s.counted,
      Nat.mod_eq_of_lt (a := _ + _) (by omega), Nat.mod_eq_of_lt (by omega)]
    exact product

/-- A frame on the air of a round that began at some moment. -/
structure Placed (s : Scenario) (frames : Nat → Bytes) (began : Nat) (p : Nat × Transmission) :
    Prop where
  inside : p.1 < s.fleet
  long : p.2.airtimeMs = Run.air frames p.1
  after : began ≤ p.2.startMs.toNat
  ended : p.2.startMs.toNat + p.2.airtimeMs.toNat ≤ began + span s
  slot : s.access = .random ∨ ∃ guardMs, s.access = .slotted guardMs ∧
    p.2.startMs.toNat = began + p.1 * ((Run.air frames p.1).toNat + guardMs.toNat)

theorem startFor_placed (sized : Sized s frames) (roomy : Roomy s)
    (clock : r.elapsedMs.toNat ≤ n * span s) (early : n < maxRetries) {sender : Nat}
    (inside : sender < s.fleet) (round : Nat) (power : Power) :
    Placed s frames r.elapsedMs.toNat (sender,
      ⟨(r.startFor s sender (Run.air frames sender) (Run.windowFor s frames round)).1,
        Run.air frames sender, power⟩) := by
  have short := sized.short sender inside
  have room : r.elapsedMs.toNat + span s < 2 ^ 64 := by
    unfold Roomy at roomy
    have most : (n + 1) * span s ≤ maxRetries * span s := Nat.mul_le_mul_right _ early
    rw [Nat.succ_mul] at most
    omega
  unfold span at room
  unfold Run.startFor Run.windowFor
  cases access : s.access with
  | random =>
    rw [access] at room
    dsimp only at room ⊢
    have bounds := windowMs_bounds round
    have below := UInt64.lt_iff_toNat_lt.mp (@Rng.below_lt r.rng (windowMs round) (by
      intro zero
      rw [zero] at bounds
      exact absurd bounds.1 (by decide)))
    have start : (r.elapsedMs + (r.rng.below (windowMs round)).1).toNat =
        r.elapsedMs.toNat + (r.rng.below (windowMs round)).1.toNat := by
      rw [UInt64.toNat_add, Nat.mod_eq_of_lt (by omega)]
    refine ⟨inside, rfl, ?_, ?_, Or.inl access⟩
    · rw [start]
      exact Nat.le_add_right _ _
    · rw [span, access, start]
      dsimp only
      omega
  | slotted guardMs =>
    rw [access] at room
    dsimp only at room ⊢
    have row : (sender + 1) * ((Run.air frames sender).toNat + guardMs.toNat) ≤
        (1436 + guardMs.toNat) * s.fleet := by
      rw [Nat.mul_comm]
      exact Nat.mul_le_mul (by omega) inside
    rw [Nat.succ_mul] at row
    have start : (r.elapsedMs + .ofNat sender * (Run.air frames sender + guardMs)).toNat =
        r.elapsedMs.toNat + sender * ((Run.air frames sender).toNat + guardMs.toNat) := by
      have turn : (Run.air frames sender + guardMs).toNat =
          (Run.air frames sender).toNat + guardMs.toNat := by
        rw [UInt64.toNat_add, Nat.mod_eq_of_lt (by omega)]
      rw [UInt64.toNat_add, UInt64.toNat_mul, turn,
        UInt64.toNat_ofNat_of_lt' (Nat.lt_trans inside s.counted),
        Nat.mod_eq_of_lt (a := _ * _) (by omega), Nat.mod_eq_of_lt (by omega)]
    refine ⟨inside, rfl, ?_, ?_, Or.inr ⟨guardMs, access, start⟩⟩
    · rw [start]
      exact Nat.le_add_right _ _
    · rw [span, access, start]
      dsimp only
      omega

/-- Slots are apart: a later one begins when an earlier one is over. -/
theorem placed_apart (sized : Sized s frames) {began : Nat} {p q : Nat × Transmission}
    (first : Placed s frames began p) (second : Placed s frames began q)
    (slotted : s.access ≠ .random) (less : p.1 < q.1) :
    p.2.startMs.toNat + p.2.airtimeMs.toNat ≤ q.2.startMs.toNat := by
  obtain ⟨guardMs, access, start⟩ := first.slot.resolve_left slotted
  obtain ⟨guardMs', access', start'⟩ := second.slot.resolve_left slotted
  rw [access, Access.slotted.injEq] at access'
  subst access'
  have rising := sized.rising p.1 q.1 (Nat.le_of_lt less) second.inside
  have row : (p.1 + 1) * ((Run.air frames p.1).toNat + guardMs.toNat) ≤
      q.1 * ((Run.air frames q.1).toNat + guardMs.toNat) := Nat.mul_le_mul less (by omega)
  rw [Nat.succ_mul] at row
  rw [first.long, start, start']
  omega

/-! ## What the observer can hear -/

/-- Neither out of reach nor kept off the air. -/
def Audible (e : TraceEntry) : Prop := e.outcome ≠ .unreachable ∧ e.outcome ≠ .dutyCycleBlocked

def ends (e : TraceEntry) : Nat := e.startMs.toNat + e.airtimeMs.toNat

/-- One is over before the other begins, or they are of the same round, where only random access
lets them overlap. -/
def Clear (s : Scenario) (e later : TraceEntry) : Prop :=
  Audible e → Audible later → ends e ≤ later.startMs.toNat ∨
    e.round = later.round ∧ (s.access = .random ∨ ends later ≤ e.startMs.toNat)

/-- What the observer has heard up to some moment of a round, and what is on the air in it. -/
structure Laid (s : Scenario) (frames : Nat → Bytes) (n began : Nat) (timeline : List TraceEntry)
    (onAir : List (Nat × Transmission)) : Prop where
  apart : timeline.Pairwise (Clear s)
  past : ∀ e ∈ timeline, Audible e → e.round < n → ends e ≤ began
  now : ∀ e ∈ timeline, Audible e → e.round = n → ∃ p ∈ onAir, p.1 = e.sender ∧
    p.2.startMs = e.startMs ∧ p.2.airtimeMs = e.airtimeMs
  calm : s.access ≠ .random → ∀ e ∈ timeline, e.outcome ≠ .collided
  placed : ∀ p ∈ onAir, Placed s frames began p

namespace Laid

variable {began : Nat} {timeline : List TraceEntry} {onAir : List (Nat × Transmission)}

theorem aired (laid : Laid s frames n began timeline onAir) {p : Nat × Transmission}
    (placed : Placed s frames began p) : Laid s frames n began timeline (onAir ++ [p]) := by
  obtain ⟨apart, past, now, calm, all⟩ := laid
  refine ⟨apart, past, fun e mem audible same => ?_, calm, ?_⟩
  · obtain ⟨q, held, whose⟩ := now e mem audible same
    exact ⟨q, List.mem_append_left _ held, whose⟩
  · rw [List.forall_mem_append]
    refine ⟨all, fun q new => ?_⟩
    rw [List.mem_singleton.mp new]
    exact placed

/-- An entry of what the observer cannot hear. -/
theorem unheard (laid : Laid s frames n began timeline onAir) {e : TraceEntry}
    (silent : e.outcome = .unreachable ∨ e.outcome = .dutyCycleBlocked) :
    Laid s frames n began (timeline ++ [e]) onAir := by
  have mute : ¬ Audible e := by
    rintro ⟨reached, aired⟩
    rcases silent with same | same
    · exact reached same
    · exact aired same
  obtain ⟨apart, past, now, calm, placed⟩ := laid
  refine ⟨?_, ?_, ?_, fun slotted => ?_, placed⟩
  · rw [List.pairwise_append]
    refine ⟨apart, List.pairwise_singleton _ _, fun d old d' new audible audible' => ?_⟩
    rw [List.mem_singleton.mp new] at audible'
    exact absurd audible' mute
  · rw [List.forall_mem_append]
    refine ⟨past, fun d new audible => ?_⟩
    rw [List.mem_singleton.mp new] at audible
    exact absurd audible mute
  · rw [List.forall_mem_append]
    refine ⟨now, fun d new audible => ?_⟩
    rw [List.mem_singleton.mp new] at audible
    exact absurd audible mute
  · rw [List.forall_mem_append]
    refine ⟨calm slotted, fun d new => ?_⟩
    rw [List.mem_singleton.mp new]
    rcases silent with same | same <;> rw [same] <;> rintro ⟨⟩

/-- The entry of a frame on the air, which is the only one of its sender in the round. -/
theorem entered (sized : Sized s frames) (laid : Laid s frames n began timeline onAir)
    (sofar : ∀ e ∈ timeline, e.round ≤ n) {p : Nat × Transmission} (mem : p ∈ onAir)
    {e : TraceEntry} (whose : e.sender = p.1) (start : e.startMs = p.2.startMs)
    (long : e.airtimeMs = p.2.airtimeMs) (round : e.round = n)
    (fresh : ∀ d ∈ timeline, d.round = n → d.sender ≠ p.1)
    (intact : s.access ≠ .random → e.outcome ≠ .collided) :
    Laid s frames n began (timeline ++ [e]) onAir := by
  obtain ⟨apart, past, now, calm, placed⟩ := laid
  have here := placed p mem
  refine ⟨?_, ?_, ?_, fun slotted => ?_, placed⟩
  · rw [List.pairwise_append]
    refine ⟨apart, List.pairwise_singleton _ _, fun d old d' new audible audible' => ?_⟩
    rw [List.mem_singleton.mp new]
    rcases Nat.lt_or_eq_of_le (sofar d old) with before | same
    · left
      rw [start]
      exact (past d old audible before).trans here.after
    · obtain ⟨q, held, sender, starts, takes⟩ := now d old audible same
      have there := placed q held
      by_cases random : s.access = .random
      · exact Or.inr ⟨same.trans round.symm, Or.inl random⟩
      · rcases Nat.lt_or_gt_of_ne (sender.symm ▸ fresh d old same : q.1 ≠ p.1) with less | more
        · left
          have clear := placed_apart sized there here random less
          rwa [starts, takes, ← start] at clear
        · refine Or.inr ⟨same.trans round.symm, Or.inr ?_⟩
          have clear := placed_apart sized here there random more
          rwa [← start, ← long, starts] at clear
  · rw [List.forall_mem_append]
    refine ⟨past, fun d new audible before => ?_⟩
    rw [List.mem_singleton.mp new, round] at before
    exact absurd before (Nat.lt_irrefl n)
  · rw [List.forall_mem_append]
    refine ⟨now, fun d new audible same => ?_⟩
    rw [List.mem_singleton.mp new]
    exact ⟨p, mem, whose.symm, start.symm, long.symm⟩
  · rw [List.forall_mem_append]
    refine ⟨calm slotted, fun d new => ?_⟩
    rw [List.mem_singleton.mp new]
    exact intact slotted

/-- When all that is on the air is over, the next round may begin. -/
theorem next (laid : Laid s frames n began timeline onAir) (sofar : ∀ e ∈ timeline, e.round ≤ n)
    {after : Nat} (onward : began ≤ after)
    (ended : ∀ p ∈ onAir, p.2.startMs.toNat + p.2.airtimeMs.toNat ≤ after) :
    Laid s frames (n + 1) after timeline [] := by
  obtain ⟨apart, past, now, calm, placed⟩ := laid
  refine ⟨apart, fun e mem audible before => ?_, fun e mem audible same => ?_, calm, ?_⟩
  · rcases Nat.lt_or_eq_of_le (Nat.le_of_lt_succ before) with less | same
    · exact (past e mem audible less).trans onward
    · obtain ⟨p, held, -, starts, takes⟩ := now e mem audible same
      rw [ends, ← starts, ← takes]
      exact ended p held
  · have most := sofar e mem
    omega
  · rintro p ⟨⟩

end Laid

/-! ## A round of it -/

theorem hear_collided {sender : Nat} {frame : Transmission} {others : List Transmission}
    (apart : ∀ other ∈ others, frame.overlaps other = false) :
    (r.hear C s frames manifest subject sender frame others).1 ≠ .collided := by
  intro collided
  obtain ⟨weak, decoded⟩ := (@heard_hear C s frames manifest subject r sender frame others).hit
    collided
  cases level : frame.rssiDbm.below sensitivityDbm with
  | true => exact weak (judge_weak level others)
  | false =>
    refine decoded (judge_decoded_iff.mpr ⟨level, fun other mem interferes => ?_⟩)
    exact absurd ((apart other mem).symm.trans interferes.overlaps) Bool.false_ne_true

/-- A frame that is over before another begins does not overlap it. -/
theorem overlaps_apart {t other : Transmission}
    (apart : t.startMs.toNat + t.airtimeMs.toNat ≤ other.startMs.toNat ∨
      other.startMs.toNat + other.airtimeMs.toNat ≤ t.startMs.toNat) :
    t.overlaps other = false := by
  have least (u : Transmission) : u.endMs.toNat ≤ u.startMs.toNat + u.airtimeMs.toNat := by
    rw [Transmission.endMs, saturatingAdd_toNat]
    exact min_le_left _ _
  have mine := least t
  have theirs := least other
  rw [Transmission.overlaps, Bool.and_eq_false_iff, decide_eq_false_iff_not,
    decide_eq_false_iff_not, UInt64.not_lt, UInt64.not_lt, UInt64.le_iff_toNat_le,
    UInt64.le_iff_toNat_le]
  omega

variable {began : Nat}

/-- A round under way, as to who is left in it and as to time. -/
structure Airborne (s : Scenario) (frames : Nat → Bytes) (n began : Nat) (f : Flight)
    (rest : List Nat) : Prop where
  course : Course s n f.run.tally.timeline f.retry (sendersOf f.onAir ++ rest)
  laid : Laid s frames n began f.run.tally.timeline f.onAir
  clock : f.run.elapsedMs.toNat = began
  grounded : f.run.tally.onAir = []

theorem Airborne.keyUp {f : Flight} {sender : Nat} {rest : List Nat} (sized : Sized s frames)
    (roomy : Roomy s) (early : n < maxRetries) (within : began ≤ n * span s)
    (airborne : Airborne s frames n began f (sender :: rest)) :
    Airborne s frames n began (Run.keyUp s frames n (Run.windowFor s frames n) f sender) rest := by
  have course := @course_keyUp s frames n f sender rest (Run.windowFor s frames n)
    airborne.course
  obtain ⟨before, laid, clock, grounded⟩ := airborne
  have inside : sender < s.fleet := (before.seated sender (by simp)).2
  have timeline := charge_timeline (r := f.run) sender (Run.air frames sender) n
  obtain ⟨-, elapsed, onAir⟩ := @charge_beside f.run sender (Run.air frames sender) n
  refine ⟨course, ?_, ?_, ?_⟩
  all_goals
    clear course
    unfold Run.keyUp
    dsimp only
    generalize f.run.charge sender (Run.air frames sender) n = charged at timeline elapsed onAir ⊢
    obtain ⟨tally, -, -, later⟩ :=
      @startFor_beside s charged.2 sender (Run.air frames sender) (Run.windowFor s frames n)
  · by_cases granted : charged.1 = true
    · rw [if_pos granted, List.append_nil] at timeline
      rw [if_neg (by rw [granted]; exact Bool.false_ne_true.symm)]
      have placed := fun power => @startFor_placed s frames charged.2 n sized roomy
        (by rw [elapsed, clock]; exact within) early sender inside n power
      rw [elapsed, clock] at placed
      split
      · dsimp only
        rw [tally, timeline]
        exact laid.aired (placed _)
      · dsimp only [Run.record, Tally.record]
        rw [tally, timeline]
        exact laid.unheard (Or.inl rfl)
    · rw [if_neg granted] at timeline
      rw [if_pos (eq_false_of_ne_true granted)]
      dsimp only
      rw [timeline]
      exact laid.unheard (Or.inr rfl)
  · split
    · exact (congrArg UInt64.toNat elapsed).trans clock
    · split
      · exact (congrArg UInt64.toNat (later.trans elapsed)).trans clock
      · exact (congrArg UInt64.toNat (later.trans elapsed)).trans clock
  · split
    · exact onAir.trans grounded
    · split
      · exact ((congrArg Tally.onAir tally).trans onAir).trans grounded
      · exact ((congrArg Tally.onAir tally).trans onAir).trans grounded

theorem Airborne.keyUps {f : Flight} {pending : List Nat} (sized : Sized s frames)
    (roomy : Roomy s) (early : n < maxRetries) (within : began ≤ n * span s)
    (airborne : Airborne s frames n began f pending) :
    Airborne s frames n began
      (pending.foldl (Run.keyUp s frames n (Run.windowFor s frames n)) f) [] := by
  induction pending generalizing f with
  | nil => exact airborne
  | cons sender pending ih => exact ih (airborne.keyUp sized roomy early within)

/-- Nobody else is on the air twice with the sender of a frame. -/
theorem others_differ {before after : List (Nat × Transmission)} {p : Nat × Transmission}
    (other : p.1 ≠ observer) (once : (sendersOf (before ++ p :: after)).Nodup) :
    ∀ frame ∈ before.map Prod.snd ++ after.map Prod.snd,
      ∃ q ∈ before ++ p :: after, q.2 = frame ∧ q.1 ≠ p.1 := by
  have mem_of {q : Nat × Transmission} {onAir : List (Nat × Transmission)} (mem : q ∈ onAir)
      (same : q.1 = p.1) : p.1 ∈ sendersOf onAir := by
    refine List.mem_map.mpr ⟨q, List.mem_filter.mpr ⟨mem, ?_⟩, same⟩
    rw [same]
    exact decide_eq_true other
  have split : sendersOf (before ++ p :: after) =
      sendersOf before ++ p.1 :: sendersOf after := by
    rw [sendersOf, List.filter_append, List.map_append, List.filter_cons_of_pos (by simp [other])]
    rfl
  rw [split] at once
  have parts := List.nodup_append.mp once
  intro frame mem
  rcases List.mem_append.mp mem with mem | mem
  · obtain ⟨q, held, rfl⟩ := List.mem_map.mp mem
    refine ⟨q, List.mem_append_left _ held, rfl, fun same => ?_⟩
    exact parts.2.2 p.1 (mem_of held same) p.1 List.mem_cons_self rfl
  · obtain ⟨q, held, rfl⟩ := List.mem_map.mp mem
    refine ⟨q, List.mem_append_right _ (List.mem_cons_of_mem _ held), rfl, fun same => ?_⟩
    exact (List.nodup_cons.mp parts.2.1).1 (mem_of held same)

theorem laid_deliverOne (sized : Sized s frames) {state : Run × List Nat}
    {before after : List (Nat × Transmission)} {p : Nat × Transmission}
    (once : (sendersOf (before ++ p :: after)).Nodup)
    (course : Course s n state.1.tally.timeline state.2 (sendersOf (p :: after)))
    (laid : Laid s frames n began state.1.tally.timeline (before ++ p :: after)) :
    let out := Run.deliverOne C s frames manifest subject n state
      (p, before.map Prod.snd ++ after.map Prod.snd)
    Laid s frames n began out.1.tally.timeline (before ++ p :: after) ∧
      out.1.elapsedMs = state.1.elapsedMs ∧ out.1.tally.onAir = state.1.tally.onAir := by
  obtain ⟨sender, frame⟩ := p
  have differ := fun other => @others_differ before after (sender, frame) other once
  unfold Run.deliverOne
  dsimp only
  split
  · exact ⟨laid, rfl, rfl⟩
  · rename_i other
    have hears := @heard_hear C s frames manifest subject state.1 sender frame
      (before.map Prod.snd ++ after.map Prod.snd)
    have clear := @hear_collided C s frames manifest subject state.1 sender frame
      (before.map Prod.snd ++ after.map Prod.snd)
    have mem : (sender, frame) ∈ before ++ (sender, frame) :: after :=
      List.mem_append_right _ List.mem_cons_self
    refine ⟨?_, hears.elapsed, ?_⟩
    · dsimp only [Run.record, Tally.record]
      rw [hears.tally, bump_timeline]
      refine laid.entered sized course.sofar mem rfl rfl rfl rfl (fun d old same whose => ?_)
        fun slotted => clear fun frame' held => ?_
      · have earlier := (course.before d old (by
          rw [whose, sendersOf, List.filter_cons_of_pos (by simp [other])]
          exact List.mem_cons_self)).1
        omega
      · obtain ⟨q, flying, rfl, apart⟩ := differ other frame' held
        refine overlaps_apart ?_
        have here := laid.placed _ mem
        have there := laid.placed q flying
        rcases Nat.lt_or_gt_of_ne apart with less | more
        · exact Or.inr (placed_apart sized there here slotted less)
        · exact Or.inl (placed_apart sized here there slotted more)
    · dsimp only [Run.record, Tally.record]
      rw [hears.tally, (bump_beside _ _).2.2.2.1]

theorem laid_deliver (sized : Sized s frames) (before onAir : List (Nat × Transmission))
    {state : Run × List Nat} (once : (sendersOf (before ++ onAir)).Nodup)
    (course : Course s n state.1.tally.timeline state.2 (sendersOf onAir))
    (laid : Laid s frames n began state.1.tally.timeline (before ++ onAir)) :
    let out := (eachWithOthers Prod.snd before onAir).foldl
      (Run.deliverOne C s frames manifest subject n) state
    Laid s frames n began out.1.tally.timeline (before ++ onAir) ∧
      out.1.elapsedMs = state.1.elapsedMs ∧ out.1.tally.onAir = state.1.tally.onAir := by
  induction onAir generalizing before state with
  | nil => exact ⟨laid, rfl, rfl⟩
  | cons p onAir ih =>
    rw [eachWithOthers, List.foldl_cons]
    obtain ⟨laid', elapsed, grounded⟩ := @laid_deliverOne C s frames manifest subject n began
      sized state before onAir p once course laid
    have shape : before ++ p :: onAir = before ++ [p] ++ onAir := by simp
    rw [shape] at once laid' ⊢
    obtain ⟨laid'', elapsed', grounded'⟩ := ih (before ++ [p]) once (course_deliverOne p _ course)
      laid'
    exact ⟨laid'', elapsed'.trans elapsed, grounded'.trans grounded⟩

/-! ## From round to round -/

theorem max_toNat (a b : UInt64) : (max a b).toNat = max a.toNat b.toNat := by
  change (if a ≤ b then b else a).toNat = _
  split
  · rename_i le
    exact (Nat.max_eq_right (UInt64.le_iff_toNat_le.mp le)).symm
  · rename_i more
    rw [UInt64.le_iff_toNat_le] at more
    exact (Nat.max_eq_left (by omega)).symm

theorem foldl_max_bounds (rest : List UInt64) (first : UInt64) :
    (∀ x ∈ first :: rest, x ≤ rest.foldl max first) ∧
      ∀ most, (∀ x ∈ first :: rest, x ≤ most) → rest.foldl max first ≤ most := by
  induction rest generalizing first with
  | nil => exact ⟨by simp, fun most all => all first List.mem_cons_self⟩
  | cons second rest ih =>
    rw [List.foldl_cons]
    have both := max_toNat first second
    obtain ⟨upper, least⟩ := ih (max first second)
    constructor
    · rw [List.forall_mem_cons, List.forall_mem_cons]
      have top := upper (max first second) List.mem_cons_self
      refine ⟨?_, ?_, fun x mem => upper x (List.mem_cons_of_mem _ mem)⟩
      · rw [UInt64.le_iff_toNat_le] at top ⊢
        omega
      · rw [UInt64.le_iff_toNat_le] at top ⊢
        omega
    · intro most all
      rw [List.forall_mem_cons, List.forall_mem_cons] at all
      obtain ⟨le, le', others⟩ := all
      refine least most (List.forall_mem_cons.mpr ⟨?_, others⟩)
      rw [UInt64.le_iff_toNat_le] at le le' ⊢
      omega

/-- Nothing on the air is over later than the tail, which is no later than all of it has to be. -/
theorem tail_bounds (elapsed : UInt64) (onAir : List (Nat × Transmission)) :
    (∀ p ∈ onAir, p.2.endMs ≤ Run.tail elapsed onAir) ∧
      ∀ most, elapsed ≤ most → (∀ p ∈ onAir, p.2.endMs ≤ most) →
        Run.tail elapsed onAir ≤ most := by
  cases onAir with
  | nil => exact ⟨by simp, fun most early _ => early⟩
  | cons p onAir =>
    obtain ⟨upper, least⟩ := foldl_max_bounds (onAir.map fun q => q.2.endMs) p.2.endMs
    rw [← List.map_cons (f := fun q : Nat × Transmission => q.2.endMs)] at upper least
    constructor
    · exact fun q mem => upper _ (List.mem_map_of_mem mem)
    · intro most _ all
      refine least most fun x mem => ?_
      obtain ⟨q, held, rfl⟩ := List.mem_map.mp mem
      exact all q held

/-- A run between two rounds, or with the observer's answer on the air before the first. -/
structure Settled (s : Scenario) (frames : Nat → Bytes) (n : Nat) (r : Run) (pending : List Nat) :
    Prop where
  course : Course s n r.tally.timeline [] pending
  laid : Laid s frames n r.elapsedMs.toNat r.tally.timeline r.tally.onAir
  within : r.elapsedMs.toNat ≤ n * span s
  own : ∀ p ∈ r.tally.onAir, p.1 = observer

theorem Settled.round (sized : Sized s frames) (roomy : Roomy s) (early : n < maxRetries)
    {pending : List Nat}
    (settled : Settled s frames n (beginning C s frames manifest subject r n) pending) :
    let out := r.round C s frames manifest subject n pending
    Settled s frames (n + 1) out.1 out.2 := by
  have course := (course_round settled.course settled.own).1
  obtain ⟨run, waits⟩ := @round_eq C s frames manifest subject r n pending
  dsimp only at course run waits ⊢
  generalize beginning C s frames manifest subject r n = begun at settled run waits
  obtain ⟨before, laid, within, own⟩ := settled
  have takeoff : Airborne s frames n begun.elapsedMs.toNat
      ⟨{ begun with tally := { begun.tally with onAir := [] } }, begun.tally.onAir, []⟩ pending := by
    refine ⟨?_, laid, rfl, rfl⟩
    rw [sendersOf_own own, List.nil_append]
    exact before
  have flying := takeoff.keyUps sized roomy early within
  rw [← Run.schedule] at flying
  generalize begun.schedule s frames n (Run.windowFor s frames n) pending = flight
    at flying run waits
  have inAir := flying.course
  rw [List.append_nil] at inAir
  have once := (List.nodup_append.mp inAir.seats).2.1
  have heard := @laid_deliver C s frames manifest subject n begun.elapsedMs.toNat sized []
    flight.onAir (flight.run, flight.retry) once inAir flying.laid
  have sofar := (@course_deliver C s frames manifest subject n [] flight.onAir
    (flight.run, flight.retry) inAir).sofar
  dsimp only at heard sofar
  rw [← Run.deliver] at heard sofar
  obtain ⟨laid', elapsed, grounded⟩ := heard
  generalize Run.deliver C s frames manifest subject n flight = delivered
    at run waits laid' elapsed grounded sofar
  rw [run] at course ⊢
  have clock : delivered.1.elapsedMs = begun.elapsedMs :=
    UInt64.toNat_inj.mp ((congrArg UInt64.toNat elapsed).trans flying.clock)
  have window := windowFor_le sized roomy n
  have room : begun.elapsedMs.toNat + span s < 2 ^ 64 := by
    unfold Roomy at roomy
    have most : (n + 1) * span s ≤ maxRetries * span s := Nat.mul_le_mul_right _ early
    rw [Nat.succ_mul] at most
    omega
  have ended : ∀ p ∈ flight.onAir, p.2.endMs.toNat = p.2.startMs.toNat + p.2.airtimeMs.toNat ∧
      p.2.endMs.toNat ≤ begun.elapsedMs.toNat + span s := by
    intro p mem
    have most := (flying.laid.placed p mem).ended
    rw [Transmission.endMs, saturatingAdd_toNat]
    omega
  obtain ⟨upper, least⟩ := tail_bounds begun.elapsedMs flight.onAir
  have later : (max (Run.tail delivered.1.elapsedMs flight.onAir)
      (delivered.1.elapsedMs + Run.windowFor s frames n)).toNat =
      max (Run.tail begun.elapsedMs flight.onAir).toNat
        (begun.elapsedMs.toNat + (Run.windowFor s frames n).toNat) := by
    rw [clock, max_toNat, UInt64.toNat_add, Nat.mod_eq_of_lt (a := _ + _) (by omega)]
  have bounded := least (.ofNat (begun.elapsedMs.toNat + span s)) (by
    rw [UInt64.le_iff_toNat_le, UInt64.toNat_ofNat_of_lt' room]
    exact Nat.le_add_right _ _) fun p mem => by
      rw [UInt64.le_iff_toNat_le, UInt64.toNat_ofNat_of_lt' room]
      exact (ended p mem).2
  rw [UInt64.le_iff_toNat_le, UInt64.toNat_ofNat_of_lt' room] at bounded
  refine ⟨course, ?_, ?_, ?_⟩
  · dsimp only
    rw [grounded, flying.grounded, later]
    refine laid'.next sofar (by omega) fun p mem => ?_
    have end' := UInt64.le_iff_toNat_le.mp (upper p mem)
    have exact := (ended p mem).1
    omega
  · dsimp only
    rw [later, Nat.succ_mul]
    omega
  · dsimp only
    rw [grounded, flying.grounded]
    rintro p ⟨⟩

theorem laid_new : Laid s frames 0 0 [] [] := by
  refine ⟨List.Pairwise.nil, ?_, ?_, fun _ => ?_, ?_⟩
  · rintro e ⟨⟩
  · rintro e ⟨⟩
  · rintro e ⟨⟩
  · rintro p ⟨⟩

theorem settled_answers (sized : Sized s frames) (roomy : Roomy s) :
    Settled s frames 0 ((Run.new s).observerAnswers C s frames manifest subject
      (Run.windowFor s frames 0)) (awaited s) := by
  have course := @course_answers C s frames manifest subject (Run.windowFor s frames 0)
  obtain ⟨elapsed, leaves⟩ := @answers_cases C s frames manifest subject (.new s)
    (Run.windowFor s frames 0)
  have still := (@charge_beside (.new s) observer (Run.air frames observer) 0).2.1
  have placed := @startFor_placed s frames
    ((Run.new s).charge observer (Run.air frames observer) 0).2 0 sized roomy
    (by rw [still]; exact Nat.zero_le _) (by decide) observer s.manned 0 .infinity
  have zero : (Run.new s).elapsedMs.toNat = 0 := rfl
  rw [still, zero] at placed
  generalize (Run.new s).observerAnswers C s frames manifest subject (Run.windowFor s frames 0) =
    q at course elapsed leaves ⊢
  have none : (Run.new s).tally.timeline = [] := rfl
  have grounded : (Run.new s).tally.onAir = [] := rfl
  have clock : q.elapsedMs.toNat = 0 := (congrArg UInt64.toNat elapsed).trans zero
  rw [none, grounded] at leaves
  refine ⟨course, ?_, by rw [clock]; exact Nat.zero_le _, ?_⟩
  · rw [clock]
    rcases leaves with ⟨timeline, onAir⟩ | ⟨-, e, whose, now, timeline, ⟨blocked, onAir⟩ |
      ⟨own, start, long, onAir⟩⟩
    · rw [timeline, onAir]
      exact laid_new
    · rw [timeline, onAir]
      exact laid_new.unheard (Or.inr blocked)
    · rw [timeline, onAir]
      refine Laid.entered sized (laid_new.aired placed) ?_ (List.mem_singleton_self _) whose start
        long now ?_ fun _ => ?_
      · rintro d ⟨⟩
      · rintro d ⟨⟩
      · rcases own with same | same <;> rw [same] <;> rintro ⟨⟩
  · rcases leaves with ⟨-, onAir⟩ | ⟨-, e, -, -, -, ⟨-, onAir⟩ | ⟨-, -, -, onAir⟩⟩
    · rw [onAir]
      rintro p ⟨⟩
    · rw [onAir]
      rintro p ⟨⟩
    · rw [onAir]
      intro p mem
      rw [List.mem_singleton.mp mem]

theorem settled_rounds (sized : Sized s frames) (roomy : Roomy s) (count : Nat)
    {pending : List Nat} (later : 0 < n) (most : n + count ≤ maxRetries)
    (settled : Settled s frames n r pending) :
    ∃ m waits, Settled s frames m
      (Run.rounds C s frames manifest subject (List.range' n count) r pending) waits := by
  induction count generalizing n r pending with
  | zero => exact ⟨n, pending, settled⟩
  | succ count ih =>
    rw [List.range'_succ, Run.rounds]
    split
    · exact ⟨n, pending, settled⟩
    · have begun : beginning C s frames manifest subject r n = r := if_neg later.ne'
      have further := @Settled.round C s frames manifest subject r n sized roomy (by omega) pending
        (begun.symm ▸ settled)
      exact ih (Nat.succ_pos n) (by omega) further

theorem settled_played (sized : Sized s frames) (roomy : Roomy s) :
    ∃ m waits, Settled s frames m (played C s frames) waits := by
  unfold played
  have numbers : List.range maxRetries = 0 :: List.range' 1 4 := rfl
  rw [numbers, Run.rounds]
  split
  · refine ⟨0, awaited s, course_new, laid_new, Nat.zero_le _, ?_⟩
    rintro p ⟨⟩
  · have begun : beginning C s frames (keysOf C s.fleet) simSubject (.new s) 0 =
        (Run.new s).observerAnswers C s frames (keysOf C s.fleet) simSubject
          (Run.windowFor s frames 0) := if_pos rfl
    have answered := @settled_answers C s frames (keysOf C s.fleet) simSubject sized roomy
    rw [← begun] at answered
    have first := answered.round sized roomy (by decide)
    exact settled_rounds sized roomy 4 Nat.one_pos (Nat.le_refl _) first

/-- What can be heard of one round is over before anything of the next begins; in slots nothing
that can be heard overlaps at all, and nothing is lost to a collision. -/
theorem rounds_laid_end_to_end (C : Primitives) (aead : Aead C) (s : Scenario) (roomy : Roomy s)
    (report : Report) (ran : s.run C = some report) :
    report.timeline.Pairwise (Clear s) ∧ (s.access ≠ .random → report.collidedFrames = 0) := by
  obtain ⟨policy, frames, outcome, ran⟩ := run_ran ran
  obtain ⟨m, waits, settled⟩ := settled_played (C := C) (sized aead ran.framed) roomy
  obtain ⟨books, -⟩ := @sound_played C s frames
  rw [ran.timeline, ran.collided, books.collided]
  refine ⟨settled.laid.apart, fun slotted => ?_⟩
  rw [List.length_eq_zero_iff, entriesOf, List.filter_eq_nil_iff]
  intro e mem
  have intact := settled.laid.calm slotted e mem
  simp [intact]

theorem rounds_laid_end_to_end_patrol :
    patrolled.timeline.Pairwise (Clear patrol) ∧ patrolled.collidedFrames = 0 := by
  have laid := rounds_laid_end_to_end plain plain_aead patrol (by decide) patrolled patrol_ran
  exact ⟨laid.1, laid.2 (by decide)⟩

end ScenarioTiming
