import Lcq.NodeLoop
import Lcq.ProtocolClock

/-!
# Joining a round late

A node that missed the opening works out when the round began from a frame it
hears inside it, as if the frame's author had sent it at its first chance. How
far that is from when the round did begin depends on who sent the frame and
when, and the protocol clock of the node is as far behind.
-/

namespace LateJoining

open Admission ByteFormat Contracts NodeLoop ProtocolClock Schedule Utterances Wire

/-! ## What is put on the air in a round -/

section round

variable {C : Primitives} (station : Station C) (anchor : Nat)

/-- When a member is due to send an attempt at a stage's frame, scattered by a random delay if
it knows of a split. -/
def scatteredDue (carrier : Nat) (stage : Stage) (attempt : Nat) (jitter : UInt64) : Nat :=
  let options := seatedAt station.options carrier
  anchor + fromMillis (offset options station.fleet.size stage
    + .ofNat attempt * retryGapMs options station.fleet.size + jitter)

/-- A frame put on the air at its due instant: who sends it, whose it is and as what, how many
windows after that author's first slot for it, how far it is scattered, and when it is due. -/
inductive Airs : (carrier author : Nat) → (stage : UInt8) → (behind : Nat) →
    (jitter : UInt64) → (due : Nat) → Prop where
  | attempt (member : Nat) (stage : Stage) (attempt : Nat) (few : attempt < allowed station stage)
      (jitter : UInt64) (within : jitter < retryGapMs station.options station.fleet.size)
      (first : attempt = 0 → jitter = 0) :
      Airs member member (stageCode stage) attempt jitter
        (scatteredDue station anchor member stage attempt jitter)
  | request (member round : Nat) (few : round < repairRounds.toNat) :
      Airs member member nackStage (max station.options.attempts 1 + 2 * round) 0
        (requestDue (seatedAt station.options member) station.fleet.size anchor round)
  /-- One's own vote or another member's. -/
  | resend (carrier author round : Nat) (few : round < repairRounds.toNat) :
      Airs carrier author (stageCode .bindingSupport)
        (max station.options.attempts 1 + 2 * round + 1) 0
        (resendDue (seatedAt station.options carrier) station.fleet.size anchor round)

/-- Two instants are some number of windows apart. -/
def WindowsApart (first second : Int) : Prop :=
  ∃ k : Int, first = second + k * windowWall station.options station.fleet.size

/-- A node that takes the round to have begun at an instant sends in its own slots of the
round, and in nobody else's. -/
structure OnItsSlots (origin : Nat) : Prop where
  windows : WindowsApart station origin anchor
  slots : ∀ member < station.fleet.size, ∀ t : Planned, t.Provided station.options →
    (WindowsApart station (t.due station.options station.fleet.size origin)
      (begins station.options station.fleet.size anchor member t) ↔ member = station.options.index)

end round

variable {C : Primitives} {station : Station C} {anchor : Nat}

/-- A loop that has spent an attempt is due to send the next one scattered by the delay. -/
theorem dueAt_spent (d : Deliberation) (stage : Stage) (jitter : UInt64) :
    (d.spent station anchor stage jitter).dueAt station anchor stage =
      scatteredDue station anchor station.options.index stage (d.attempts stage + 1) jitter := by
  simp [Deliberation.dueAt, Deliberation.spent, scatteredDue, seatedAt]

theorem few_attempts (fits : Fits station.options station.fleet.size) {stage : Stage}
    {attempt : Nat} (few : attempt < allowed station stage) : attempt ≤ 226 := by
  obtain ⟨-, attempts, -⟩ := fits.small
  unfold allowed at few
  split at few <;> omega

theorem scatteredDue_exact (fits : Fits station.options station.fleet.size) {carrier : Nat}
    (seated : carrier < station.fleet.size) (stage : Stage) {attempt : Nat}
    (few : attempt < allowed station stage) {jitter : UInt64}
    (within : jitter < retryGapMs station.options station.fleet.size) :
    scatteredDue station anchor carrier stage attempt jitter =
      anchor + ((starts station.options station.fleet.size stage).toNat * 1000
        + exactSlot station.options * carrier
        + attempt * (exactWindow station.options station.fleet.size * 1000)
        + jitter.toNat) * 1000000 := by
  have there := fits.elsewhere seated
  obtain ⟨window, -, area, row⟩ := there.small
  have early := starts_le there stage
  have due := attemptDue_exact there anchor stage (few_attempts fits few)
  have gaps := Nat.mul_le_mul (few_attempts fits few) (Nat.mul_le_mul_right 1000 window)
  have delay : jitter.toNat < exactWindow station.options station.fleet.size * 1000 := by
    rwa [UInt64.lt_iff_toNat_lt, retryGap_exact fits] at within
  simp only [attemptDue, fromMillis] at due
  rw [scatteredDue, fromMillis, UInt64.toNat_add]
  change exactWindow station.options station.fleet.size ≤ 33 at window
  change exactSlot station.options * station.fleet.size ≤ 31000 at area
  change exactSlot station.options * carrier + exactSlot station.options ≤
    exactSlot station.options * station.fleet.size at row
  change (starts station.options station.fleet.size stage).toNat ≤ 363 at early
  change attempt * (exactWindow station.options station.fleet.size * 1000) ≤ _ at gaps
  change _ = anchor + ((starts station.options station.fleet.size stage).toNat * 1000
    + exactSlot station.options * carrier
    + attempt * (exactWindow station.options station.fleet.size * 1000)) * 1000000 at due
  rw [Nat.mod_eq_of_lt (by omega)]
  omega

/-- A frame is due in the carrier's slot of the window that many windows after the first one its
stage has. -/
theorem Airs.due_exact (fits : Fits station.options station.fleet.size)
    {carrier author behind due : Nat} {stage : UInt8} {jitter : UInt64}
    (seated : carrier < station.fleet.size)
    (airs : Airs station anchor carrier author stage behind jitter due) :
    ∃ slotted, slottedStage stage = some slotted ∧
      due = anchor + ((starts station.options station.fleet.size slotted).toNat * 1000
        + exactSlot station.options * carrier
        + behind * (exactWindow station.options station.fleet.size * 1000)
        + jitter.toNat) * 1000000 := by
  have there := fits.elsewhere seated
  have binding : (starts station.options station.fleet.size .bindingSupport).toNat = 363 := rfl
  cases airs with
  | attempt slotted _ few _ within first =>
    refine ⟨slotted, by cases slotted <;> rfl, scatteredDue_exact fits seated slotted few within⟩
  | request round few =>
    refine ⟨.bindingSupport, rfl, ?_⟩
    have due := Schedule.due_exact there anchor (t := .request round) few
    have place : 2 + max station.options.attempts 1 + 2 * round =
        max station.options.attempts 1 + 2 * round + 2 := by omega
    change requestDue _ _ _ _ = anchor + (windowOpens station.options station.fleet.size
      (2 + max station.options.attempts 1 + 2 * round) * 1000
        + exactSlot station.options * carrier) * 1000000 at due
    rw [due, place, windowOpens, binding, UInt64.toNat_zero]
    ring
  | resend author round few =>
    refine ⟨.bindingSupport, rfl, ?_⟩
    have due := Schedule.due_exact there anchor (t := .resend round) few
    have place : 2 + max station.options.attempts 1 + 2 * round + 1 =
        max station.options.attempts 1 + 2 * round + 1 + 2 := by omega
    change resendDue _ _ _ _ = anchor + (windowOpens station.options station.fleet.size
      (2 + max station.options.attempts 1 + 2 * round + 1) * 1000
        + exactSlot station.options * carrier) * 1000000 at due
    rw [due, place, windowOpens, binding, UInt64.toNat_zero]
    ring

/-! ## What is worked out from it -/

/-- An anchor is worked out from the frame's author and stage alone. -/
theorem lateAnchor_origin {frame : Bytes} {envelope : CompactEnvelope} {now : Nat}
    {late : LateAnchor} (genuine : Genuine station frame envelope)
    (anchored : lateAnchor station frame now = some late) :
    late.round = envelope.round ∧ ∃ stage, slottedStage envelope.stage = some stage ∧
      checkedSub now (travel station stage envelope.authorIndex.toNat frame) =
        some late.origin := by
  obtain ⟨plain, signature, opened, decoded, -, -⟩ := genuine_iff.mp genuine
  unfold lateAnchor at anchored
  split at anchored
  · cases anchored
  · rw [opened] at anchored
    dsimp only at anchored
    rw [decoded] at anchored
    dsimp only at anchored
    split at anchored
    · cases anchored
    · rename_i stage slotted
      split at anchored
      · cases anchored
      · split at anchored
        · cases anchored
        · rename_i origin left
          cases anchored
          exact ⟨rfl, stage, slotted, left⟩

theorem airtimeMs_lt (length : Nat) : (airtimeMs length).toNat < 2 ^ 32 := by
  have most : airtimeMsAt defaultSpreadingFactor length ≤ 4294967295 := min_le_right _ _
  rw [airtimeMs, UInt64.toNat_ofNat_of_lt' (Nat.lt_of_le_of_lt most (by decide))]
  omega

theorem travel_exact (fits : Fits station.options station.fleet.size) {author : Nat}
    (seated : author < station.fleet.size) (stage : Stage) (frame : Bytes) :
    travel station stage author frame =
      ((starts station.options station.fleet.size stage).toNat * 1000
        + exactSlot station.options * author + (airtimeMs frame.length).toNat) * 1000000 := by
  have there := fits.elsewhere seated
  obtain ⟨-, -, area, row⟩ := there.small
  have early := starts_le there stage
  have place := ownSlot_exact there
  have thousand : (1000 : UInt64).toNat = 1000 := rfl
  have air := airtimeMs_lt frame.length
  change (slotMs station.options * .ofNat author).toNat = exactSlot station.options * author at place
  change exactSlot station.options * station.fleet.size ≤ 31000 at area
  change exactSlot station.options * author + exactSlot station.options ≤
    exactSlot station.options * station.fleet.size at row
  change (starts station.options station.fleet.size stage).toNat ≤ 363 at early
  rw [travel, fromMillis, wallMs_exact fits, UInt64.toNat_add, UInt64.toNat_add, place,
    UInt64.toNat_mul, thousand, Nat.mod_eq_of_lt (a := _ * 1000) (by omega),
    Nat.mod_eq_of_lt (a := _ * 1000 + _) (by omega), Nat.mod_eq_of_lt (by omega), Nat.mul_comm]

/-- From when the round began to when it is taken to have begun: whole windows, the slots
between carrier and author, the random delay, and how late the frame was sent. -/
theorem origin_exact (fits : Fits station.options station.fleet.size)
    {carrier behind due start : Nat} {jitter : UInt64} {frame : Bytes} {envelope : CompactEnvelope}
    {late : LateAnchor} (seated : carrier < station.fleet.size)
    (genuine : Genuine station frame envelope)
    (airs : Airs station anchor carrier envelope.authorIndex.toNat envelope.stage behind jitter due)
    (anchored : lateAnchor station frame
      (start + fromMillis (wallMs station.options (airtimeMs frame.length))) = some late) :
    (late.origin : Int) = anchor + behind * windowWall station.options station.fleet.size
      + (exactSlot station.options * ((carrier : Int) - envelope.authorIndex.toNat)
        + jitter.toNat) * 1000000 + ((start : Int) - due) := by
  obtain ⟨slotted, asked, planned⟩ := airs.due_exact fits seated
  obtain ⟨-, stage, same, left⟩ := lateAnchor_origin genuine anchored
  obtain rfl : slotted = stage := Option.some.inj (asked.symm.trans same)
  rw [checkedSub, travel_exact fits genuine.author_lt] at left
  split at left
  · rename_i reached
    rw [Option.some.injEq] at left
    rw [fromMillis, wallMs_exact fits] at reached left
    rw [windowWall_exact fits]
    push_cast
    have spread : (exactSlot station.options : Int) * ((carrier : Int) - envelope.authorIndex.toNat) =
        (exactSlot station.options * carrier : Nat) -
          (exactSlot station.options * envelope.authorIndex.toNat : Nat) := by
      push_cast
      ring
    have windows : (behind : Int) * (exactWindow station.options station.fleet.size * 1000 * 1000000) =
        (behind * (exactWindow station.options station.fleet.size * 1000) : Nat) * 1000000 := by
      push_cast
      ring
    rw [spread, windows]
    omega
  · cases left

/-! ## Whose slots it sends in -/

/-- Less than a window is no number of windows unless it is nothing. -/
theorem windows_none (fits : Fits station.options station.fleet.size) {x : Int}
    (above : -(exactWindow station.options station.fleet.size * 1000 : Int) < x)
    (below : x < exactWindow station.options station.fleet.size * 1000) :
    (∃ k : Int, x * 1000000 = k * windowWall station.options station.fleet.size) ↔ x = 0 := by
  constructor
  · rintro ⟨k, same⟩
    have whole : x = k * (exactWindow station.options station.fleet.size * 1000) := by
      rw [windowWall_exact fits] at same
      push_cast at same
      linarith
    refine Int.eq_zero_of_abs_lt_dvd (m := exactWindow station.options station.fleet.size * 1000) ?_ ?_
    · exact ⟨k, whole.trans (Int.mul_comm _ _)⟩
    · exact abs_lt.mpr ⟨above, below⟩
  · rintro rfl
    exact ⟨0, by simp⟩

/-- Slots of two members are less than a window apart. -/
theorem slots_within (fits : Fits station.options station.fleet.size) {i j : Nat}
    (seated : i < station.fleet.size) (seated' : j < station.fleet.size) :
    -(exactWindow station.options station.fleet.size * 1000 : Int) <
        exactSlot station.options * ((i : Int) - j) ∧
      exactSlot station.options * ((i : Int) - j) <
        exactWindow station.options station.fleet.size * 1000 := by
  have row := (fits.elsewhere seated).small.2.2.2
  have row' := (fits.elsewhere seated').small.2.2.2
  change exactSlot station.options * i + exactSlot station.options ≤
    exactSlot station.options * station.fleet.size at row
  change exactSlot station.options * j + exactSlot station.options ≤
    exactSlot station.options * station.fleet.size at row'
  have window : exactWindow station.options station.fleet.size =
    (exactSlot station.options * station.fleet.size + 999) / 1000 + 2 := rfl
  have spread : (exactSlot station.options : Int) * ((i : Int) - j) =
      (exactSlot station.options * i : Nat) - (exactSlot station.options * j : Nat) := by
    push_cast
    ring
  rw [spread]
  omega

theorem slots_same {i j : Nat} (same : (exactSlot station.options : Int) * ((i : Int) - j) = 0) :
    i = j := by
  have wide : exactSlot station.options = 1436 + station.options.guardMs.toNat := exactSlot_eq
  rcases Int.mul_eq_zero.mp same with none_ | none_ <;> omega

/-- Only another member's vote is sent in a slot that is not its author's, and only one's own
attempts are scattered. -/
theorem Airs.own {carrier author behind due : Nat} {stage : UInt8} {jitter : UInt64}
    (airs : Airs station anchor carrier author stage behind jitter due) :
    (author = carrier ∧ jitter < retryGapMs station.options station.fleet.size) ∨ jitter = 0 := by
  cases airs with
  | attempt slotted _ few _ within first => exact Or.inl ⟨rfl, within⟩
  | request round few => exact Or.inr rfl
  | resend author round few => exact Or.inr rfl

theorem onItsSlots_of_windows (fits : Fits station.options station.fleet.size) {origin : Nat}
    (windows : WindowsApart station origin anchor) : OnItsSlots station anchor origin := by
  refine ⟨windows, fun member seated t provided => ?_⟩
  obtain ⟨k, apart⟩ := windows
  have own := due_exact fits origin provided
  have theirs : begins station.options station.fleet.size anchor member t = anchor +
      (opens station.options station.fleet.size t * 1000 + exactSlot station.options * member)
        * 1000000 := begins_exact fits seated provided
  obtain ⟨above, below⟩ := slots_within fits fits.seated seated
  have between : (t.due station.options station.fleet.size origin : Int) =
      begins station.options station.fleet.size anchor member t
        + (exactSlot station.options * ((station.options.index : Int) - member)) * 1000000
        + k * windowWall station.options station.fleet.size := by
    rw [own, theirs]
    push_cast
    linarith
  have moved : WindowsApart station (t.due station.options station.fleet.size origin)
      (begins station.options station.fleet.size anchor member t) ↔ ∃ l : Int,
        (exactSlot station.options * ((station.options.index : Int) - member)) * 1000000 =
          l * windowWall station.options station.fleet.size := by
    rw [WindowsApart, between]
    constructor
    · rintro ⟨l, same⟩
      exact ⟨l - k, by linarith⟩
    · rintro ⟨l, same⟩
      exact ⟨l + k, by linarith⟩
  rw [moved, windows_none fits above below]
  constructor
  · exact fun same => (slots_same same).symm
  · rintro rfl
    simp

/-- A node that joins on a frame put on the air at its due instant sends in its own slots of
the round and in nobody else's, exactly if the frame was sent by its author and not scattered. -/
theorem joins_on_its_slots (station : Station C) (slots : station.options.slots = true)
    (scale : station.options.scale = 1)
    (finish : exactFinish station.options station.fleet.size ≤ endorsementTargetSeconds.toNat)
    (anchor carrier behind due : Nat) (jitter : UInt64) (frame : Bytes)
    (envelope : CompactEnvelope) (late : LateAnchor) (seated : carrier < station.fleet.size)
    (genuine : Genuine station frame envelope)
    (airs : Airs station anchor carrier envelope.authorIndex.toNat envelope.stage behind jitter due)
    (anchored : lateAnchor station frame
      (due + fromMillis (wallMs station.options (airtimeMs frame.length))) = some late) :
    OnItsSlots station anchor late.origin ↔
      envelope.authorIndex.toNat = carrier ∧ jitter = 0 := by
  have fits : Fits station.options station.fleet.size := ⟨slots, scale, station.seated, finish⟩
  have origin := origin_exact fits seated genuine airs anchored
  have moved : WindowsApart station late.origin anchor ↔ ∃ l : Int,
      (exactSlot station.options * ((carrier : Int) - envelope.authorIndex.toNat) + jitter.toNat)
        * 1000000 = l * windowWall station.options station.fleet.size := by
    rw [WindowsApart, origin]
    constructor
    · rintro ⟨l, same⟩
      exact ⟨l - behind, by linarith⟩
    · rintro ⟨l, same⟩
      exact ⟨l + behind, by linarith⟩
  have exactly : WindowsApart station late.origin anchor ↔
      envelope.authorIndex.toNat = carrier ∧ jitter = 0 := by
    rw [moved]
    rcases airs.own with ⟨own, within⟩ | unscattered
    · rw [UInt64.lt_iff_toNat_lt, retryGap_exact fits] at within
      rw [own, Int.sub_self, Int.mul_zero, Int.zero_add, windows_none fits (by omega) (by omega)]
      rw [← UInt64.toNat_inj, UInt64.toNat_zero]
      omega
    · obtain ⟨above, below⟩ := slots_within fits seated genuine.author_lt
      rw [unscattered, UInt64.toNat_zero, Int.natCast_zero, Int.add_zero,
        windows_none fits above below]
      constructor
      · exact fun same => ⟨(slots_same same).symm, rfl⟩
      · rintro ⟨own, -⟩
        simp [own]
  rw [← exactly]
  exact ⟨OnItsSlots.windows, onItsSlots_of_windows fits⟩

/-- When the first member of a crew has heard a frame that began at an instant. -/
def heardBy (start : Nat) (frame : Bytes) : Nat :=
  start + fromMillis (wallMs stationed.options (airtimeMs frame.length))

theorem stationed_finish :
    exactFinish stationed.options stationed.fleet.size ≤ endorsementTargetSeconds.toNat := by
  decide +kernel

/-- What a frame says, and what is worked out from it, at the first member of a crew. -/
theorem heard_cases {frame : Bytes} {now origin author : Nat} {stage : UInt8}
    (reading : (verified stationed frame).map (fun e => (e.stage, e.authorIndex.toNat)) =
      some (stage, author))
    (anchoring : (lateAnchor stationed frame now).map LateAnchor.origin = some origin) :
    ∃ envelope late, Genuine stationed frame envelope ∧ envelope.stage = stage ∧
      envelope.authorIndex.toNat = author ∧ lateAnchor stationed frame now = some late ∧
      late.origin = origin := by
  obtain ⟨envelope, found, same⟩ := Option.map_eq_some_iff.mp reading
  obtain ⟨late, anchored, place⟩ := Option.map_eq_some_iff.mp anchoring
  simp only [Prod.mk.injEq] at same
  exact ⟨envelope, late, verified_eq_some.mp found, same.1, same.2, anchored, place⟩

/-- The second attempt of the second member's vote. -/
def votedAgain : Bytes := voiced 1 3 1 9 ⟨0, 1⟩

theorem joins_on_its_slots_again :
    ∃ late, lateAnchor stationed votedAgain
        (heardBy (scatteredDue stationed 0 1 .bindingSupport 1 0) votedAgain) = some late ∧
      OnItsSlots stationed 0 late.origin := by
  obtain ⟨envelope, late, genuine, stage, author, anchored, -⟩ :=
    @heard_cases votedAgain (heardBy (scatteredDue stationed 0 1 .bindingSupport 1 0) votedAgain)
      7000000000 1 3 (by decide +kernel) (by decide +kernel)
  have airs : Airs stationed 0 1 envelope.authorIndex.toNat envelope.stage 1 0
      (scatteredDue stationed 0 1 .bindingSupport 1 0) := by
    rw [author, stage]
    exact .attempt 1 .bindingSupport 1 (by decide) 0 (by decide +kernel) nofun
  refine ⟨late, anchored, ?_⟩
  exact (joins_on_its_slots stationed rfl rfl stationed_finish 0 1 1 _ 0 votedAgain envelope late
    (by decide) genuine airs anchored).mpr ⟨author, rfl⟩

/-- The third member's vote. -/
def carriedVote : Bytes := voiced 2 3 1 9 ⟨0, 1⟩

/-- Carried by the second member in its slot of the first resend window, it gives the round a
beginning that is no number of windows away. -/
theorem joins_off_its_slots :
    ∃ envelope late, Genuine stationed carriedVote envelope ∧
      Airs stationed 0 1 envelope.authorIndex.toNat envelope.stage 4 0
        (resendDue (seatedAt stationed.options 1) stationed.fleet.size 0 0) ∧
      lateAnchor stationed carriedVote
        (heardBy (resendDue (seatedAt stationed.options 1) stationed.fleet.size 0 0) carriedVote) =
          some late ∧
      ¬ OnItsSlots stationed 0 late.origin := by
  obtain ⟨envelope, late, genuine, stage, author, anchored, origin⟩ :=
    @heard_cases carriedVote
      (heardBy (resendDue (seatedAt stationed.options 1) stationed.fleet.size 0 0) carriedVote)
      26364000000 2 3 (by decide +kernel) (by decide +kernel)
  refine ⟨envelope, late, genuine, ?_, anchored, ?_⟩
  · rw [author, stage]
    exact .resend 1 2 0 (by decide)
  · rintro ⟨⟨k, apart⟩, -⟩
    have window : windowWall stationed.options stationed.fleet.size = 7000000000 := by
      decide +kernel
    rw [origin, window] at apart
    omega

/-! ## How far behind its clock is -/

theorem travel_lt (fits : Fits station.options station.fleet.size) {author : Nat}
    (seated : author < station.fleet.size) (stage : Stage) (frame : Bytes) :
    travel station stage author frame < 2 ^ 60 := by
  have there := fits.elsewhere seated
  obtain ⟨-, -, area, row⟩ := there.small
  have early : (starts station.options station.fleet.size stage).toNat ≤ 363 := starts_le there stage
  have place : exactSlot station.options * author + exactSlot station.options ≤ 31000 :=
    row.trans area
  have air := airtimeMs_lt frame.length
  rw [travel_exact fits seated]
  omega

/-- A node that joins on a frame its author sent in its own slot runs a clock that stays within
the skew of the clock of a member that heard the opening, exactly if no more than that lies
between the author's first chance to send such a frame and when it did send it; or if the clock
is about to stand still. -/
theorem clocks_within_skew (station : Station C) (slots : station.options.slots = true)
    (scale : station.options.scale = 1)
    (finish : exactFinish station.options station.fleet.size ≤ endorsementTargetSeconds.toNat)
    (epoch : Timestamp) (anchor behind due start : Nat) (frame : Bytes)
    (envelope : CompactEnvelope) (stage : Stage) (late : LateAnchor)
    (genuine : Genuine station frame envelope) (slotted : slottedStage envelope.stage = some stage)
    (airs : Airs station anchor envelope.authorIndex.toNat envelope.authorIndex.toNat
      envelope.stage behind 0 due)
    (reached : due ≤ start)
    (anchored : lateAnchor station frame
      (start + fromMillis (wallMs station.options (airtimeMs frame.length))) = some late) :
    let joined := start + fromMillis (wallMs station.options (airtimeMs frame.length))
    (∀ instant, joined ≤ instant → WithinSkew
        ((ScaledClock.anchoredAt anchor epoch station.options.scale 0).now instant)
        ((ScaledClock.anchoredAt late.origin epoch station.options.scale 0).now instant)) ↔
      behind * windowWall station.options station.fleet.size + (start - due) ≤
          maxClockSkewSeconds.toNat * 1000000000 ∨
        2 ^ 64 ≤ epoch.secs.toNat
          + travel station stage envelope.authorIndex.toNat frame / 1000000000
          + maxClockSkewSeconds.toNat + 1 := by
  intro joined
  have fits : Fits station.options station.fleet.size := ⟨slots, scale, station.seated, finish⟩
  have origin := origin_exact fits genuine.author_lt genuine airs anchored
  rw [Int.sub_self, Int.mul_zero, UInt64.toNat_zero, Int.natCast_zero] at origin
  have place : late.origin =
      anchor + (behind * windowWall station.options station.fleet.size + (start - due)) := by
    zify [reached]
    linarith
  obtain ⟨-, other, same, left⟩ := lateAnchor_origin genuine anchored
  obtain rfl : other = stage := Option.some.inj (same.symm.trans slotted)
  rw [checkedSub] at left
  split at left
  · rename_i passed
    rw [Option.some.injEq] at left
    have between : joined - late.origin = travel station other envelope.authorIndex.toNat frame := by
      omega
    have within := travel_lt fits genuine.author_lt other frame
    rw [scale, withinSkew_iff epoch (place ▸ Nat.le_add_right _ _) (by omega) (by omega), between,
      place, Nat.add_le_add_iff_left]
  · cases left

theorem clocks_within_skew_again :
    ∃ late, lateAnchor stationed votedAgain
        (heardBy (scatteredDue stationed 0 1 .bindingSupport 1 0) votedAgain) = some late ∧
      ∀ instant, heardBy (scatteredDue stationed 0 1 .bindingSupport 1 0) votedAgain ≤ instant →
        WithinSkew ((ScaledClock.anchoredAt 0 ⟨1000⟩ stationed.options.scale 0).now instant)
          ((ScaledClock.anchoredAt late.origin ⟨1000⟩ stationed.options.scale 0).now instant) := by
  obtain ⟨envelope, late, genuine, stage, author, anchored, -⟩ :=
    @heard_cases votedAgain (heardBy (scatteredDue stationed 0 1 .bindingSupport 1 0) votedAgain)
      7000000000 1 3 (by decide +kernel) (by decide +kernel)
  have airs : Airs stationed 0 envelope.authorIndex.toNat envelope.authorIndex.toNat
      envelope.stage 1 0 (scatteredDue stationed 0 1 .bindingSupport 1 0) := by
    rw [author, stage]
    exact .attempt 1 .bindingSupport 1 (by decide) 0 (by decide +kernel) nofun
  refine ⟨late, anchored, ?_⟩
  exact (clocks_within_skew stationed rfl rfl stationed_finish ⟨1000⟩ 0 1 _ _ votedAgain envelope
    .bindingSupport late genuine (by rw [stage]; rfl) airs (Nat.le_refl _) anchored).mpr
      (Or.inl (by decide +kernel))

/-- The second member's repair request. -/
def repairRequest : Bytes := voiced 1 4 0 9 ⟨0, 1⟩

/-- Sent in its own slot of the second round of repair, it leaves the clock 35 s behind. -/
theorem clocks_apart :
    ∃ envelope late, Genuine stationed repairRequest envelope ∧
      Airs stationed 0 envelope.authorIndex.toNat envelope.authorIndex.toNat envelope.stage 5 0
        (requestDue (seatedAt stationed.options 1) stationed.fleet.size 0 1) ∧
      lateAnchor stationed repairRequest
        (heardBy (requestDue (seatedAt stationed.options 1) stationed.fleet.size 0 1)
          repairRequest) = some late ∧
      ∃ instant, heardBy (requestDue (seatedAt stationed.options 1) stationed.fleet.size 0 1)
          repairRequest ≤ instant ∧
        ¬ WithinSkew ((ScaledClock.anchoredAt 0 ⟨1000⟩ stationed.options.scale 0).now instant)
          ((ScaledClock.anchoredAt late.origin ⟨1000⟩ stationed.options.scale 0).now instant) := by
  obtain ⟨envelope, late, genuine, stage, author, anchored, origin⟩ :=
    @heard_cases repairRequest
      (heardBy (requestDue (seatedAt stationed.options 1) stationed.fleet.size 0 1) repairRequest)
      35000000000 1 4 (by decide +kernel) (by decide +kernel)
  refine ⟨envelope, late, genuine, ?_, anchored, _, Nat.le_refl _, ?_⟩
  · rw [author, stage]
    exact .request 1 1 (by decide)
  · rw [origin]
    rintro ⟨ahead, -⟩
    exact absurd ahead (by decide +kernel)

end LateJoining
