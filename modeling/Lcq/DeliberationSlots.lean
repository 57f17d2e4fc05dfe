import Lcq.DeliberationVotes
import Lcq.ScenarioTiming

/-!
# A deliberation in slots

Where nothing is in the way and slots are counted from one instant, everybody
is heard at the first attempt in every stage, and who is counted is known before
the first frame is on the air.
-/

namespace DeliberationSlots

open ByteFormat Contracts DeliberationAccounts DeliberationNonces DeliberationVotes Deliberations
open EvaluationLaws InMemory LegalAirtime Medium ScenarioTiming Scenarios Schedule SealedFrames
open SimAdmission Transitions UniformFleets Utterances Wire

variable {C : Primitives} {d : Deliberation} {guardMs : UInt64} {stage : Stage} {clock : Clock}
  {f g : Sitting} {base : Session} {k : Nat}

/-- Slots from one instant, with room for all of them, and everybody in reach and equally loud;
nothing is lost to noise, and validity outlasts the vote. -/
structure Undisturbed (d : Deliberation) (guardMs : UInt64) : Prop where
  slotted : d.access = .slotted guardMs
  roomy : (1436 + guardMs.toNat) * d.fleet < 2 ^ 64
  together : d.anchor = .trigger ∨ d.clockSkewS = 0
  lossless : d.loss ≤ 0
  near : ∀ i, DeliberationAccounts.Speaks d i → i ≠ observer →
    d.topology.reaches i observer d.fleet = true
  level : d.geometry = none
  lasting : certainlyBefore (deliberated.startedAt.plusSecs closeAt)
    (opening d).observer.expiresAt = true

/-! ## Frames -/

/-- The width of a member's frame under a number. -/
def wide (sender number : Nat) : Nat :=
  (writeGroups 3 (authorOf sender).toNat).length + (writeGroups 10 number).length + 119

theorem wide_mono {first second : Nat} (le : first ≤ second) (number : Nat) :
    wide first number ≤ wide second number := by
  have authors := writeGroups_length_mono 3 (m := (authorOf first).toNat)
    (n := (authorOf second).toNat) (by rw [authorOf_toNat, authorOf_toNat]; omega)
  unfold wide
  omega

theorem wide_short (sender number : Nat) : (airtimeMs (wide sender number)).toNat ≤ 1436 := by
  have widest : (airtimeMs maxFrameBytes).toNat = 1436 := by
    rw [airtime_widest]
    rfl
  rw [← widest]
  refine airtimeMs_mono ?_
  have short := writeGroups_length_le 3 (authorOf sender).toNat
  have short' := writeGroups_length_le 10 number
  unfold wide maxFrameBytes
  omega

theorem frameFor_wide (aead : Aead C) {sender : Nat} {journal : MemoryJournal} {bytes : Bytes}
    (made : (Deliberations.frameFor C d sender stage journal).1 = some bytes) :
    bytes.length = wide sender journal.nextSequence.toNat := by
  have width {encoded sealed : Bytes} (written : encodeCompact ((Deliberations.envelopeOf C stage
        (verdictFor d sender) (authorOf sender) journal.nextSequence).sign C
          (seedFor (Deliberations.signerOf d sender)) deliberated.contentHash) = .ok encoded)
      (closed : sealFrame C labGroupKey (authorOf sender) journal.nextSequence encoded =
        .ok sealed) : sealed.length = wide sender journal.nextSequence.toNat := by
    have short := encodeCompact_length written
    obtain ⟨shut, closes, length, -⟩ := open_sealFrame aead labGroupKey (authorOf sender)
      journal.nextSequence (Nat.lt_of_le_of_lt short (by decide))
    rw [closes] at closed
    cases closed
    have exact := encodeCompact_size written
    rw [length, exact, frameHeaderBytes, tagBytes]
    change 10 + (1 + 1 + 1 + (writeGroups 10 deliberated.startedAt.secs.toNat).length +
      (writeGroups 3 (authorOf sender).toNat).length +
      (writeGroups 10 journal.nextSequence.toNat).length +
      (writeGroups 3 (RoundId.none).opener.toNat).length +
      (writeGroups 5 (RoundId.none).sequence.toNat).length + 83) + 16 = _
    have started : (writeGroups 10 deliberated.startedAt.secs.toNat).length = 3 := by decide
    have opener : (writeGroups 3 (RoundId.none).opener.toNat).length = 3 := rfl
    have label : (writeGroups 5 (RoundId.none).sequence.toNat).length = 1 := rfl
    unfold wide
    omega
  unfold Deliberations.frameFor at made
  simp only [MemoryJournal.reserveSequence] at made
  split at made
  · cases made
  · rename_i encoded written
    split at made
    · cases made
    · rename_i sealed closed
      split at made
      · split at made
        · cases made
        · cases made
          exact width written closed
      · cases made
        exact width written closed

/-- A frame in the slot of its sender. -/
structure Slotted (d : Deliberation) (guardMs : UInt64) (k : Nat)
    (p : Nat × Transmission × Bytes) : Prop where
  seated : DeliberationAccounts.Speaks d p.1
  wide : p.2.2.length = wide p.1 k
  long : p.2.1.airtimeMs = airtimeMs p.2.2.length
  start : p.2.1.startMs.toNat = p.1 * ((airtimeMs p.2.2.length).toNat + guardMs.toNat)
  loud : p.1 ≠ observer → p.2.1.rssiDbm = .dbm nominalRssiDbm

/-- Later slots begin when earlier ones have ended, although their frames may be longer. -/
theorem slotted_apart {p q : Nat × Transmission × Bytes} (first : Slotted d guardMs k p)
    (second : Slotted d guardMs k q) (less : p.1 < q.1) :
    p.2.1.startMs.toNat + p.2.1.airtimeMs.toNat ≤ q.2.1.startMs.toNat := by
  have rising : (airtimeMs p.2.2.length).toNat ≤ (airtimeMs q.2.2.length).toNat := by
    rw [first.wide, second.wide]
    exact airtimeMs_mono (wide_mono (Nat.le_of_lt less) k)
  have row : (p.1 + 1) * ((airtimeMs p.2.2.length).toNat + guardMs.toNat) ≤
      q.1 * ((airtimeMs q.2.2.length).toNat + guardMs.toNat) := Nat.mul_le_mul less (by omega)
  rw [Nat.succ_mul] at row
  rw [first.long, first.start, second.start]
  omega

theorem slotted_clear {p q : Nat × Transmission × Bytes} (first : Slotted d guardMs k p)
    (second : Slotted d guardMs k q) (differ : p.1 ≠ q.1) :
    p.2.1.overlaps q.2.1 = false := by
  apply overlaps_apart
  rcases Nat.lt_or_gt_of_ne differ with less | more
  · exact Or.inl (slotted_apart first second less)
  · exact Or.inr (slotted_apart second first more)

/-! ## Keying up -/

/-- Clocks are of no account where they agree. -/
theorem offsets_zero (same : d.clockSkewS = 0) (i : Nat) : clockOffsetsMs d i = 0 := by
  unfold clockOffsetsMs
  rw [if_pos (Or.inl same)]

theorem saturatingAddSigned_zero (a : UInt64) : Deliberations.saturatingAddSigned a 0 = a := by
  have small := a.toNat_lt
  have bounds : (min (max ((a.toNat : ℤ) + 0) 0).toNat (2 ^ 64 - 1)) = a.toNat := by omega
  rw [Deliberations.saturatingAddSigned, bounds]
  exact UInt64.ofNat_toNat

/-- A member has spoken in so many stages, and its vote is not locked. -/
structure Rested (k : Nat) (session : Session) (i : Nat) : Prop where
  number : (session.journals i).nextSequence.toNat = k
  spent : (session.usedAirtime i).toNat ≤ 1436 * k
  unlocked : lockOf i ∉ (session.journals i).locks

/-- What speaking in a stage leaves of that. -/
structure Spoken (stage : Stage) (k : Nat) (session : Session) (i : Nat) : Prop where
  number : (session.journals i).nextSequence.toNat = k + 1
  spent : (session.usedAirtime i).toNat ≤ 1436 * (k + 1)
  unlocked : stage ≠ .bindingSupport → lockOf i ∉ (session.journals i).locks

/-- A stage under way, nothing of which has been heard yet. -/
structure Rising (C : Primitives) (d : Deliberation) (guardMs : UInt64) (stage : Stage) (k : Nat)
    (base : Session) (f : Sitting) (done rest : List Nat) : Prop where
  senders : f.onAir.map Prod.fst = done
  slotted : ∀ p ∈ f.onAir, Slotted d guardMs k p ∧ ∃ sequence, BuiltAt C d stage p.1 sequence p.2.2
  retry : f.retry = []
  sent : f.report.framesSent = done.length
  unheard : f.report.collided = 0 ∧ f.report.lost = 0 ∧ f.report.admitted = 0 ∧
    f.report.refused = 0
  observer : f.session.observer = base.observer
  waiting : ∀ i ∈ rest, f.outbox i = none ∧ Rested k f.session i
  spoken : ∀ i ∈ done, Spoken stage k f.session i

theorem granted {used : UInt64} (spent : used.toNat ≤ 1436 * k) (early : k ≤ 2) (sender : Nat) :
    dutyCycleOk used (airtimeMs (wide sender k)) = true := by
  have short := wide_short sender k
  have budget : dutyCycleBudgetMs.toNat = 36000 := rfl
  rw [dutyCycleOk, decide_eq_true_eq, UInt64.le_iff_toNat_le, saturatingAdd_toNat, budget]
  omega

theorem startFor_slotted (calm : Undisturbed d guardMs) (window : UInt64) (sender : Nat)
    (air : UInt64) : f.startFor d (clockOffsetsMs d) 0 window sender air =
      (.ofNat sender * (air + guardMs), f) := by
  unfold Sitting.startFor
  rw [calm.slotted]
  dsimp only
  rw [UInt64.zero_add]
  rcases calm.together with anchor | same
  · rw [anchor]
  · rw [offsets_zero same, saturatingAddSigned_zero]
    split <;> rfl

/-- A member that has a frame and may send it is on the air in its slot. -/
theorem keyUp_slotted (calm : Undisturbed d guardMs) (window : UInt64) {sender : Nat}
    (speaks : DeliberationAccounts.Speaks d sender) {bytes : Bytes}
    (made : f.outgoing C d stage sender = (some bytes, g))
    (may : dutyCycleOk (g.session.usedAirtime sender) (airtimeMs bytes.length) = true)
    (width : bytes.length = wide sender k) :
    ∃ frame, f.keyUp C d stage (clockOffsetsMs d) 0 window sender =
        { g.charge sender bytes with onAir := g.onAir ++ [(sender, frame, bytes)] } ∧
      Slotted d guardMs k (sender, frame, bytes) := by
  have short := wide_short sender k
  rw [← width] at short
  have start : (UInt64.ofNat sender * (airtimeMs bytes.length + guardMs)).toNat =
      sender * ((airtimeMs bytes.length).toNat + guardMs.toNat) := by
    have roomy := calm.roomy
    have inside : sender * ((airtimeMs bytes.length).toNat + guardMs.toNat) ≤
        (1436 + guardMs.toNat) * d.fleet := by
      rw [Nat.mul_comm]
      exact Nat.mul_le_mul (by omega) (Nat.le_of_lt speaks.2)
    have least : 1436 + guardMs.toNat ≤ (1436 + guardMs.toNat) * d.fleet :=
      Nat.le_mul_of_pos_right _ d.manned
    rw [UInt64.toNat_mul, UInt64.toNat_add,
      UInt64.toNat_ofNat_of_lt' (Nat.lt_trans speaks.2 d.counted), Nat.mod_eq_of_lt (a := _ + _)
        (by omega), Nat.mod_eq_of_lt (by omega)]
  unfold Sitting.keyUp
  rw [made]
  dsimp only
  rw [if_neg (by rw [may]; exact Bool.noConfusion), startFor_slotted calm]
  by_cases own : sender = observer
  · rw [if_pos own]
    exact ⟨_, rfl, speaks, width, rfl, start, fun other => absurd own other⟩
  · have near := calm.near sender speaks own
    rw [if_neg own, if_pos near, calm.level]
    exact ⟨_, rfl, speaks, width, rfl, start, fun _ => rfl⟩

theorem Rising.keyUp (aead : Aead C) (calm : Undisturbed d guardMs) (early : k ≤ 2) {sender : Nat}
    {done rest : List Nat} (window : UInt64) (speaks : DeliberationAccounts.Speaks d sender)
    (once : (done ++ sender :: rest).Nodup)
    (rising : Rising C d guardMs stage k base f done (sender :: rest)) :
    Rising C d guardMs stage k base (f.keyUp C d stage (clockOffsetsMs d) 0 window sender)
      (done ++ [sender]) rest := by
  obtain ⟨senders, slotted, retry, sent, unheard, observed, waiting, spoken⟩ := rising
  obtain ⟨unbuilt, number, spent, unlocked⟩ := waiting sender List.mem_cons_self
  obtain ⟨bytes, made, built, next, locks⟩ := @frameFor_built C d stage aead sender
    (f.session.journals sender) (fun _ => unlocked) (by omega)
  have width := frameFor_wide aead made
  rw [number] at width next
  have readied : f.outgoing C d stage sender = (some bytes, { f with
      session := { f.session with
        journals := Function.update f.session.journals sender
          (Deliberations.frameFor C d sender stage (f.session.journals sender)).2 }
      outbox := Function.update f.outbox sender (some bytes) }) := by
    unfold Sitting.outgoing
    rw [unbuilt]
    dsimp only
    rw [made]
  have may := granted spent early sender
  rw [← width] at may
  obtain ⟨frame, keyed, placed⟩ := keyUp_slotted calm window speaks readied may width
  rw [keyed]
  have used : (f.session.usedAirtime sender + airtimeMs bytes.length).toNat ≤
      1436 * (k + 1) := by
    have short := wide_short sender k
    rw [← width] at short
    rw [UInt64.toNat_add]
    exact Nat.le_trans (Nat.mod_le _ _) (by omega)
  have others {i : Nat} (mem : i ∈ done ++ rest) : i ≠ sender := by
    rintro rfl
    exact (List.nodup_middle.mp once).notMem (by simpa using mem)
  refine ⟨?_, ?_, retry, ?_, unheard, observed, fun i mem => ?_, ?_⟩
  · rw [List.map_append, senders]
    rfl
  · rw [List.forall_mem_append]
    refine ⟨slotted, fun p mem => ?_⟩
    rw [List.mem_singleton.mp mem]
    exact ⟨placed, _, built⟩
  · rw [List.length_append, List.length_singleton, ← sent]
    rfl
  · obtain ⟨unbuilt', number', spent', unlocked'⟩ := waiting i (List.mem_cons_of_mem _ mem)
    have other := others (List.mem_append_right done mem)
    refine ⟨?_, ?_, ?_, ?_⟩ <;> dsimp only [Sitting.charge] <;> rw [Function.update_of_ne other] <;>
      assumption
  · rw [List.forall_mem_append]
    constructor
    · intro i mem
      obtain ⟨number', spent', unlocked'⟩ := spoken i mem
      have other := others (List.mem_append_left rest mem)
      refine ⟨?_, ?_, ?_⟩ <;> dsimp only [Sitting.charge] <;> rw [Function.update_of_ne other] <;>
        assumption
    · intro i mem
      rw [List.mem_singleton.mp mem]
      refine ⟨?_, ?_, fun other => ?_⟩ <;> dsimp only [Sitting.charge] <;>
        rw [Function.update_self]
      · exact next
      · exact used
      · rw [locks other]
        exact unlocked

theorem Rising.keyUps (aead : Aead C) (calm : Undisturbed d guardMs) (early : k ≤ 2)
    (window : UInt64) {done rest : List Nat}
    (speak : ∀ i ∈ rest, DeliberationAccounts.Speaks d i) (once : (done ++ rest).Nodup)
    (rising : Rising C d guardMs stage k base f done rest) :
    Rising C d guardMs stage k base (rest.foldl (fun f sender =>
      f.keyUp C d stage (clockOffsetsMs d) 0 window sender) f) (done ++ rest) [] := by
  induction rest generalizing done f with
  | nil => rwa [List.append_nil]
  | cons sender rest ih =>
    rw [List.forall_mem_cons] at speak
    have further := rising.keyUp aead calm early window speak.1 once
    rw [List.append_cons] at once ⊢
    exact ih speak.2 once further

/-! ## Being heard -/

/-- Readings that are certainly before the case expires. -/
def Timely (d : Deliberation) (clock : Clock) : Prop :=
  ∀ n, certainlyBefore (clock n) (opening d).observer.expiresAt = true

theorem not_after_before {now deadline : Timestamp} (before : certainlyBefore now deadline = true) :
    certainlyAfter now deadline = false := by
  rw [certainlyBefore, decide_eq_true_eq, UInt64.lt_iff_toNat_lt, saturatingAdd_toNat] at before
  rw [certainlyAfter, decide_eq_false_iff_not, UInt64.not_lt, UInt64.le_iff_toNat_le,
    saturatingAdd_toNat]
  have bounds := now.secs.toNat_lt
  omega

/-- The observer's case as it is in a stage, so many of which have been heard. -/
structure Ready (d : Deliberation) (stage : Stage) (case : Case) (heard : List Nat) : Prop where
  subject : case.subject = deliberated
  expires : case.expiresAt = (opening d).observer.expiresAt
  phase : case.phase = if stage = .bindingSupport then .collectingVotes else .consulting
  voted : stage = .bindingSupport → ∀ name ∈ case.voted, ∃ i ∈ heard, name = memberId i

/-- Whoever has not been heard yet in a stage is taken. -/
theorem Ready.accept {case : Case} {heard : List Nat} (timely : Timely d clock)
    (ready : Ready d stage case heard) {sender : Nat} (fits : sender < 2 ^ 64)
    (small : ∀ i ∈ heard, i < 2 ^ 64) (newcomer : sender ∉ heard) :
    ∃ after, case.accept (utterance d stage sender) clock = .ok after ∧
      Ready d stage after (heard ++ [sender]) := by
  obtain ⟨subject, expires, phase, voted⟩ := ready
  have same : (utterance d stage sender).subject = case.subject := subject.symm
  have valid : certainlyAfter (clock 0) case.expiresAt = false := by
    rw [expires]
    exact not_after_before (timely 0)
  by_cases binding : stage = .bindingSupport
  · subst binding
    rw [if_pos rfl] at phase
    have sure : case.doubtful (clock 1) (clock 2) = false := by
      rw [Case.doubtful, expires, timely 2, Bool.not_true, Bool.and_false]
    have unvoted : memberId sender ∉ case.voted := by
      intro mem
      obtain ⟨i, held, named⟩ := voted rfl _ mem
      exact newcomer (memberId_injective fits (small i held) named ▸ held)
    rw [Case.accept_binding same rfl valid phase, sure, if_neg Bool.false_ne_true]
    refine ⟨_, if_neg unvoted, subject, expires, phase, fun _ name mem => ?_⟩
    rw [OrderedMap.mem_insert_iff] at mem
    rcases mem with rfl | old
    · exact ⟨sender, by simp, rfl⟩
    · obtain ⟨i, held, named⟩ := voted rfl name old
      exact ⟨i, List.mem_append_left _ held, named⟩
  · rw [if_neg binding] at phase
    obtain ⟨after, ok⟩ : ∃ after, case.accept (utterance d stage sender) clock = .ok after := by
      unfold Case.accept
      rw [if_neg (by rw [same]; simp [Subject.sameLogicalCaseAndRevision]),
        if_neg (by rw [valid]; exact Bool.false_ne_true), phase]
      cases stage with
      | independent =>
        dsimp only [utterance]
        split <;> exact ⟨_, rfl⟩
      | consultation =>
        dsimp only [utterance]
        split <;> exact ⟨_, rfl⟩
      | bindingSupport => exact absurd rfl binding
    have still := accept_unmoved ok
    exact ⟨after, ok, still.subject.trans subject, still.expiresAt.trans expires,
      by rw [still.phase, phase, if_neg binding], fun vote => absurd vote binding⟩

/-- Those that sign for themselves. -/
def genuine (d : Deliberation) (senders : List Nat) : List Nat :=
  senders.filter fun i => decide (Genuine d i)

theorem genuine_concat (senders : List Nat) (sender : Nat) :
    (genuine d (senders ++ [sender])).length =
      (genuine d senders).length + if Genuine d sender then 1 else 0 := by
  rw [genuine, List.filter_append, List.length_append, ← genuine]
  by_cases own : Genuine d sender <;> simp [own]

/-- A stage all of whose frames so far have been heard. -/
structure Hearing (d : Deliberation) (stage : Stage) (aloft : Sitting) (f : Sitting)
    (heard : List Nat) : Prop where
  retry : f.retry = []
  sent : f.report.framesSent = aloft.report.framesSent
  lossless : f.report.collided = 0 ∧ f.report.lost = 0
  admitted : f.report.admitted = (genuine d heard).length
  journals : f.session.journals = aloft.session.journals
  used : f.session.usedAirtime = aloft.session.usedAirtime
  ready : Ready d stage f.session.observer heard

theorem simAdmit_none {bytes : Bytes} {case : Case}
    (nothing : offered C deliberated (keysOf C d.fleet) labGroupKey bytes = none) :
    simAdmit (C := C) bytes deliberated (keysOf C d.fleet) labGroupKey case clock =
      .error .differentSubject := by
  rw [admit_signed]
  rw [offered] at nothing
  rw [nothing]

theorem simAdmit_some {bytes : Bytes} {case : Case} {o : Opinion}
    (carries : offered C deliberated (keysOf C d.fleet) labGroupKey bytes = some o) :
    simAdmit (C := C) bytes deliberated (keysOf C d.fleet) labGroupKey case clock =
      case.accept o clock := by
  rw [admit_signed]
  rw [offered] at carries
  rw [carries]

theorem Hearing.offer {aloft : Sitting} {heard : List Nat} (keys : LabKeys C d.fleet)
    (timely : Timely d clock) (hearing : Hearing d stage aloft f heard)
    (small : ∀ i ∈ heard, i < 2 ^ 64) {p : Nat × Transmission × Bytes}
    (speaks : DeliberationAccounts.Speaks d p.1) {sequence : UInt64}
    (built : BuiltAt C d stage p.1 sequence p.2.2) (newcomer : p.1 ∉ heard) :
    Hearing d stage aloft (f.offer C d clock p.2.2) (heard ++ [p.1]) := by
  obtain ⟨retry, sent, lossless, admitted, journals, used, ready⟩ := hearing
  have offers := offered_built keys speaks.2 built
  have grows := genuine_concat (d := d) heard p.1
  unfold Sitting.offer
  by_cases own : Genuine d p.1
  · rw [if_pos own] at offers grows
    obtain ⟨after, ok, further⟩ := ready.accept timely (Nat.lt_trans speaks.2 d.counted) small
      newcomer
    rw [simAdmit_some offers, ok]
    exact ⟨retry, sent, lossless, by rw [grows, ← admitted], journals, used, further⟩
  · rw [if_neg own, Nat.add_zero] at grows
    rw [if_neg own] at offers
    rw [simAdmit_none offers]
    refine ⟨retry, sent, lossless, by rw [grows, ← admitted], journals, used, ready.subject,
      ready.expires, ready.phase, fun vote name mem => ?_⟩
    obtain ⟨i, held, named⟩ := ready.voted vote name mem
    exact ⟨i, List.mem_append_left _ held, named⟩

/-- A frame that nothing overlaps gets to the observer. -/
theorem deliverOne_clear (calm : Undisturbed d guardMs) {p : Nat × Transmission × Bytes}
    (slotted : Slotted d guardMs k p) {others : List Transmission}
    (clear : ∀ other ∈ others, p.2.1.overlaps other = false) :
    ∃ rng, f.deliverOne C d clock (p, others) =
      Sitting.offer C d { f with session := { f.session with rng } } clock p.2.2 := by
  unfold Sitting.deliverOne
  dsimp only
  by_cases own : p.1 = observer
  · rw [if_pos own]
    exact ⟨f.session.rng, rfl⟩
  · have level : p.2.1.rssiDbm.below sensitivityDbm = false := by
      rw [slotted.loud own]
      decide
    have decoded : receive p.2.1 others = .decoded := by
      refine judge_decoded_iff.mpr ⟨level, fun other mem interferes => ?_⟩
      exact absurd ((clear other mem).symm.trans interferes.overlaps) Bool.false_ne_true
    have kept : ¬ f.session.rng.nextUnit.1 < d.loss := by
      have positive : (0 : ℚ) ≤ f.session.rng.nextUnit.1 := by
        unfold Rng.nextUnit
        positivity
      exact not_lt.mpr (le_trans calm.lossless positive)
    rw [if_neg own, decoded]
    dsimp only
    rw [if_neg kept]
    exact ⟨f.session.rng.nextUnit.2, rfl⟩

theorem Hearing.deliver {aloft : Sitting} (keys : LabKeys C d.fleet)
    (calm : Undisturbed d guardMs) (timely : Timely d clock)
    (before onAir : List (Nat × Transmission × Bytes))
    (slotted : ∀ p ∈ before ++ onAir, Slotted d guardMs k p ∧
      ∃ sequence, BuiltAt C d stage p.1 sequence p.2.2)
    (once : ((before ++ onAir).map Prod.fst).Nodup)
    (hearing : Hearing d stage aloft f (before.map Prod.fst)) :
    Hearing d stage aloft ((eachWithOthers (fun p => p.2.1) before onAir).foldl
      (fun f one => f.deliverOne C d clock one) f) ((before ++ onAir).map Prod.fst) := by
  induction onAir generalizing before f with
  | nil => rwa [List.append_nil]
  | cons p onAir ih =>
    obtain ⟨here, sequence, built⟩ := slotted p (by simp)
    rw [eachWithOthers, List.foldl_cons]
    have apart : p.1 ∉ (before ++ onAir).map Prod.fst := by
      rw [List.map_append, List.map_cons] at once
      rw [List.map_append]
      exact (List.nodup_middle.mp once).notMem
    have clear : ∀ other ∈ before.map (fun p => p.2.1) ++ onAir.map (fun p => p.2.1),
        p.2.1.overlaps other = false := by
      intro other mem
      rw [← List.map_append, List.mem_map] at mem
      obtain ⟨q, held, rfl⟩ := mem
      obtain ⟨there, -⟩ := slotted q (by
        rcases List.mem_append.mp held with old | new
        · exact List.mem_append_left _ old
        · exact List.mem_append_right _ (List.mem_cons_of_mem _ new))
      exact slotted_clear here there fun same => apart (same ▸ List.mem_map_of_mem held)
    obtain ⟨rng, delivered⟩ := @deliverOne_clear C d guardMs clock f k calm p here _ clear
    rw [delivered]
    have moved : Hearing d stage aloft { f with session := { f.session with rng } }
        (before.map Prod.fst) :=
      ⟨hearing.retry, hearing.sent, hearing.lossless, hearing.admitted, hearing.journals,
        hearing.used, hearing.ready⟩
    have small : ∀ i ∈ before.map Prod.fst, i < 2 ^ 64 := by
      intro i mem
      obtain ⟨q, held, rfl⟩ := List.mem_map.mp mem
      obtain ⟨there, -⟩ := slotted q (List.mem_append_left _ held)
      exact Nat.lt_trans there.seated.2 d.counted
    have further := moved.offer keys timely small here.seated built fun mem =>
      apart (by rw [List.map_append]; exact List.mem_append_left _ mem)
    have shape : before ++ p :: onAir = before ++ [p] ++ onAir := by simp
    rw [shape] at slotted once ⊢
    exact ih (before ++ [p]) slotted once (by rwa [List.map_append])

/-! ## A stage -/

/-- Everybody that speaks, in the order of their slots. -/
def speakers (d : Deliberation) : List Nat := List.range' d.silent (d.fleet - d.silent)

theorem mem_speakers {i : Nat} : i ∈ speakers d ↔ DeliberationAccounts.Speaks d i := by
  unfold speakers DeliberationAccounts.Speaks
  rw [List.mem_range'_1]
  omega

theorem rounds_settled (bytes : Nat) (numbers : List Nat) (elapsed : UInt64) :
    Sitting.rounds C d stage clock (clockOffsetsMs d) bytes numbers elapsed [] f =
      (elapsed, f) := by
  cases numbers with
  | nil => rfl
  | cons number numbers => exact if_pos rfl

/-- The stage is one round in which everybody is heard. -/
theorem stage_heard (aead : Aead C) (keys : LabKeys C d.fleet) (calm : Undisturbed d guardMs)
    (timely : Timely d clock) (early : k ≤ 2)
    (rested : ∀ i, DeliberationAccounts.Speaks d i → Rested k base i)
    (ready : Ready d stage base.observer []) (bytes : Nat) :
    ∃ aloft f : Sitting, Hearing d stage aloft f (speakers d) ∧
      aloft.report.framesSent = (speakers d).length ∧
      (∀ i, DeliberationAccounts.Speaks d i → Spoken stage k f.session i) ∧
      (runStage C d bytes stage clock base).2 = f.session ∧
      (runStage C d bytes stage clock base).1 =
        { f.report with elapsedMs := (runStage C d bytes stage clock base).1.elapsedMs } := by
  let start : Sitting := ⟨base, .zero, fun _ => none, [], []⟩
  have first : Rising C d guardMs stage k base start [] (speakers d) := by
    refine ⟨rfl, by rintro p ⟨⟩, rfl, rfl, ⟨rfl, rfl, rfl, rfl⟩, rfl, fun i mem => ?_,
      by rintro i ⟨⟩⟩
    exact ⟨rfl, rested i (mem_speakers.mp mem)⟩
  have once : ([] ++ speakers d).Nodup := List.nodup_range'
  have risen := first.keyUps aead calm early (windowFor d bytes 0)
    (fun i mem => mem_speakers.mp mem) once
  rw [List.nil_append] at risen once
  generalize lifted : (speakers d).foldl (fun f sender =>
    f.keyUp C d stage (clockOffsetsMs d) 0 (windowFor d bytes 0) sender) start = aloft at risen
  have before : Hearing d stage aloft aloft [] :=
    ⟨risen.retry, rfl, ⟨risen.unheard.1, risen.unheard.2.1⟩, risen.unheard.2.2.1, rfl, rfl,
      by rw [risen.observer]; exact ready⟩
  have heard := Hearing.deliver keys calm timely [] aloft.onAir risen.slotted
    (by rw [List.nil_append, risen.senders]; exact once) before
  rw [List.nil_append, risen.senders] at heard
  have round : Sitting.round C d stage start clock (clockOffsetsMs d) 0 (windowFor d bytes 0)
      (speakers d) = (eachWithOthers (fun p => p.2.1) [] aloft.onAir).foldl
        (fun f one => f.deliverOne C d clock one) aloft := by
    rw [← lifted]
    rfl
  rw [← round] at heard
  have settled : (Sitting.rounds C d stage clock (clockOffsetsMs d) bytes
      (List.range Deliberations.maxRetries) 0 (speakers d) start).2 =
        Sitting.round C d stage start clock (clockOffsetsMs d) 0 (windowFor d bytes 0)
          (speakers d) := by
    have numbers : List.range Deliberations.maxRetries = 0 :: List.range' 1 4 := rfl
    rw [numbers, Sitting.rounds]
    by_cases nobody : speakers d = []
    · rw [if_pos nobody, nobody]
      rfl
    · rw [if_neg nobody]
      dsimp only
      rw [heard.retry, rounds_settled]
  refine ⟨aloft, _, heard, risen.sent, fun i speaks => ?_, congrArg Sitting.session settled, ?_⟩
  · obtain ⟨number, spent, unlocked⟩ := risen.spoken i (mem_speakers.mpr speaks)
    exact ⟨by rw [heard.journals]; exact number, by rw [heard.used]; exact spent,
      by rw [heard.journals]; exact unlocked⟩
  · rw [← settled]
    rfl

/-! ## The whole deliberation -/

theorem timely_late (calm : Undisturbed d guardMs) : Timely d late := fun _ => calm.lasting

theorem timely_early (calm : Undisturbed d guardMs) : Timely d early := by
  intro n
  have lasting := calm.lasting
  rw [certainlyBefore, decide_eq_true_eq, UInt64.lt_iff_toNat_lt] at lasting ⊢
  have sooner : (saturatingAdd (deliberated.startedAt.plusSecs 1).secs
      maxClockSkewSeconds).toNat ≤ (saturatingAdd (deliberated.startedAt.plusSecs closeAt).secs
        maxClockSkewSeconds).toNat := by decide
  exact Nat.lt_of_le_of_lt sooner lasting

theorem rested_opening (d : Deliberation) (i : Nat) : Rested 0 (opening d) i :=
  ⟨rfl, Nat.le_refl 0, Std.ExtTreeSet.not_mem_empty⟩

theorem Spoken.rested {session : Session} {i : Nat} (spoken : Spoken stage k session i)
    (other : stage ≠ .bindingSupport) : Rested (k + 1) session i :=
  ⟨spoken.number, spoken.spent, spoken.unlocked other⟩

theorem ready_opening (d : Deliberation) : Ready d .independent (opening d).observer [] := by
  obtain ⟨subject, phase, -⟩ := opening_case d
  exact ⟨subject, rfl, phase, by rintro ⟨⟩⟩

/-- What a stage comes to in which everybody is heard. -/
structure Whole (d : Deliberation) (report : StageReport) : Prop where
  sent : report.framesSent = d.fleet - d.silent
  collided : report.collided = 0
  lost : report.lost = 0
  admitted : report.admitted = (genuine d (speakers d)).length

theorem whole_stage {aloft : Sitting} {report : StageReport}
    (heard : Hearing d stage aloft f (speakers d))
    (sent : aloft.report.framesSent = (speakers d).length)
    (shown : report = { f.report with elapsedMs := report.elapsedMs }) : Whole d report := by
  rw [shown]
  refine ⟨?_, heard.lossless.1, heard.lossless.2, heard.admitted⟩
  rw [speakers, List.length_range'] at sent
  exact heard.sent.trans sent

theorem stages_heard (aead : Aead C) (keys : LabKeys C d.fleet) (calm : Undisturbed d guardMs)
    (bytes : Nat) :
    Whole d (runStage C d bytes .independent early (opening d)).1 ∧
      Whole d (consulted C d bytes).1 ∧ Whole d (ballot C d bytes).1 := by
  obtain ⟨aloft, f, heard, sent, spoken, session, shown⟩ := stage_heard aead keys calm
    (timely_early calm) (Nat.zero_le 2) (fun i _ => rested_opening d i) (ready_opening d) bytes
  have first := whole_stage heard sent shown
  have again : Ready d .consultation f.session.observer [] :=
    ⟨heard.ready.subject, heard.ready.expires, heard.ready.phase, by rintro ⟨⟩⟩
  obtain ⟨aloft', f', heard', sent', spoken', session', shown'⟩ := stage_heard aead keys calm
    (timely_early calm) (show 1 ≤ 2 by decide)
    (fun i speaks => (spoken i speaks).rested (by rintro ⟨⟩)) again bytes
  rw [← session] at session' shown'
  rw [← consulted] at session' shown'
  have second := whole_stage heard' sent' shown'
  have frozen := @freeze_consulted C d bytes
  have ready : Ready d .bindingSupport (freeze late (consulted C d bytes).2).observer [] := by
    have nobody := (@consulted_consulting C d bytes).voted
    rw [frozen]
    refine ⟨?_, ?_, rfl, fun _ name mem => absurd mem (nobody name)⟩
    · rw [session']
      exact heard'.ready.subject
    · rw [session']
      exact heard'.ready.expires
  have rested : ∀ i, DeliberationAccounts.Speaks d i →
      Rested 2 (freeze late (consulted C d bytes).2) i := by
    intro i speaks
    obtain ⟨number, spent, unlocked⟩ := (spoken' i speaks).rested (by rintro ⟨⟩)
    rw [frozen, session']
    exact ⟨number, spent, unlocked⟩
  obtain ⟨aloft'', f'', heard'', sent'', -, -, shown''⟩ := stage_heard aead keys calm
    (timely_late calm) (Nat.le_refl 2) rested ready bytes
  exact ⟨first, second, whole_stage heard'' sent'' shown''⟩

/-- Where nothing is in the way everybody that speaks is on the air once in each stage, nothing
collides and nothing is lost; each stage admits all that sign for themselves; and the supporters
are all of them that do not dispute. -/
theorem heard_at_once (C : Primitives) (aead : Aead C) (d : Deliberation)
    (keys : LabKeys C d.fleet) (guardMs : UInt64) (calm : Undisturbed d guardMs) :
    ∃ report, d.run C = some report ∧ Whole d report.independent ∧ Whole d report.consultation ∧
      Whole d report.binding ∧ report.bindingSupporters =
        ((genuine d (speakers d)).filter fun i => decide (verdictFor d i = .support)).length := by
  obtain ⟨report, done⟩ := @DeliberationVotes.run_total C d aead keys
  obtain ⟨policy, outcome, ran⟩ := DeliberationAccounts.run_ran done
  obtain ⟨first, second, third⟩ := stages_heard aead keys calm report.frameBytes
  obtain ⟨voters, votes, count⟩ := @votes_ballot C d aead keys report.frameBytes
  have all : voters.Perm (genuine d (speakers d)) := by
    have within : voters ⊆ genuine d (speakers d) := by
      intro i mem
      obtain ⟨speaks, own⟩ := votes.theirs i mem
      exact List.mem_filter.mpr ⟨mem_speakers.mpr speaks, decide_eq_true own⟩
    refine (List.subperm_of_subset votes.once within).perm_of_length_le ?_
    rw [← third.admitted, count]
  refine ⟨report, done, ran.independent ▸ first, ran.consultation ▸ second, ran.binding ▸ third, ?_⟩
  rw [ran.supporters, supporters_votes votes, List.length_map]
  exact (all.filter _).length_eq

/-- The council in slots. -/
def seatedCouncil : Deliberation := { council with access := .slotted 50 }

theorem seatedCouncil_calm : Undisturbed seatedCouncil 50 := by
  refine ⟨rfl, by decide, Or.inl rfl, le_refl _, fun i speaks other => ?_, rfl, by decide⟩
  exact decide_eq_true other

theorem heard_at_once_council : ∃ report, seatedCouncil.run plain = some report ∧
    report.binding.admitted = 3 ∧ report.bindingSupporters = 3 := by
  obtain ⟨report, ran, -, -, binding, supporters⟩ := heard_at_once plain plain_aead seatedCouncil
    (plain_labKeys (by decide)) 50 seatedCouncil_calm
  exact ⟨report, ran, binding.admitted.trans (by decide), supporters.trans (by decide)⟩

end DeliberationSlots
