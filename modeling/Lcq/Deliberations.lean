import Lcq.InMemory
import Lcq.UniformFleets

/-!
# A whole deliberation in the laboratory

The fleet consults, freezes and votes, each member with a journal and a key of
its own and the observer with a case. A frame is built once in a stage and the
same bytes go out on every attempt. What has been on the air is kept as history,
which the program has no use for.
-/

namespace Deliberations

open ByteFormat Contracts InMemory JournalState LegalAirtime Medium Scenarios Schedule SimAdmission
open Transitions Utterances Wire

/-! ## Refusals -/

/-- How many times the case said no, and why. -/
structure TransitionErrorCount where
  differentSubject : Nat
  wrongStageForPhase : Nat
  consultationClosed : Nat
  cutoffNotReached : Nat
  expired : Nat
  timeUncertain : Nat
  alreadyVoted : Nat
  deriving DecidableEq

namespace TransitionErrorCount

def zero : TransitionErrorCount := ⟨0, 0, 0, 0, 0, 0, 0⟩

variable (count : TransitionErrorCount)

def record : TransitionError → TransitionErrorCount
  | .differentSubject => { count with differentSubject := count.differentSubject + 1 }
  | .wrongStageForPhase => { count with wrongStageForPhase := count.wrongStageForPhase + 1 }
  | .consultationClosed => { count with consultationClosed := count.consultationClosed + 1 }
  | .cutoffNotReached => { count with cutoffNotReached := count.cutoffNotReached + 1 }
  | .expired => { count with expired := count.expired + 1 }
  | .timeUncertain => { count with timeUncertain := count.timeUncertain + 1 }
  | .alreadyVoted => { count with alreadyVoted := count.alreadyVoted + 1 }

def total : Nat :=
  count.differentSubject + count.wrongStageForPhase + count.consultationClosed +
    count.cutoffNotReached + count.expired + count.timeUncertain + count.alreadyVoted

theorem total_record (error : TransitionError) :
    (count.record error).total = count.total + 1 := by
  cases error <;> simp only [record, total] <;> omega

end TransitionErrorCount

/-! ## A deliberation -/

/-- Where a slot schedule counts from. -/
inductive SlotAnchor where
  | trigger
  | clock
  deriving DecidableEq

/-- A fleet that deliberates one claim. -/
structure Deliberation where
  fleet : Nat
  loss : ℚ
  seed : UInt64
  topology : Topology
  silent : Nat
  geometry : Option Geometry
  access : Access
  anchor : SlotAnchor
  clockSkewS : UInt64
  disputers : Nat
  forgers : Nat
  validityS : Option UInt64
  manned : 1 ≤ fleet
  counted : fleet < 2 ^ 64

/-- What one stage cost. -/
structure StageReport where
  framesSent : Nat
  collided : Nat
  lost : Nat
  admitted : Nat
  refused : Nat
  airtimeMs : UInt64
  elapsedMs : UInt64
  deriving DecidableEq

def StageReport.zero : StageReport := ⟨0, 0, 0, 0, 0, 0, 0⟩

structure Report where
  endorsed : Bool
  bindingSupporters : Nat
  minSigners : UInt64
  independent : StageReport
  consultation : StageReport
  binding : StageReport
  elapsedS : UInt64
  radioMs : UInt64
  airtimeMs : UInt64
  frameBytes : Nat
  refusals : TransitionErrorCount

def maxRetries : Nat := 5

/-- An unsigned number moved by a signed one, kept within bounds. -/
def saturatingAddSigned (a : UInt64) (b : ℤ) : UInt64 :=
  .ofNat (min (max (a.toNat + b) 0).toNat (2 ^ 64 - 1))

def verdictCode : Verdict → UInt8
  | .support => 1
  | .dispute => 2
  | .insufficientData => 3

def deliberated : Subject where
  mission := "mission"
  event := "evt-1"
  revision := 0
  contentHash := ⟨List.replicate 32 0x22, by decide⟩
  startedAt := ⟨1000000⟩
  named := by decide

/-- So many draws below a bound. -/
def draws (bound : UInt64) : Nat → Rng → List UInt64
  | 0, _ => []
  | count + 1, rng => (rng.below bound).1 :: draws bound count (rng.below bound).2

section configuration

variable (C : Primitives) (d : Deliberation)

/-- Each member's clock error in milliseconds; the first and the last differ by all there is. -/
def clockOffsetsMs : Nat → ℤ :=
  if d.clockSkewS = 0 ∨ d.fleet < 2 then fun _ => 0
  else
    let span := min (d.clockSkewS * 1000).toNat (2 ^ 63 - 1)
    let drawn := draws (.ofNat span + 1) d.fleet (.new (d.seed ^^^ 0xC10CC10CC10CC10C))
    fun i =>
      if i = 0 then (-(span : ℤ)).tdiv 2
      else if i = d.fleet - 1 then (span : ℤ).tdiv 2
      else ((drawn.getD i 0).toNat : ℤ) - (span : ℤ).tdiv 2

/-- Disputers come after the silent members. -/
def verdictFor (sender : Nat) : Verdict :=
  if d.silent ≤ sender ∧ sender < d.silent + d.disputers then .dispute else .support

/-- Forgers come after the disputers. -/
def isForger (sender : Nat) : Bool :=
  decide (d.silent + d.disputers ≤ sender ∧ sender < d.silent + d.disputers + d.forgers)

/-- A forger signs with the key of the member after it. -/
def signerOf (sender : Nat) : Nat :=
  if isForger d sender = true then (sender + 1) % d.fleet else sender

def envelopeOf (stage : Stage) (verdict : Verdict) (author : UInt16) (sequence : UInt64) :
    CompactEnvelope :=
  .new C 1 1 0 deliberated.contentHash deliberated.startedAt.secs author (stageCode stage)
    (verdictCode verdict) sequence

/-- On-air size of one sealed frame; nothing, where the source would panic. -/
def frameSize : Option Nat :=
  match encodeCompact ((envelopeOf C .bindingSupport .support 0 4294967295).sign C (seedFor 0)
      deliberated.contentHash) with
  | .error _ => none
  | .ok encoded =>
    match sealFrame C labGroupKey 65535 4294967295 encoded with
    | .error _ => none
    | .ok frame => some frame.length

/-- How long one round of a stage lasts. -/
def windowFor (bytes round : Nat) : UInt64 :=
  match d.access with
  | .random => windowMs round
  | .slotted guardMs => (airtimeMs bytes + guardMs) * .ofNat d.fleet

end configuration

/-! ## Building a frame -/

section frames

variable (C : Primitives) (d : Deliberation)

/-- Sign, seal and journal one member's utterance; a vote is locked before it is exposed. -/
def frameFor (sender : Nat) (stage : Stage) (journal : MemoryJournal) :
    Option Bytes × MemoryJournal :=
  let sequence := journal.reserveSequence.1
  let reserved := journal.reserveSequence.2
  match encodeCompact ((envelopeOf C stage (verdictFor d sender) (authorOf sender) sequence).sign C
      (seedFor (signerOf d sender)) deliberated.contentHash) with
  | .error _ => (none, reserved)
  | .ok encoded =>
    match sealFrame C labGroupKey (authorOf sender) sequence encoded with
    | .error _ => (none, reserved)
    | .ok frame =>
      if stage = .bindingSupport then
        match reserved.commitVote deliberated (memberId sender) (.new frame sequence) with
        | (.error _, locked) => (none, locked)
        | (.ok _, locked) => (some frame, locked)
      else (some frame, reserved)

end frames

/-! ## A stage -/

/-- What lasts from stage to stage, and all that has been on the air so far. -/
structure Session where
  rng : Rng
  drawn : Nat
  usedAirtime : Nat → UInt64
  journals : Nat → MemoryJournal
  observer : Case
  refusals : TransitionErrorCount
  sent : List (Nat × Bytes)

/-- A stage under way. -/
structure Sitting where
  session : Session
  report : StageReport
  outbox : Nat → Option Bytes
  onAir : List (Nat × Transmission × Bytes)
  retry : List Nat

namespace Sitting

section operations

variable (C : Primitives) (d : Deliberation) (stage : Stage) (sitting : Sitting)

/-- The member's frame of this stage, built if there is none yet. -/
def outgoing (sender : Nat) : Option Bytes × Sitting :=
  match sitting.outbox sender with
  | some bytes => (some bytes, sitting)
  | none =>
    let built := frameFor C d sender stage (sitting.session.journals sender)
    let journalled : Session := { sitting.session with
      journals := Function.update sitting.session.journals sender built.2 }
    match built.1 with
    | none => (none, { sitting with session := journalled })
    | some bytes => (some bytes, { sitting with
        session := journalled
        outbox := Function.update sitting.outbox sender (some bytes) })

/-- Charge a frame that may go out against its sender's hour. -/
def charge (sender : Nat) (bytes : Bytes) : Sitting :=
  let air := airtimeMs bytes.length
  { sitting with
    session := { sitting.session with
      usedAirtime := Function.update sitting.session.usedAirtime sender
        (sitting.session.usedAirtime sender + air)
      sent := sitting.session.sent ++ [(sender, bytes)] }
    report := { sitting.report with
      framesSent := sitting.report.framesSent + 1
      airtimeMs := sitting.report.airtimeMs + air } }

/-- When a sender keys up inside this round. -/
def startFor (offsets : Nat → ℤ) (elapsed window : UInt64) (sender : Nat) (air : UInt64) :
    UInt64 × Sitting :=
  match d.access with
  | .random =>
    let roll := sitting.session.rng.below window
    (elapsed + roll.1, { sitting with session := { sitting.session with rng := roll.2 } })
  | .slotted guardMs =>
    let slot := elapsed + .ofNat sender * (air + guardMs)
    match d.anchor with
    | .trigger => (slot, sitting)
    | .clock => (saturatingAddSigned slot (offsets sender), sitting)

/-- Key up one pending member, if it has a frame and may send it. -/
def keyUp (offsets : Nat → ℤ) (elapsed window : UInt64) (sender : Nat) : Sitting :=
  let ready := sitting.outgoing C d stage sender
  match ready.1 with
  | none => ready.2
  | some bytes =>
    let air := airtimeMs bytes.length
    if dutyCycleOk (ready.2.session.usedAirtime sender) air = false then ready.2
    else
      let started := (ready.2.charge sender bytes).startFor d offsets elapsed window sender air
      if sender = observer then
        { started.2 with
          onAir := started.2.onAir ++ [(sender, .ownTransmission started.1 air, bytes)] }
      else if d.topology.reaches sender observer d.fleet = true then
        let heard := rssiAtObserver d.geometry sender started.2.session.drawn
        { started.2 with
          session := { started.2.session with drawn := heard.2 }
          onAir := started.2.onAir ++ [(sender, ⟨started.1, air, heard.1⟩, bytes)] }
      else
        { started.2 with
          report := { started.2.report with lost := started.2.report.lost + 1 }
          retry := started.2.retry ++ [sender] }

/-- Offer a received frame to the observer's case. -/
def offer (clock : Clock) (bytes : Bytes) : Sitting :=
  match simAdmit (C := C) bytes deliberated (keysOf C d.fleet) labGroupKey sitting.session.observer
      clock with
  | .ok after => { sitting with
      session := { sitting.session with observer := after }
      report := { sitting.report with admitted := sitting.report.admitted + 1 } }
  | .error error => { sitting with
      session := { sitting.session with refusals := sitting.session.refusals.record error }
      report := { sitting.report with refused := sitting.report.refused + 1 } }

/-- Decide what the observer heard of one frame; its own utterance it always knows. -/
def deliverOne (clock : Clock) (one : (Nat × Transmission × Bytes) × List Transmission) :
    Sitting :=
  let (sender, frame, bytes) := one.1
  if sender = observer then sitting.offer C d clock bytes
  else
    match receive frame one.2 with
    | .tooWeak => { sitting with
        report := { sitting.report with lost := sitting.report.lost + 1 }
        retry := sitting.retry ++ [sender] }
    | .decoded =>
      let roll := sitting.session.rng.nextUnit
      let rolled : Sitting := { sitting with session := { sitting.session with rng := roll.2 } }
      if roll.1 < d.loss then
        { rolled with
          report := { rolled.report with lost := rolled.report.lost + 1 }
          retry := rolled.retry ++ [sender] }
      else rolled.offer C d clock bytes
    | _ => { sitting with
        report := { sitting.report with collided := sitting.report.collided + 1 }
        retry := sitting.retry ++ [sender] }

/-- One round: key up whoever is pending, then hear what is on the air. -/
def round (clock : Clock) (offsets : Nat → ℤ) (elapsed window : UInt64) (pending : List Nat) :
    Sitting :=
  let aloft := pending.foldl (fun f sender => keyUp C d stage f offsets elapsed window sender)
    { sitting with onAir := [], retry := [] }
  (eachWithOthers (fun p => p.2.1) [] aloft.onAir).foldl (fun f one => deliverOne C d f clock one)
    aloft

/-- Rounds until nobody is pending or there are no more: when the last of them is over. -/
def rounds (clock : Clock) (offsets : Nat → ℤ) (bytes : Nat) :
    List Nat → UInt64 → List Nat → Sitting → UInt64 × Sitting
  | [], elapsed, _, sitting => (elapsed, sitting)
  | number :: numbers, elapsed, pending, sitting =>
    if pending = [] then (elapsed, sitting)
    else
      let window := windowFor d bytes number
      let done := sitting.round C d stage clock offsets elapsed window pending
      rounds clock offsets bytes numbers
        (max (Run.tail elapsed (done.onAir.map fun p => (p.1, p.2.1))) (elapsed + window))
        done.retry done

end operations

end Sitting

section whole

variable (C : Primitives) (d : Deliberation)

/-- One stage: everyone speaks once, with retries, and the observer listens. -/
def runStage (bytes : Nat) (stage : Stage) (clock : Clock) (session : Session) :
    StageReport × Session :=
  let done := Sitting.rounds C d stage clock (clockOffsetsMs d) bytes (List.range maxRetries) 0
    (List.range' d.silent (d.fleet - d.silent)) ⟨session, .zero, fun _ => none, [], []⟩
  ({ done.2.report with elapsedMs := done.1 }, done.2.session)

/-- A clock that stands still. -/
def fixedClock (at' : Timestamp) : Clock := fun _ => at'

/-- When consultation is closed: the first second in which the cutoff is certainly past. -/
def closeAt : UInt64 := consultationCutoffSeconds + maxClockSkewSeconds + 1

def opening : Session where
  rng := .new d.seed
  drawn := 0
  usedAirtime _ := 0
  journals _ := .default
  observer :=
    match d.validityS with
    | none => .open deliberated
    | some seconds => .openUntil deliberated (deliberated.startedAt.plusSecs seconds)
  refusals := .zero
  sent := []

/-- Consultation is over, or the refusal to end it is counted. -/
def freeze (clock : Clock) (session : Session) : Session :=
  match session.observer.closeConsultation clock with
  | .ok after => { session with observer := after }
  | .error error => { session with refusals := session.refusals.record error }

/-- The sessions behind the stages, with what each stage cost: consult, freeze, vote. -/
def stages (bytes : Nat) : (StageReport × StageReport × StageReport) × Session :=
  let early := fixedClock (deliberated.startedAt.plusSecs 1)
  let late := fixedClock (deliberated.startedAt.plusSecs closeAt)
  let first := runStage C d bytes .independent early (opening d)
  let second := runStage C d bytes .consultation early first.2
  let third := runStage C d bytes .bindingSupport late (freeze late second.2)
  ((first.1, second.1, third.1), third.2)

/-- Run the whole deliberation; nothing, where the source would panic. -/
def Deliberation.run : Option Report := do
  let policy ← (Quorum.Policy.new (standing d.fleet)).toOption
  let frameBytes ← frameSize C
  let ((first, second, third), session) := stages C d frameBytes
  let supporters := session.observer.bindingSupporters
  let outcome ← (Quorum.evaluate policy supporters).toOption
  some {
    endorsed := outcome.approved
    bindingSupporters := supporters.length
    minSigners := policy.minSigners
    independent := first
    consultation := second
    binding := third
    elapsedS := closeAt + third.elapsedMs / 1000
    radioMs := first.elapsedMs + second.elapsedMs + third.elapsedMs
    airtimeMs := first.airtimeMs + second.airtimeMs + third.airtimeMs
    frameBytes
    refusals := session.refusals }

end whole

end Deliberations
