import Lcq.LegalAirtime
import Lcq.Medium
import Lcq.SimAdmission

/-!
# A fleet in the laboratory

One claim, one observer, and a channel that the members share. Everyone answers
in rounds of retries, and the run is judged by what the observer verified. The
propagation and its fading are parameters; the generator is the source's own.
-/

namespace Scenarios

open ByteFormat Contracts LegalAirtime Medium Schedule SimAdmission Utterances Wire

/-! ## Chance -/

/-- A small deterministic generator, so that a run replays exactly. -/
structure Rng where
  state : UInt64
  deriving DecidableEq

namespace Rng

def new (seed : UInt64) : Rng := ⟨seed * 6364136223846793005 + 1⟩

def nextU64 (r : Rng) : UInt64 × Rng :=
  let first := r.state ^^^ (r.state >>> 12)
  let second := first ^^^ (first <<< 25)
  let third := second ^^^ (second >>> 27)
  (third * 2685821657736338717, ⟨third⟩)

/-- A uniform value below one. -/
def nextUnit (r : Rng) : ℚ × Rng :=
  ((r.nextU64.1 >>> 11).toNat / 9007199254740992, r.nextU64.2)

/-- A uniform integer below the bound, or zero, undrawn, if that is zero. -/
def below (r : Rng) (bound : UInt64) : UInt64 × Rng :=
  if bound = 0 then (0, r) else (r.nextU64.1 % bound, r.nextU64.2)

theorem below_lt (r : Rng) {bound : UInt64} (some : bound ≠ 0) : (r.below bound).1 < bound := by
  rw [below, if_neg some, UInt64.lt_iff_toNat_lt, UInt64.toNat_mod]
  refine Nat.mod_lt _ (Nat.pos_of_ne_zero fun zero => some ?_)
  exact UInt64.toNat_inj.mp zero

end Rng

/-! ## Reach and power -/

inductive Topology where
  | fullyConnected
  | partitioned
  deriving DecidableEq

/-- Whether a sender can be heard by a receiver at all. -/
def Topology.reaches (topology : Topology) (sender receiver fleet : Nat) : Bool :=
  match topology with
  | .fullyConnected => decide (sender ≠ receiver)
  | .partitioned =>
    decide (sender ≠ receiver) &&
      (decide (sender < fleet / 2) == decide (receiver < fleet / 2))

/-- Members on a line: the median power each arrives with, and the fades, in the order in which
they are drawn. -/
structure Geometry where
  median : Nat → Power
  fade : Nat → ℚ

def nominalRssiDbm : ℚ := -80

def faded : Power → ℚ → Power
  | .dbm p, fade => .dbm (p + fade)
  | power, _ => power

/-- Received power at the observer, and how many fades have been drawn. -/
def rssiAtObserver (geometry : Option Geometry) (sender drawn : Nat) : Power × Nat :=
  match geometry with
  | none => (.dbm nominalRssiDbm, drawn)
  | some g => (faded (g.median sender) (g.fade drawn), drawn + 1)

/-- A frame's fate under the default profile. -/
def receive (target : Transmission) (others : List Transmission) : Reception :=
  judge target .defaultProfile others

/-- How members decide when to transmit: at random in a window, or in the slot of their index. -/
inductive Access where
  | random
  | slotted (guardMs : UInt64)
  deriving DecidableEq

/-- Judged from one observer's seat. -/
def observer : Nat := 0

def seedFor (index : Nat) : SigningKey :=
  ⟨be 8 (index + 1) ++ List.replicate 24 0, by simp⟩

def labGroupKey : GroupKey := ⟨List.replicate 32 0x5a, by simp⟩

/-- The frames on the air, each with the others that were there. -/
def eachWithOthers {α β : Type} (frame : α → β) : List α → List α → List (α × List β)
  | _, [] => []
  | before, a :: after =>
    (a, before.map frame ++ after.map frame) :: eachWithOthers frame (before ++ [a]) after

/-! ## A scenario -/

/-- Whether a sender ever learns that it was heard. -/
inductive Acknowledgement where
  | assumed
  | none
  deriving DecidableEq

/-- What became of one transmission, from the observer's seat. -/
inductive Outcome where
  | decoded
  | ownTransmission
  | rejected
  | collided
  | tooWeak
  | unreachable
  | lostToResidualNoise
  | dutyCycleBlocked
  deriving DecidableEq

def Outcome.wentOnAir (outcome : Outcome) : Bool := decide (outcome ≠ .dutyCycleBlocked)

structure TraceEntry where
  round : Nat
  sender : Nat
  startMs : UInt64
  airtimeMs : UInt64
  rssiDbm : Power
  outcome : Outcome
  deriving DecidableEq

structure Report where
  endorsed : Bool
  bindingSupporters : Nat
  minSigners : UInt64
  framesSent : Nat
  rejectedFrames : Nat
  collidedFrames : Nat
  tooWeakFrames : Nat
  dutyCycleBlocked : Nat
  airtimeMs : UInt64
  timeline : List TraceEntry

/-- A fleet, a channel and a claim to agree on. -/
structure Scenario where
  fleet : Nat
  loss : ℚ
  seed : UInt64
  topology : Topology
  silent : Nat
  forgers : Nat
  geometry : Option Geometry
  priorAirtimeMs : UInt64
  access : Access
  acknowledgement : Acknowledgement
  manned : 1 ≤ fleet
  counted : fleet < 2 ^ 64

def maxRetries : Nat := 5

def contentionWindowMs : UInt64 := 30000

/-- The contention window for a retry round. -/
def windowMs (round : Nat) : UInt64 :=
  contentionWindowMs <<< match round with
    | 0 => 0
    | 1 => 1
    | 2 => 2
    | _ => 3

/-- Running counts for one run. -/
structure Tally where
  onAir : List (Nat × Transmission)
  timeline : List TraceEntry
  framesSent : Nat
  rejected : Nat
  collided : Nat
  tooWeak : Nat
  dutyCycleBlocked : Nat
  airtimeMs : UInt64

namespace Tally

def zero : Tally := ⟨[], [], 0, 0, 0, 0, 0, 0⟩

def record (t : Tally) (entry : TraceEntry) : Tally :=
  { t with timeline := t.timeline ++ [entry] }

end Tally

structure Run where
  rng : Rng
  drawn : Nat
  tally : Tally
  usedAirtime : Nat → UInt64
  verified : List String
  elapsedMs : UInt64

/-- A round under way: what is on the air, and who must try again. -/
structure Flight where
  run : Run
  onAir : List (Nat × Transmission)
  retry : List Nat

namespace Run

section operations

variable (C : Primitives) (s : Scenario) (frames : Nat → Bytes) (manifest : List VerifyingKey)
  (subject : Subject)

def new : Run where
  rng := .new s.seed
  drawn := 0
  tally := .zero
  usedAirtime _ := s.priorAirtimeMs
  verified := []
  elapsedMs := 0

variable (r : Run)

/-- Time on air of a member's frame. -/
def air (sender : Nat) : UInt64 := Schedule.airtimeMs (frames sender).length

/-- Charge a transmission against a node's hourly budget: whether it may go out. A refusal is
counted, not billed. -/
def charge (node : Nat) (air : UInt64) (round : Nat) : Bool × Run :=
  if dutyCycleOk (r.usedAirtime node) air = false then
    (false, { r with
      tally := { r.tally with dutyCycleBlocked := r.tally.dutyCycleBlocked + 1 }.record
        ⟨round, node, 0, 0, .silence, .dutyCycleBlocked⟩ })
  else
    (true, { r with
      usedAirtime := Function.update r.usedAirtime node (r.usedAirtime node + air)
      tally := { r.tally with
        framesSent := r.tally.framesSent + 1
        airtimeMs := r.tally.airtimeMs + air } })

def record (entry : TraceEntry) : Run := { r with tally := r.tally.record entry }

/-- Verify a received frame and record its author's support. -/
def accept (sender : Nat) : Outcome × Run :=
  match signed C subject manifest labGroupKey (frames sender) with
  | none =>
    (.rejected, { r with tally := { r.tally with rejected := r.tally.rejected + 1 } })
  | some envelope =>
    let id := memberId envelope.authorIndex.toNat
    (.decoded, if id ∈ r.verified then r else { r with verified := r.verified ++ [id] })

/-- How long this round lasts. -/
def windowFor (round : Nat) : UInt64 :=
  match s.access with
  | .random => windowMs round
  | .slotted guardMs => (air frames observer + guardMs) * .ofNat s.fleet

/-- When a sender keys up inside this round. -/
def startFor (sender : Nat) (air window : UInt64) : UInt64 × Run :=
  match s.access with
  | .random => (r.elapsedMs + (r.rng.below window).1, { r with rng := (r.rng.below window).2 })
  | .slotted guardMs => (r.elapsedMs + .ofNat sender * (air + guardMs), r)

/-- The observer answers once, in the first round. Its own vote is checked like any other. -/
def observerAnswers (window : UInt64) : Run :=
  if s.silent ≠ 0 then r
  else
    let air := air frames observer
    let charged := r.charge observer air 0
    if charged.1 = false then (charged.2.accept C frames manifest subject observer).2
    else
      let started := charged.2.startFor s observer air window
      let own : Nat × Transmission := (observer, .ownTransmission started.1 air)
      let aloft : Run := { started.2 with
        tally := { started.2.tally with onAir := started.2.tally.onAir ++ [own] } }
      let verdict := aloft.accept C frames manifest subject observer
      verdict.2.record ⟨0, observer, started.1, air, .infinity,
        if verdict.1 = .rejected then .rejected else .ownTransmission⟩

/-- Key up one pending member and place its frame on the channel. -/
def keyUp (round : Nat) (window : UInt64) (f : Flight) (sender : Nat) : Flight :=
  let air := air frames sender
  let charged := f.run.charge sender air round
  -- not retried: the budget does not come back inside the scenario's horizon
  if charged.1 = false then { f with run := charged.2 }
  else
    let started := charged.2.startFor s sender air window
    if s.topology.reaches sender observer s.fleet = true then
      let heard := rssiAtObserver s.geometry sender started.2.drawn
      { f with
        run := { started.2 with drawn := heard.2 }
        onAir := f.onAir ++ [(sender, ⟨started.1, air, heard.1⟩)] }
    else
      -- transmitted, and paid for in airtime, but never arrives
      { f with
        run := started.2.record ⟨round, sender, started.1, air, .silence, .unreachable⟩
        retry := f.retry ++ [sender] }

def schedule (round : Nat) (window : UInt64) (pending : List Nat) : Flight :=
  pending.foldl (keyUp s frames round window)
    ⟨{ r with tally := { r.tally with onAir := [] } }, r.tally.onAir, []⟩

/-- What the observer made of one frame, and whether its sender tries again. -/
def hear (sender : Nat) (frame : Transmission) (others : List Transmission) :
    Outcome × Bool × Run :=
  match receive frame others with
  | .tooWeak =>
    (.tooWeak, true, { r with tally := { r.tally with tooWeak := r.tally.tooWeak + 1 } })
  | .decoded =>
    let roll := r.rng.nextUnit
    if roll.1 < s.loss then (.lostToResidualNoise, true, { r with rng := roll.2 })
    else
      let verdict := ({ r with rng := roll.2 } : Run).accept C frames manifest subject sender
      (verdict.1, decide (s.acknowledgement = .none), verdict.2)
  | _ => (.collided, true, { r with tally := { r.tally with collided := r.tally.collided + 1 } })

/-- Decide what the observer heard of one frame. -/
def deliverOne (round : Nat) (state : Run × List Nat)
    (one : (Nat × Transmission) × List Transmission) : Run × List Nat :=
  let (sender, frame) := one.1
  if sender = observer then state
  else
    let heard := state.1.hear C s frames manifest subject sender frame one.2
    (heard.2.2.record ⟨round, sender, frame.startMs, frame.airtimeMs, frame.rssiDbm, heard.1⟩,
      if heard.2.1 = true then state.2 ++ [sender] else state.2)

def deliver (round : Nat) (f : Flight) : Run × List Nat :=
  (eachWithOthers Prod.snd [] f.onAir).foldl (deliverOne C s frames manifest subject round)
    (f.run, f.retry)

/-- When the last of the frames ends. -/
def tail (elapsed : UInt64) (onAir : List (Nat × Transmission)) : UInt64 :=
  match onAir.map fun p => p.2.endMs with
  | [] => elapsed
  | first :: rest => rest.foldl max first

/-- One round, and the members that must try again. -/
def round (number : Nat) (pending : List Nat) : Run × List Nat :=
  let window := windowFor s frames number
  let answered := if number = 0 then r.observerAnswers C s frames manifest subject window else r
  let flight := answered.schedule s frames number window pending
  let delivered := deliver C s frames manifest subject number flight
  ({ delivered.1 with
      elapsedMs := max (tail delivered.1.elapsedMs flight.onAir)
        (delivered.1.elapsedMs + window) }, delivered.2)

/-- Rounds until nobody has to try again or there are no more. -/
def rounds : List Nat → Run → List Nat → Run
  | [], r, _ => r
  | number :: numbers, r, pending =>
    if pending = [] then r
    else
      let done := r.round C s frames manifest subject number pending
      rounds numbers done.1 done.2

end operations

end Run

/-! ## A whole run -/

def simSubject : Subject where
  mission := "sim"
  event := "evt-1"
  revision := 0
  contentHash := ⟨List.replicate 32 0x11, by decide⟩
  startedAt := ⟨0⟩
  named := by decide

section whole

variable (C : Primitives) (s : Scenario)

/-- A forger signs with a key that is not the one the manifest lists for the index it claims. -/
def signerOf (sender : Nat) : Nat :=
  if s.silent ≤ sender ∧ sender < s.silent + s.forgers then (sender + 1) % s.fleet else sender

def envelopeOf (sender : Nat) : CompactEnvelope :=
  .new C 1 1 0 simSubject.contentHash simSubject.startedAt.secs (authorOf sender) 3 1 (.ofNat sender)

/-- The signed frame a member puts on the air; nothing, where the source would panic. -/
def frameFor (sender : Nat) : Option Bytes :=
  match encodeCompact ((envelopeOf C sender).sign C (seedFor (signerOf s sender))
      simSubject.contentHash) with
  | .error _ => none
  | .ok encoded =>
    match sealFrame C labGroupKey (authorOf sender) (.ofNat sender) encoded with
    | .error _ => none
    | .ok frame => some frame

def keysOf (fleet : Nat) : List VerifyingKey :=
  (List.range fleet).map fun i => C.verifyingKey (seedFor i)

def standing (fleet : Nat) : List (String × UInt8) :=
  (List.range fleet).map fun i => (memberId i, Quorum.Competence.full.value)

/-- The members that have to be heard. -/
def awaited : List Nat :=
  (List.range' s.silent (s.fleet - s.silent)).filter fun i => decide (i ≠ observer)

/-- What the rounds come to, with the frames given. -/
def played (frames : Nat → Bytes) : Run :=
  Run.rounds C s frames (keysOf C s.fleet) simSubject (List.range maxRetries) (.new s) (awaited s)

/-- Run the scenario to completion; nothing, where the source would panic. -/
def Scenario.run : Option Report := do
  let policy ← (Quorum.Policy.new (standing s.fleet)).toOption
  let frames ← (List.range s.fleet).mapM (frameFor C s)
  let r := played C s fun sender => frames.getD sender []
  let outcome ← (Quorum.evaluate policy r.verified).toOption
  some {
    endorsed := outcome.approved
    bindingSupporters := r.verified.length
    minSigners := policy.minSigners
    framesSent := r.tally.framesSent
    rejectedFrames := r.tally.rejected
    collidedFrames := r.tally.collided
    tooWeakFrames := r.tally.tooWeak
    dutyCycleBlocked := r.tally.dutyCycleBlocked
    airtimeMs := r.tally.airtimeMs
    timeline := r.tally.timeline }

end whole

end Scenarios
