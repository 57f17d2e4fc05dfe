import Lcq.LogJournal
import Lcq.Wire

/-!
# Building frames

Every frame a member sends is sealed under a sequence number its journal has
reserved for it; a binding vote is committed before it leaves, and a vote that
is committed already is sent again from the journal. A ghost keeps the calls of
`sealFrame`. The member is honest: what a test harness makes of it is left out.
-/

namespace Utterances

open ByteFormat Contracts JournalRecords JournalState LogJournal Program Wire

/-! ## The fleet and the member -/

/-- Who is in the fleet, in the order of the manifest. -/
structure Fleet where
  missionEpoch : UInt16
  ids : List String
  distinct : ids.Nodup

namespace Fleet

def size (fleet : Fleet) : Nat := fleet.ids.length

def id (fleet : Fleet) (index : Nat) : String := fleet.ids.getD index "?"

def indexOf (fleet : Fleet) (id : String) : Option Nat := fleet.ids.idxOf? id

end Fleet

structure Options where
  index : Nat
  slots : Bool
  /-- Dead time behind a frame, in protocol milliseconds. -/
  guardMs : UInt64
  /-- How much faster than wall time the protocol runs. -/
  scale : UInt32
  ignoreAcks : Bool
  attempts : Nat

/-- Whose keys prove authorship, the member's own key, and the group key of the epoch. -/
structure Provisioned where
  keyring : List VerifyingKey
  signing : SigningKey
  group : GroupKey

/-- The opening of a round. It carries no opinion. -/
def triggerStage : UInt8 := 0

/-- A repair request. It carries no opinion. -/
def nackStage : UInt8 := 4

def event : UInt32 := 1

def revision : UInt16 := 0

def stageCode : Stage → UInt8
  | .independent => 1
  | .consultation => 2
  | .bindingSupport => 3

def stageOf : UInt8 → Option Stage
  | 1 => some .independent
  | 2 => some .consultation
  | 3 => some .bindingSupport
  | _ => none

def verdictOf : UInt8 → Option Verdict
  | 1 => some .support
  | 2 => some .dispute
  | 3 => some .insufficientData
  | _ => none

def authorOf (index : Nat) : UInt16 := if index < 65536 then .ofNat index else 65535

/-! ## Building -/

inductive BuildError where
  | journal (error : JournalError)
  | wire (error : WireError)
  | nothingLeft
  | overWide (length : Nat)
  deriving DecidableEq

def BuildError.message : BuildError → String
  | journal error => error.message
  | wire error => error.message
  | nothingLeft => "already voted, nothing left in the outbox"
  | overWide length =>
    "frame is " ++ toString length ++ " B, over the " ++ toString maxFrameBytes ++
      " B a slot is sized for"

/-- A call of `sealFrame`: under what, and what it was given. -/
structure Sealing where
  author : UInt16
  sequence : UInt64
  plaintext : Bytes
  deriving DecidableEq

/-- The journal in use, and every call of `sealFrame` so far. -/
structure Desk where
  running : Running
  sealed : List Sealing

def onJournal {α : Type} (p : Prog Running JournalError α) : Prog Desk BuildError α :=
  zoom Desk.running (fun running d => { d with running }) (mapError .journal p)

variable (P : Postcard) (C : Primitives) (fleet : Fleet) (options : Options) (keys : Provisioned)

def sealing (author : UInt16) (sequence : UInt64) (plaintext : Bytes) :
    Prog Desk BuildError Bytes := do
  change fun d => { d with sealed := d.sealed ++ [⟨author, sequence, plaintext⟩] }
  ofExcept ((sealFrame C keys.group author sequence plaintext).mapError .wire)

/-- Reserve a number, sign the envelope that carries it and seal it under it. -/
def utter (env : Env) (subject : Subject) (stage verdict : UInt8) (heard : Heard)
    (round : RoundId) : Prog Desk BuildError (UInt64 × Bytes) := do
  let sequence ← onJournal (reserveSequence P env)
  let author := authorOf options.index
  let envelope := CompactEnvelope.new C fleet.missionEpoch event revision subject.contentHash
    subject.startedAt.secs author stage verdict sequence
  let envelope := (envelope.acknowledging heard).inRound round
  let signed ← ofExcept
    ((encodeCompact (envelope.sign C keys.signing subject.contentHash)).mapError .wire)
  let frame ← sealing C keys author sequence signed
  pure (sequence, frame)

/-- This node's frame for a stage, a binding vote committed first. Lock and outbox entry
commit together, before the bytes leave here. -/
def build (envs : Nat → Env) (stage : Stage) (subject : Subject) (heard : Heard)
    (round : RoundId) : Prog Desk BuildError Bytes := do
  let voter := fleet.id options.index
  let d ← read
  if stage = .bindingSupport ∧ hasVoted d.running.journal subject voter = true then
    match (pending d.running.journal).head? with
    | none => fail .nothingLeft
    | some frame => pure frame.bytes
  else do
    let uttered ← utter P C fleet options keys (envs 0) subject (stageCode stage) 1 heard round
    if maxFrameBytes < uttered.2.length then fail (.overWide uttered.2.length)
    else if stage = .bindingSupport then do
      onJournal (commitVote P (envs 1) subject voter (.new uttered.2 uttered.1))
      pure uttered.2
    else pure uttered.2

/-- A repair request: what this member holds, so that others can see what it lacks. -/
def buildNack (env : Env) (subject : Subject) (heard : Heard) (round : RoundId) :
    Prog Desk BuildError Bytes := do
  let uttered ← utter P C fleet options keys env subject nackStage 0 heard round
  pure uttered.2

/-- The frame that opens a round: authenticated, carrying no opinion. -/
def buildTrigger (env : Env) (subject : Subject) (round : RoundId) :
    Prog Desk BuildError Bytes := do
  let uttered ← utter P C fleet options keys env subject triggerStage 0 .none round
  pure uttered.2

/-! ## A fleet for runs on fixed inputs -/

def crew : Fleet where
  missionEpoch := 1
  ids := ["a", "b", "c"]
  distinct := by decide

def provisioned : Provisioned where
  keyring := [⟨List.replicate 32 1, rfl⟩, ⟨List.replicate 32 2, rfl⟩, ⟨List.replicate 32 3, rfl⟩]
  signing := ⟨List.replicate 32 1, rfl⟩
  group := ⟨List.replicate 32 9, rfl⟩

def firstMember : Options where
  index := 0
  slots := true
  guardMs := 200
  scale := 1
  ignoreAcks := false
  attempts := 3

end Utterances
