import Lcq.Contracts

/-!
# Frames on the air

A frame is a cleartext header, the author's index and a sequence number, and a
sealed envelope with its author's signature. The primitives are parameters:
nothing is taken for granted about them here. The serialiser's format is that
of the compact frame, field by field.
-/

namespace Wire

open ByteFormat Contracts

/-! ## Primitives -/

abbrev GroupKey := Hash

abbrev SigningKey := Hash

abbrev VerifyingKey := Hash

abbrev Signature := {bytes : Bytes // bytes.length = 64}

/-- The hash, the signatures and the authenticated encryption of the mission. Encryption
and decryption take a key, a nonce, the associated data and the text. -/
structure Primitives where
  blake2s256 : Bytes → Hash
  verifyingKey : SigningKey → VerifyingKey
  sign : SigningKey → Bytes → Signature
  verifyStrict : VerifyingKey → Bytes → Signature → Bool
  encrypt : GroupKey → Bytes → Bytes → Bytes → Option Bytes
  decrypt : GroupKey → Bytes → Bytes → Bytes → Option Bytes

inductive WireError where
  | badSignature
  | decryptionFailed
  | malformedFrame
  deriving DecidableEq

def WireError.message : WireError → String
  | badSignature => "signature does not verify"
  | decryptionFailed => "frame did not decrypt"
  | malformedFrame => "frame is malformed"

variable (C : Primitives)

/-! ## Sealing -/

/-- The author's index and the sequence number, and two zero bytes. -/
def nonceFor (authorIndex : UInt16) (sequence : UInt64) : Bytes :=
  be 2 authorIndex.toNat ++ be 8 sequence.toNat ++ [0, 0]

def frameHeaderBytes : Nat := 10

def aadFor (authorIndex : UInt16) (sequence : UInt64) : Bytes :=
  be 2 authorIndex.toNat ++ be 8 sequence.toNat

theorem aadFor_injective {author author' : UInt16} {sequence sequence' : UInt64}
    (same : aadFor author sequence = aadFor author' sequence') :
    author = author' ∧ sequence = sequence' := by
  obtain ⟨authors, sequences⟩ := List.append_inj same (by simp)
  constructor
  · apply UInt16.toNat_inj.mp
    exact be_injective author.toNat_lt author'.toNat_lt authors
  · apply UInt64.toNat_inj.mp
    exact be_injective sequence.toNat_lt sequence'.toNat_lt sequences

/-- Distinct pairs of author and sequence have distinct nonces. -/
theorem nonceFor_injective {author author' : UInt16} {sequence sequence' : UInt64}
    (same : nonceFor author sequence = nonceFor author' sequence') :
    author = author' ∧ sequence = sequence' :=
  aadFor_injective (List.append_cancel_right same)

def «seal» (key : GroupKey) (authorIndex : UInt16) (sequence : UInt64) (plaintext : Bytes) :
    Except WireError Bytes :=
  match C.encrypt key (nonceFor authorIndex sequence) (aadFor authorIndex sequence) plaintext with
  | none => .error .decryptionFailed
  | some ciphertext => .ok ciphertext

def «open» (key : GroupKey) (authorIndex : UInt16) (sequence : UInt64) (sealed : Bytes) :
    Except WireError Bytes :=
  match C.decrypt key (nonceFor authorIndex sequence) (aadFor authorIndex sequence) sealed with
  | none => .error .decryptionFailed
  | some plaintext => .ok plaintext

/-- Seal a frame for the air: cleartext header, then ciphertext. -/
def sealFrame (key : GroupKey) (authorIndex : UInt16) (sequence : UInt64) (plaintext : Bytes) :
    Except WireError Bytes := do
  let ciphertext ← «seal» C key authorIndex sequence plaintext
  .ok (aadFor authorIndex sequence ++ ciphertext)

/-- What the header claims, read before anything is opened. -/
def peekFrameHeader (frame : Bytes) : Except WireError (UInt16 × UInt64) :=
  if frame.length ≤ frameHeaderBytes then .error .malformedFrame
  else .ok (.ofNat (ofBe (frame.take 2)), .ofNat (ofBe ((frame.drop 2).take 8)))

def openFrame (key : GroupKey) (frame : Bytes) : Except WireError (UInt16 × UInt64 × Bytes) :=
  if frame.length ≤ frameHeaderBytes then .error .malformedFrame
  else
    let authorIndex : UInt16 := .ofNat (ofBe (frame.take 2))
    let sequence : UInt64 := .ofNat (ofBe ((frame.drop 2).take 8))
    match «open» C key authorIndex sequence (frame.drop frameHeaderBytes) with
    | .error e => .error e
    | .ok plaintext => .ok (authorIndex, sequence, plaintext)

/-- A frame that opens says in its header what `peekFrameHeader` reads. -/
theorem peek_openFrame {key : GroupKey} {frame plaintext : Bytes} {author : UInt16}
    {sequence : UInt64} (opens : openFrame C key frame = .ok (author, sequence, plaintext)) :
    peekFrameHeader frame = .ok (author, sequence) := by
  unfold openFrame at opens
  unfold peekFrameHeader
  split at opens
  · cases opens
  · rename_i long
    rw [if_neg long]
    dsimp only at opens
    split at opens
    · cases opens
    · cases opens
      rfl

/-! ## The compact envelope -/

/-- Which members the sender has heard, as one bit each. -/
structure Heard where
  bytes : Bytes
  size : bytes.length = 8
  deriving DecidableEq

namespace Heard

def none : Heard := ⟨List.replicate 8 0, rfl⟩

def capacity : Nat := 64

def bit (index : Nat) : UInt8 := 1 <<< UInt8.ofNat (index % 8)

/-- Indices past the capacity are dropped. -/
def heardFrom (heard : Heard) (index : Nat) : Heard :=
  if index < capacity then
    ⟨heard.bytes.modify (index / 8) (· ||| bit index), by simp [heard.size]⟩
  else heard

def contains (heard : Heard) (index : Nat) : Bool :=
  decide (index < capacity) && heard.bytes.getD (index / 8) 0 &&& bit index != 0

end Heard

/-- Which round an utterance belongs to: who opened it, under which sequence. -/
structure RoundId where
  opener : UInt16
  sequence : UInt32
  deriving DecidableEq

namespace RoundId

def none : RoundId := ⟨65535, 0⟩

def isSet (round : RoundId) : Bool := round.opener != 65535

def bytes (round : RoundId) : Bytes := be 2 round.opener.toNat ++ be 4 round.sequence.toNat

end RoundId

abbrev CaseReference := {bytes : Bytes // bytes.length = 8}

def caseDomain : Bytes := "lcq-v1-case".toUTF8.data.toList

def compactDomain : Bytes := "lcq-v1-compact".toUTF8.data.toList

/-- The short reference a frame carries for a case instead of the content hash. -/
def caseReference (contentHash : Hash) : CaseReference :=
  let digest := C.blake2s256 (caseDomain ++ contentHash.1)
  ⟨digest.1.take 8, by simp [digest.2]⟩

def maxFrameBytes : Nat := 152

structure CompactEnvelope where
  missionEpoch : UInt16
  event : UInt32
  revision : UInt16
  case : CaseReference
  startedAt : UInt64
  authorIndex : UInt16
  stage : UInt8
  verdict : UInt8
  sequence : UInt64
  heard : Heard
  round : RoundId
  deriving DecidableEq

structure SignedCompactEnvelope where
  envelope : CompactEnvelope
  signature : Signature
  deriving DecidableEq

namespace CompactEnvelope

/-- An envelope that names the case by the reference of its content hash. -/
def new (missionEpoch : UInt16) (event : UInt32) (revision : UInt16) (contentHash : Hash)
    (startedAt : UInt64) (authorIndex : UInt16) (stage verdict : UInt8) (sequence : UInt64) :
    CompactEnvelope where
  missionEpoch
  event
  revision
  case := caseReference C contentHash
  startedAt
  authorIndex
  stage
  verdict
  sequence
  heard := .none
  round := .none

def acknowledging (envelope : CompactEnvelope) (heard : Heard) : CompactEnvelope :=
  { envelope with heard }

def inRound (envelope : CompactEnvelope) (round : RoundId) : CompactEnvelope :=
  { envelope with round }

/-- What the hash of a signature is fed, the full content hash included. -/
def preimage (envelope : CompactEnvelope) (contentHash : Hash) : Bytes :=
  compactDomain ++ [envelope.stage] ++ be 2 envelope.missionEpoch.toNat
    ++ be 4 envelope.event.toNat ++ be 2 envelope.revision.toNat ++ envelope.heard.bytes
    ++ envelope.round.bytes ++ contentHash.1 ++ envelope.case.1 ++ be 8 envelope.startedAt.toNat
    ++ be 2 envelope.authorIndex.toNat ++ [envelope.verdict] ++ be 8 envelope.sequence.toNat

/-- The bytes a signature covers. -/
def transcript (envelope : CompactEnvelope) (contentHash : Hash) : Hash :=
  C.blake2s256 (envelope.preimage contentHash)

def sign (envelope : CompactEnvelope) (key : SigningKey) (contentHash : Hash) :
    SignedCompactEnvelope :=
  ⟨envelope, C.sign key (envelope.transcript C contentHash).1⟩

end CompactEnvelope

def SignedCompactEnvelope.verify (signed : SignedCompactEnvelope) (key : VerifyingKey)
    (contentHash : Hash) : Except WireError Unit :=
  if C.verifyStrict key (signed.envelope.transcript C contentHash).1 signed.signature then .ok ()
  else .error .badSignature

/-! ## The serialised form -/

open Coder in
/-- The envelope's fields in the order of their declaration. -/
def envelopeCoder : Coder CompactEnvelope :=
  (pair varint16 (pair varint32 (pair varint16 (pair (fixed 8) (pair varint64
    (pair varint16 (pair byte (pair byte (pair varint64 (pair (fixed 8)
      (pair varint16 varint32))))))))))).along
    (fun e => some (e.missionEpoch, e.event, e.revision, e.case, e.startedAt, e.authorIndex,
      e.stage, e.verdict, e.sequence, ⟨e.heard.bytes, e.heard.size⟩, e.round.opener,
      e.round.sequence))
    (fun (epoch, event, revision, case, startedAt, author, stage, verdict, sequence, heard,
        opener, label) =>
      some ⟨epoch, event, revision, case, startedAt, author, stage, verdict, sequence,
        ⟨heard.1, heard.2⟩, ⟨opener, label⟩⟩)
    (by
      rintro e _ ⟨⟩
      rfl)

open Coder in
/-- A signature as a run of bytes with its length in front. -/
def signatureCoder : Coder Signature :=
  lengthed.along (fun signature => some signature.1)
    (fun bytes => if size : bytes.length = 64 then some ⟨bytes, size⟩ else none)
    (by
      rintro ⟨bytes, size⟩ _ ⟨⟩
      exact dif_pos size)

open Coder in
def compactCoder : Coder SignedCompactEnvelope :=
  (pair envelopeCoder signatureCoder).along (fun s => some (s.envelope, s.signature))
    (fun (envelope, signature) => some ⟨envelope, signature⟩)
    (by
      rintro s _ ⟨⟩
      rfl)

def encodeCompact (signed : SignedCompactEnvelope) : Except WireError Bytes :=
  match compactCoder.write signed with
  | none => .error .malformedFrame
  | some bytes => .ok bytes

/-- Bytes behind a whole envelope are not looked at. -/
def decodeCompact (bytes : Bytes) : Except WireError SignedCompactEnvelope :=
  match compactCoder.read bytes with
  | none => .error .malformedFrame
  | some (signed, _) => .ok signed

/-- Every envelope has a serialised form. -/
theorem encodeCompact_total (signed : SignedCompactEnvelope) :
    ∃ bytes, encodeCompact signed = .ok bytes := by
  have size : signed.signature.1.length < 2 ^ 64 := by
    rw [signed.signature.2]
    decide
  have written : ∃ bytes, compactCoder.write signed = some bytes := by
    simp only [compactCoder, envelopeCoder, signatureCoder, Coder.along, Coder.pair,
      Coder.lengthed, Coder.fixed, Coder.byte, Coder.varint16, Coder.varint32, Coder.varint64,
      if_pos size, Option.bind_some, Option.map_some]
    exact ⟨_, rfl⟩
  obtain ⟨bytes, written⟩ := written
  exact ⟨bytes, by rw [encodeCompact, written]⟩

theorem decodeCompact_encodeCompact {signed : SignedCompactEnvelope} {bytes : Bytes}
    (written : encodeCompact signed = .ok bytes) : decodeCompact bytes = .ok signed := by
  unfold encodeCompact at written
  split at written
  · cases written
  · rename_i w made
    cases written
    have back := compactCoder.read_write signed bytes [] made
    rw [List.append_nil] at back
    rw [decodeCompact, back]

/-! ## Primitives for runs on fixed inputs -/

/-- Hash, sign and encrypt in plain sight. A signature is the key and what was signed, a
ciphertext the text with its tag behind it. -/
def plain : Primitives where
  blake2s256 bytes := ⟨be 32 (bytes.foldl (fun n b => (n * 65599 + b.toNat + 1) % 2 ^ 256) 0),
    by simp⟩
  verifyingKey key := key
  sign key message := ⟨(key.1 ++ message ++ List.replicate 32 0).take 64, by simp [key.2]; omega⟩
  verifyStrict key message signature :=
    decide (signature.1 = (key.1 ++ message ++ List.replicate 32 0).take 64)
  encrypt _ _ _ text := some (text ++ List.replicate 16 0)
  decrypt _ _ _ sealed :=
    if sealed.drop (sealed.length - 16) = List.replicate 16 0 then
      some (sealed.take (sealed.length - 16))
    else none

end Wire
