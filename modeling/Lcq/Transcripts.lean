import Lcq.Spelling
import Lcq.Wire

/-!
# What a signature stands for

An utterance is signed in one of two forms, the compact one of the radio and
the readable one of the journal. The bytes that are hashed determine the form
and every field of it.
-/

namespace Transcripts

open ByteFormat Contracts Spelling Wire

/-! ## The readable form -/

def transcriptDomain : Bytes := "lcq-v1-endorsement".toUTF8.data.toList

def stageCode : Stage → UInt8
  | .independent => 1
  | .consultation => 2
  | .bindingSupport => 3

def verdictCode : Verdict → UInt8
  | .support => 1
  | .dispute => 2
  | .insufficientData => 3

structure Envelope where
  mission : String
  event : String
  revision : UInt32
  contentHash : Hash
  startedAt : UInt64
  author : String
  stage : UInt8
  verdict : UInt8
  sequence : UInt64
  deriving DecidableEq

structure SignedEnvelope where
  envelope : Envelope
  signature : Signature
  deriving DecidableEq

/-- A length in four bytes, or their largest value where it does not fit, then the text. -/
def prefixed (text : String) : Bytes :=
  be 4 (min (asBytes text).length (2 ^ 32 - 1)) ++ asBytes text

namespace Envelope

def new (subject : Subject) (author : String) (stage : Stage) (verdict : Verdict)
    (sequence : UInt64) : Envelope where
  mission := subject.mission
  event := subject.event
  revision := subject.revision
  contentHash := subject.contentHash
  startedAt := subject.startedAt.secs
  author
  stage := stageCode stage
  verdict := verdictCode verdict
  sequence

variable (envelope : Envelope)

/-- The subject an envelope refers to. -/
def subject : Except WireError Subject :=
  (Subject.new envelope.mission envelope.event envelope.revision envelope.contentHash
    ⟨envelope.startedAt⟩).mapError fun _ => .malformedFrame

/-- What the hash of a signature is fed. -/
def preimage : Bytes :=
  transcriptDomain ++ [envelope.stage] ++ prefixed envelope.mission ++ prefixed envelope.event
    ++ be 4 envelope.revision.toNat ++ envelope.contentHash.1 ++ be 8 envelope.startedAt.toNat
    ++ prefixed envelope.author ++ [envelope.verdict] ++ be 8 envelope.sequence.toNat

def transcript (C : Primitives) : Hash := C.blake2s256 envelope.preimage

def sign (C : Primitives) (key : SigningKey) : SignedEnvelope :=
  ⟨envelope, C.sign key (envelope.transcript C).1⟩

/-- The strings have lengths that four bytes can hold. -/
structure Short : Prop where
  mission : (asBytes envelope.mission).length < 2 ^ 32
  event : (asBytes envelope.event).length < 2 ^ 32
  author : (asBytes envelope.author).length < 2 ^ 32

end Envelope

def SignedEnvelope.verify (C : Primitives) (signed : SignedEnvelope) (key : VerifyingKey) :
    Except WireError Unit :=
  if C.verifyStrict key (signed.envelope.transcript C).1 signed.signature then .ok ()
  else .error .badSignature

/-! ## Taking the bytes apart -/

theorem be_append {width n m : Nat} {rest rest' : Bytes} (fits : n < 256 ^ width)
    (fits' : m < 256 ^ width) (same : be width n ++ rest = be width m ++ rest') :
    n = m ∧ rest = rest' := by
  obtain ⟨numbers, rest⟩ := List.append_inj same (by simp only [be_length])
  exact ⟨be_injective fits fits' numbers, rest⟩

theorem be16_append {n m : UInt16} {rest rest' : Bytes}
    (same : be 2 n.toNat ++ rest = be 2 m.toNat ++ rest') : n = m ∧ rest = rest' := by
  obtain ⟨numbers, rest⟩ := be_append n.toNat_lt m.toNat_lt same
  exact ⟨UInt16.toNat_inj.mp numbers, rest⟩

theorem be32_append {n m : UInt32} {rest rest' : Bytes}
    (same : be 4 n.toNat ++ rest = be 4 m.toNat ++ rest') : n = m ∧ rest = rest' := by
  obtain ⟨numbers, rest⟩ := be_append n.toNat_lt m.toNat_lt same
  exact ⟨UInt32.toNat_inj.mp numbers, rest⟩

theorem be64_append {n m : UInt64} {rest rest' : Bytes}
    (same : be 8 n.toNat ++ rest = be 8 m.toNat ++ rest') : n = m ∧ rest = rest' := by
  obtain ⟨numbers, rest⟩ := be_append n.toNat_lt m.toNat_lt same
  exact ⟨UInt64.toNat_inj.mp numbers, rest⟩

theorem fixed_append {size : Nat} {field field' : {bytes : Bytes // bytes.length = size}}
    {rest rest' : Bytes} (same : field.1 ++ rest = field'.1 ++ rest') :
    field = field' ∧ rest = rest' := by
  obtain ⟨bytes, rest⟩ := List.append_inj same (field.2.trans field'.2.symm)
  exact ⟨Subtype.ext bytes, rest⟩

theorem prefixed_append {text other : String} {rest rest' : Bytes}
    (short : (asBytes text).length < 2 ^ 32) (short' : (asBytes other).length < 2 ^ 32)
    (same : prefixed text ++ rest = prefixed other ++ rest') : text = other ∧ rest = rest' := by
  rw [prefixed, prefixed, List.append_assoc, List.append_assoc] at same
  obtain ⟨lengths, same⟩ := be_append (by omega) (by omega) same
  obtain ⟨bytes, rest⟩ := List.append_inj same (by omega)
  exact ⟨asBytes_injective bytes, rest⟩

/-! ## Each form by itself -/

theorem compact_injective {envelope envelope' : CompactEnvelope} {hash hash' : Hash}
    (same : envelope.preimage hash = envelope'.preimage hash') :
    envelope = envelope' ∧ hash = hash' := by
  simp only [CompactEnvelope.preimage, RoundId.bytes, List.append_assoc,
    List.append_cancel_left_eq] at same
  obtain ⟨stage, same⟩ := List.append_inj same rfl
  obtain ⟨epoch, same⟩ := be16_append same
  obtain ⟨event, same⟩ := be32_append same
  obtain ⟨revision, same⟩ := be16_append same
  obtain ⟨heard, same⟩ := List.append_inj same (envelope.heard.size.trans envelope'.heard.size.symm)
  obtain ⟨opener, same⟩ := be16_append same
  obtain ⟨label, same⟩ := be32_append same
  obtain ⟨content, same⟩ := fixed_append same
  obtain ⟨reference, same⟩ := fixed_append same
  obtain ⟨startedAt, same⟩ := be64_append same
  obtain ⟨author, same⟩ := be16_append same
  obtain ⟨verdict, same⟩ := List.append_inj same rfl
  rw [← List.append_nil (be 8 envelope.sequence.toNat),
    ← List.append_nil (be 8 envelope'.sequence.toNat)] at same
  obtain ⟨sequence, -⟩ := be64_append same
  obtain ⟨_, _, _, _, _, _, _, _, _, ⟨_, _⟩, ⟨_, _⟩⟩ := envelope
  obtain ⟨_, _, _, _, _, _, _, _, _, ⟨_, _⟩, ⟨_, _⟩⟩ := envelope'
  simp_all

theorem full_injective {envelope envelope' : Envelope} (short : envelope.Short)
    (short' : envelope'.Short) (same : envelope.preimage = envelope'.preimage) :
    envelope = envelope' := by
  simp only [Envelope.preimage, List.append_assoc, List.append_cancel_left_eq] at same
  obtain ⟨stage, same⟩ := List.append_inj same rfl
  obtain ⟨mission, same⟩ := prefixed_append short.mission short'.mission same
  obtain ⟨event, same⟩ := prefixed_append short.event short'.event same
  obtain ⟨revision, same⟩ := be32_append same
  obtain ⟨content, same⟩ := fixed_append same
  obtain ⟨startedAt, same⟩ := be64_append same
  obtain ⟨author, same⟩ := prefixed_append short.author short'.author same
  obtain ⟨verdict, same⟩ := List.append_inj same rfl
  rw [← List.append_nil (be 8 envelope.sequence.toNat),
    ← List.append_nil (be 8 envelope'.sequence.toNat)] at same
  obtain ⟨sequence, -⟩ := be64_append same
  cases envelope
  cases envelope'
  simp_all

/-- The two domains part at their eighth byte. -/
theorem forms_apart (envelope : CompactEnvelope) (hash : Hash) (other : Envelope) :
    envelope.preimage hash ≠ other.preimage := by
  intro same
  have compact : (envelope.preimage hash)[7]? = some 99 := by
    simp only [CompactEnvelope.preimage, List.append_assoc]
    rw [List.getElem?_append_left (by decide)]
    decide
  have full : other.preimage[7]? = some 101 := by
    simp only [Envelope.preimage, List.append_assoc]
    rw [List.getElem?_append_left (by decide)]
    decide
  rw [same, full] at compact
  cases compact

/-! ## Both together -/

/-- What somebody can put a signature under. -/
inductive Utterance where
  | compact (envelope : CompactEnvelope) (contentHash : Hash)
  | full (envelope : Envelope)

namespace Utterance

def preimage : Utterance → Bytes
  | compact envelope contentHash => envelope.preimage contentHash
  | full envelope => envelope.preimage

def transcript (C : Primitives) : Utterance → Hash
  | compact envelope contentHash => envelope.transcript C contentHash
  | full envelope => envelope.transcript C

def Short : Utterance → Prop
  | compact _ _ => True
  | full envelope => envelope.Short

theorem transcript_eq (C : Primitives) (said : Utterance) :
    said.transcript C = C.blake2s256 said.preimage := by
  cases said <;> rfl

theorem preimage_injective {said said' : Utterance} (short : said.Short) (short' : said'.Short)
    (same : said.preimage = said'.preimage) : said = said' := by
  cases said with
  | compact envelope hash =>
    cases said' with
    | compact envelope' hash' =>
      obtain ⟨rfl, rfl⟩ := compact_injective same
      rfl
    | full other => exact absurd same (forms_apart envelope hash other)
  | full envelope =>
    cases said' with
    | compact other hash => exact absurd same.symm (forms_apart other hash envelope)
    | full envelope' => rw [full_injective short short' same]

end Utterance

/-- The hashed bytes determine what was said and in which form, so that two utterances with
one transcript are a collision of the hash. -/
theorem signed_bytes_faithful (C : Primitives) :
    (∀ (envelope envelope' : CompactEnvelope) (hash hash' : Hash),
      envelope.preimage hash = envelope'.preimage hash' → envelope = envelope' ∧ hash = hash') ∧
    (∀ envelope envelope' : Envelope, envelope.Short → envelope'.Short →
      envelope.preimage = envelope'.preimage → envelope = envelope') ∧
    (∀ (envelope : CompactEnvelope) (hash : Hash) (other : Envelope),
      envelope.preimage hash ≠ other.preimage) ∧
    ∀ said said' : Utterance, said.Short → said'.Short →
      said.transcript C = said'.transcript C → said ≠ said' →
        said.preimage ≠ said'.preimage ∧
          C.blake2s256 said.preimage = C.blake2s256 said'.preimage := by
  refine ⟨fun _ _ _ _ => compact_injective, fun _ _ => full_injective, forms_apart, ?_⟩
  intro said said' short short' same other
  rw [Utterance.transcript_eq, Utterance.transcript_eq] at same
  exact ⟨fun bytes => other (Utterance.preimage_injective short short' bytes), same⟩

/-- A letter moved from one name into the next gives other bytes. -/
theorem signed_bytes_faithful_moved :
    let hash : Hash := ⟨List.replicate 32 0, rfl⟩
    (Envelope.mk "ab" "c" 0 hash 0 "d" 3 1 1).preimage ≠
      (Envelope.mk "a" "bc" 0 hash 0 "d" 3 1 1).preimage := by
  intro hash same
  have names := (signed_bytes_faithful plain).2.1 _ _ ⟨by decide, by decide, by decide⟩
    ⟨by decide, by decide, by decide⟩ same
  exact absurd (congrArg Envelope.mission names) (by decide)

end Transcripts
