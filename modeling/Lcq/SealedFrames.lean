import Lcq.Wire

/-!
# A frame comes back as it was sealed

Every envelope, whatever its fields, fits the slot once it is signed, serialised
and sealed, and opening and decoding give back the author, the number, the
envelope and the signature.
-/

namespace SealedFrames

open ByteFormat Coder Contracts Wire

/-! ## The widest frame -/

def tagBytes : Nat := 16

/-- Every number at its longest. -/
theorem envelope_within : envelopeCoder.Within 60 :=
  .along (varint16_within.pair (varint32_within.pair (varint16_within.pair
    ((fixed_within 8).pair (varint64_within.pair (varint16_within.pair (byte_within.pair
      (byte_within.pair (varint64_within.pair ((fixed_within 8).pair
        (varint16_within.pair varint32_within))))))))))) _ _ _

theorem signature_within : signatureCoder.Within 65 := by
  intro signature w written
  have short : signature.1.length < 2 ^ 64 := by
    rw [signature.2]
    decide
  have length : varint64.write (UInt64.ofNat signature.1.length) = some [64] := by
    rw [signature.2]
    rfl
  change lengthed.write signature.1 = some w at written
  simp only [lengthed, if_pos short, length, Option.map_some] at written
  cases written
  rw [List.length_append, signature.2]
  exact Nat.le_refl _

theorem compact_within : compactCoder.Within 125 :=
  .along (envelope_within.pair signature_within) _ _ _

theorem encodeCompact_length {signed : SignedCompactEnvelope} {bytes : Bytes}
    (written : encodeCompact signed = .ok bytes) : bytes.length ≤ 125 := by
  unfold encodeCompact at written
  split at written
  · cases written
  · rename_i w made
    cases written
    exact compact_within signed bytes made

/-! ## Opening what was sealed -/

/-- What the authenticated encryption promises: a text of less than 256 GiB gets sixteen bytes
longer, and is opened again. -/
structure Aead (C : Primitives) : Prop where
  seals : ∀ key nonce aad text, text.length < 2 ^ 38 - 64 → ∃ sealed,
    C.encrypt key nonce aad text = some sealed ∧ sealed.length = text.length + tagBytes ∧
      C.decrypt key nonce aad sealed = some text

variable {C : Primitives}

theorem read_header (author : UInt16) (sequence : UInt64) (sealed : Bytes) :
    UInt16.ofNat (ofBe ((aadFor author sequence ++ sealed).take 2)) = author ∧
    UInt64.ofNat (ofBe (((aadFor author sequence ++ sealed).drop 2).take 8)) = sequence ∧
    (aadFor author sequence ++ sealed).drop frameHeaderBytes = sealed := by
  have front : (be 2 author.toNat ++ (be 8 sequence.toNat ++ sealed)).take 2 =
      be 2 author.toNat := List.take_left' (be_length _ _)
  have middle : (be 2 author.toNat ++ (be 8 sequence.toNat ++ sealed)).drop 2 =
      be 8 sequence.toNat ++ sealed := List.drop_left' (be_length _ _)
  have number : (be 8 sequence.toNat ++ sealed).take 8 = be 8 sequence.toNat :=
    List.take_left' (be_length _ _)
  have header : (aadFor author sequence).length = frameHeaderBytes := by
    simp [aadFor, frameHeaderBytes]
  refine ⟨?_, ?_, List.drop_left' header⟩
  · rw [aadFor, List.append_assoc, front, ofBe_be 2 _ author.toNat_lt, UInt16.ofNat_toNat]
  · rw [aadFor, List.append_assoc, middle, number, ofBe_be 8 _ sequence.toNat_lt,
      UInt64.ofNat_toNat]

theorem open_sealFrame (aead : Aead C) (key : GroupKey) (author : UInt16) (sequence : UInt64)
    {plaintext : Bytes} (short : plaintext.length < 2 ^ 38 - 64) :
    ∃ frame, sealFrame C key author sequence plaintext = .ok frame ∧
      frame.length = frameHeaderBytes + plaintext.length + tagBytes ∧
      openFrame C key frame = .ok (author, sequence, plaintext) := by
  obtain ⟨sealed, encrypted, length, decrypted⟩ :=
    aead.seals key (nonceFor author sequence) (aadFor author sequence) plaintext short
  obtain ⟨authorIs, sequenceIs, rest⟩ := read_header author sequence sealed
  have whole : (aadFor author sequence ++ sealed).length =
      frameHeaderBytes + plaintext.length + tagBytes := by
    rw [List.length_append, length]
    simp only [aadFor, List.length_append, be_length, frameHeaderBytes]
    omega
  refine ⟨aadFor author sequence ++ sealed, ?_, whole, ?_⟩
  · rw [sealFrame, «seal», encrypted]
    rfl
  · have long : ¬ (aadFor author sequence ++ sealed).length ≤ frameHeaderBytes := by
      rw [whole, tagBytes]
      omega
    simp only [openFrame, if_neg long, authorIs, sequenceIs, rest, «open», decrypted]

/-- Every signed envelope, under every header and key, makes a frame no wider than the slot,
which opens and decodes to what was sealed and whose header says so beforehand. -/
theorem frame_round_trip (C : Primitives) (aead : Aead C) (signed : SignedCompactEnvelope)
    (key : GroupKey) (author : UInt16) (sequence : UInt64) :
    ∃ plaintext frame, encodeCompact signed = .ok plaintext ∧
      sealFrame C key author sequence plaintext = .ok frame ∧ frame.length ≤ maxFrameBytes ∧
      openFrame C key frame = .ok (author, sequence, plaintext) ∧
      decodeCompact plaintext = .ok signed ∧ peekFrameHeader frame = .ok (author, sequence) := by
  obtain ⟨plaintext, encoded⟩ := encodeCompact_total signed
  have width := encodeCompact_length encoded
  obtain ⟨frame, made, length, opens⟩ :=
    open_sealFrame aead key author sequence (Nat.lt_of_le_of_lt width (by decide))
  refine ⟨plaintext, frame, encoded, made, ?_, opens, decodeCompact_encodeCompact encoded,
    peek_openFrame C opens⟩
  rw [length, maxFrameBytes, frameHeaderBytes, tagBytes]
  omega

theorem plain_aead : Aead plain where
  seals _ _ _ text _ := by
    refine ⟨text ++ List.replicate 16 0, rfl, by simp [tagBytes], ?_⟩
    simp [plain]

/-- The widest envelope of all, under the widest header. -/
def widest : SignedCompactEnvelope where
  envelope := {
    missionEpoch := 65535
    event := 4294967295
    revision := 65535
    case := ⟨List.replicate 8 255, rfl⟩
    startedAt := 18446744073709551615
    authorIndex := 65535
    stage := 255
    verdict := 255
    sequence := 18446744073709551615
    heard := ⟨List.replicate 8 255, rfl⟩
    round := ⟨65534, 4294967295⟩ }
  signature := ⟨List.replicate 64 255, rfl⟩

theorem frame_round_trip_widest : ∃ plaintext frame, encodeCompact widest = .ok plaintext ∧
    plaintext.length = 125 ∧
    sealFrame plain ⟨List.replicate 32 0, rfl⟩ 65535 18446744073709551615 plaintext = .ok frame ∧
    frame.length ≤ maxFrameBytes := by
  obtain ⟨plaintext, frame, encoded, made, fits, -⟩ :=
    frame_round_trip plain plain_aead widest ⟨List.replicate 32 0, rfl⟩ 65535 18446744073709551615
  have width : encodeCompact widest = .ok plaintext → plaintext.length = 125 := by
    rintro ⟨⟩
    decide
  exact ⟨plaintext, frame, encoded, width encoded, made, fits⟩

end SealedFrames
