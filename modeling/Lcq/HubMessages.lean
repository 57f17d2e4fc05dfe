import Lcq.PrefixedStreams
import Lcq.VirtualChip

/-!
# The channel emulator's socket

What goes over the socket between a node and the hub: from the node raw frames,
to the node deliveries and notices of preambles, each behind its length. Either
end stops listening for good when a length or a message is not as it expects.
-/

namespace HubMessages

open ByteFormat PrefixedStreams RecordLog
open VirtualChip (Verdict Delivery)

deriving instance DecidableEq for VirtualChip.Delivery

/-- The largest message the socket will read. -/
def maxSocketFrameBytes : Nat := 4096

def deliveryTag : UInt8 := 0x02

def deliveryHeaderBytes : Nat := 9

def preambleTag : UInt8 := 0x03

def preambleBytes : Nat := 7

/-! ## Numbers -/

def le16 (n : Int16) : Bytes :=
  [.ofNat (n.toUInt16.toNat % 256), .ofNat (n.toUInt16.toNat / 256)]

def ofLe16 (low high : UInt8) : Int16 := (UInt16.ofNat (low.toNat + 256 * high.toNat)).toInt16

theorem ofLe16_le16 (n : Int16) :
    ofLe16 (.ofNat (n.toUInt16.toNat % 256)) (.ofNat (n.toUInt16.toNat / 256)) = n := by
  have bound := n.toUInt16.toNat_lt
  have whole : UInt16.ofNat ((UInt8.ofNat (n.toUInt16.toNat % 256)).toNat +
      256 * (UInt8.ofNat (n.toUInt16.toNat / 256)).toNat) = n.toUInt16 := by
    apply UInt16.toNat_inj.mp
    simp only [UInt16.toNat_ofNat', UInt8.toNat_ofNat']
    omega
  rw [ofLe16, whole]
  exact Int16.toInt16_toUInt16 n

theorem le16_ofLe16 (low high : UInt8) : le16 (ofLe16 low high) = [low, high] := by
  have small := low.toNat_lt
  have small' := high.toNat_lt
  have whole : (ofLe16 low high).toUInt16.toNat = low.toNat + 256 * high.toNat := by
    rw [ofLe16, UInt16.toUInt16_toInt16, UInt16.toNat_ofNat']
    omega
  rw [le16, whole]
  congr 1
  · apply UInt8.toNat_inj.mp
    rw [UInt8.toNat_ofNat']
    omega
  · congr 1
    apply UInt8.toNat_inj.mp
    rw [UInt8.toNat_ofNat']
    omega

theorem le32_ofLe32 (a b c d : UInt8) : le32 (ofLe32 [a, b, c, d]) = [a, b, c, d] := by
  have smallA := a.toNat_lt
  have smallB := b.toNat_lt
  have smallC := c.toNat_lt
  have smallD := d.toNat_lt
  simp only [le32, ofLe32, List.getD_cons_zero, List.getD_cons_succ, List.cons.injEq, and_true,
    ← UInt8.toNat_inj, UInt8.toNat_ofNat']
  omega

theorem ofLe32_toNat (a b c d : UInt8) :
    (UInt32.ofNat (ofLe32 [a, b, c, d])).toNat = ofLe32 [a, b, c, d] := by
  have smallA := a.toNat_lt
  have smallB := b.toNat_lt
  have smallC := c.toNat_lt
  have smallD := d.toNat_lt
  rw [UInt32.toNat_ofNat']
  simp only [ofLe32, List.getD_cons_zero, List.getD_cons_succ]
  omega

theorem ofNat_ofLe32 (n : UInt32) : UInt32.ofNat (ofLe32 (le32 n.toNat)) = n := by
  have read := ofLe32_le32 n.toNat n.toNat_lt []
  rw [List.append_nil] at read
  rw [read]
  exact UInt32.ofNat_toNat

/-! ## Deliveries -/

namespace Verdict

def byte : Verdict → UInt8
  | .decoded => 0
  | .headerError => 1
  | .crcError => 2

def fromByte : UInt8 → Option Verdict
  | 0 => some .decoded
  | 1 => some .headerError
  | 2 => some .crcError
  | _ => none

theorem fromByte_eq_some {code : UInt8} {verdict : Verdict} :
    fromByte code = some verdict ↔ byte verdict = code := by
  constructor
  · intro known
    unfold fromByte at known
    split at known <;> cases known <;> rfl
  · rintro rfl
    cases verdict <;> rfl

end Verdict

namespace Delivery

/-- Tag, RSSI, SNR, airtime, verdict, payload. -/
def encode (delivery : Delivery) : Bytes :=
  deliveryTag :: le16 delivery.rssiDbm ++ [delivery.snrDb.toUInt8] ++
    le32 delivery.airtimeMs.toNat ++ [Verdict.byte delivery.verdict] ++ delivery.bytes

def decode : Bytes → Option Delivery
  | tag :: r0 :: r1 :: snr :: a0 :: a1 :: a2 :: a3 :: verdict :: bytes =>
    if tag ≠ deliveryTag then none
    else (Verdict.fromByte verdict).map fun verdict =>
      { bytes
        rssiDbm := ofLe16 r0 r1
        snrDb := snr.toInt8
        airtimeMs := .ofNat (ofLe32 [a0, a1, a2, a3])
        verdict }
  | _ => none

theorem encode_length (delivery : Delivery) :
    (encode delivery).length = deliveryHeaderBytes + delivery.bytes.length := by
  simp [encode, le16, le32, deliveryHeaderBytes]
  omega

theorem decode_encode (delivery : Delivery) : decode (encode delivery) = some delivery := by
  have airtime := ofNat_ofLe32 delivery.airtimeMs
  have verdict := Verdict.fromByte_eq_some.mpr (Eq.refl (Verdict.byte delivery.verdict))
  have power := ofLe16_le16 delivery.rssiDbm
  unfold le32 at airtime
  simp only [encode, le16, le32, decode, List.cons_append, List.nil_append, verdict, power,
    airtime, ne_eq, not_true_eq_false, if_false, Option.map_some]
  rfl

theorem encode_of_decode {encoded : Bytes} {delivery : Delivery}
    (read : decode encoded = some delivery) : encode delivery = encoded := by
  unfold decode at read
  split at read
  · rename_i tag r0 r1 snr a0 a1 a2 a3 code bytes
    split at read
    · cases read
    · rename_i known
      obtain ⟨verdict, found, rfl⟩ := Option.map_eq_some_iff.mp read
      have tagged : tag = deliveryTag := not_not.mp known
      simp only [encode, le16_ofLe16, ofLe32_toNat, le32_ofLe32, Verdict.fromByte_eq_some.mp found,
        tagged, UInt8.toUInt8_toInt8, List.cons_append, List.nil_append]
  · cases read

end Delivery

/-! ## Notices -/

/-- A frame has just started at this receiver. -/
structure Preamble where
  rssiDbm : Int16
  airtimeMs : UInt32
  deriving DecidableEq

namespace Preamble

def encode (preamble : Preamble) : Bytes :=
  preambleTag :: le16 preamble.rssiDbm ++ le32 preamble.airtimeMs.toNat

def decode : Bytes → Option Preamble
  | [tag, r0, r1, a0, a1, a2, a3] =>
    if tag ≠ preambleTag then none
    else some ⟨ofLe16 r0 r1, .ofNat (ofLe32 [a0, a1, a2, a3])⟩
  | _ => none

theorem encode_length (preamble : Preamble) : preamble.encode.length = preambleBytes := rfl

theorem decode_encode (preamble : Preamble) : decode preamble.encode = some preamble := by
  have airtime := ofNat_ofLe32 preamble.airtimeMs
  have power := ofLe16_le16 preamble.rssiDbm
  unfold le32 at airtime
  simp only [encode, le16, le32, decode, List.cons_append, List.nil_append, power, airtime, ne_eq,
    not_true_eq_false, if_false]

theorem encode_of_decode {encoded : Bytes} {preamble : Preamble}
    (read : decode encoded = some preamble) : preamble.encode = encoded := by
  unfold decode at read
  split at read
  · split at read
    · cases read
    · rename_i tag r0 r1 a0 a1 a2 a3 known
      cases read
      have tagged : tag = preambleTag := not_not.mp known
      simp only [encode, le16_ofLe16, ofLe32_toNat, le32_ofLe32, tagged, List.cons_append,
        List.nil_append]
  · cases read

end Preamble

/-- Anything the hub sends a node. -/
inductive Inbound where
  | delivery (d : Delivery)
  | preamble (p : Preamble)
  deriving DecidableEq

namespace Inbound

def encode : Inbound → Bytes
  | .delivery d => Delivery.encode d
  | .preamble p => p.encode

def decode : Bytes → Option Inbound
  | [] => none
  | tag :: encoded =>
    if tag = deliveryTag then (Delivery.decode (tag :: encoded)).map .delivery
    else if tag = preambleTag then (Preamble.decode (tag :: encoded)).map .preamble
    else none

/-- The two kinds are told apart by their first byte. -/
theorem decode_encode (inbound : Inbound) : decode inbound.encode = some inbound := by
  cases inbound with
  | delivery d =>
    have tagged : ∃ rest, Delivery.encode d = deliveryTag :: rest := ⟨_, rfl⟩
    obtain ⟨rest, shape⟩ := tagged
    have read := Delivery.decode_encode d
    rw [shape] at read
    rw [encode, shape, decode, if_pos rfl, read]
    rfl
  | preamble p =>
    have tagged : ∃ rest, p.encode = preambleTag :: rest := ⟨_, rfl⟩
    obtain ⟨rest, shape⟩ := tagged
    have read := Preamble.decode_encode p
    rw [shape] at read
    rw [encode, shape, decode, if_neg (by decide), if_pos rfl, read]
    rfl

/-- What is accepted is exactly what is written. -/
theorem encode_of_decode {encoded : Bytes} {inbound : Inbound}
    (read : decode encoded = some inbound) : inbound.encode = encoded := by
  unfold decode at read
  split at read
  · cases read
  · split at read
    · obtain ⟨d, found, rfl⟩ := Option.map_eq_some_iff.mp read
      exact Delivery.encode_of_decode found
    · split at read
      · obtain ⟨p, found, rfl⟩ := Option.map_eq_some_iff.mp read
        exact Preamble.encode_of_decode found
      · cases read

end Inbound

/-! ## The two directions -/

/-- One frame from a node to the medium. -/
def send (stream frame : Bytes) : Bytes := stream ++ prefixed frame

def writeDelivery (stream : Bytes) (delivery : Delivery) : Bytes :=
  stream ++ prefixed (Delivery.encode delivery)

def writePreamble (stream : Bytes) (preamble : Preamble) : Bytes :=
  stream ++ prefixed preamble.encode

/-- What the node's thread makes of all that has come over the socket. -/
def readDeliveries (stream : Bytes) : Phase × List Inbound :=
  reads maxSocketFrameBytes Inbound.decode .between stream

/-- What the hub's thread for a node makes of more bytes. It takes any frame. -/
def readFrames (phase : Phase) (stream : Bytes) : Phase × List Bytes :=
  reads 4096 some phase stream

/-- What the reader takes: a delivery the hub wraps a frame in has a longer header than the
frame had. -/
def Fits : Inbound → Prop
  | .delivery d => deliveryHeaderBytes + d.bytes.length ≤ maxSocketFrameBytes
  | .preamble _ => True

instance (inbound : Inbound) : Decidable (Fits inbound) := by
  cases inbound <;> unfold Fits <;> infer_instance

theorem encode_length_iff (inbound : Inbound) :
    inbound.encode.length ≤ maxSocketFrameBytes ↔ Fits inbound := by
  cases inbound with
  | delivery d => rw [Inbound.encode, Delivery.encode_length, Fits]
  | preamble p => exact iff_of_true (by rw [Inbound.encode, Preamble.encode_length]; decide) trivial

theorem encode_ne_nil (inbound : Inbound) : inbound.encode ≠ [] := by
  cases inbound <;> exact List.cons_ne_nil _ _

theorem passes_iff (inbound : Inbound) :
    Passes maxSocketFrameBytes Inbound.decode inbound.encode inbound ↔ Fits inbound := by
  rw [← encode_length_iff]
  constructor
  · exact fun passes => passes.2.1
  · exact fun short => ⟨encode_ne_nil inbound, short, inbound.decode_encode⟩

/-- The node reads all it is written, and goes on listening, exactly if each message fits; one
that does not leaves it deaf. -/
theorem readDeliveries_iff (messages : List Inbound) :
    readDeliveries (messages.flatMap fun m => prefixed m.encode) = (.between, messages) ↔
      ∀ m ∈ messages, Fits m := by
  have small : maxSocketFrameBytes < 2 ^ 32 := by decide
  have all := reads_all_iff Inbound.decode Inbound.encode id small messages
  rw [List.map_id] at all
  exact all.trans (forall₂_congr fun m _ => passes_iff m)

theorem readDeliveries_deaf {messages : List Inbound} {m : Inbound} (mem : m ∈ messages)
    (long : ¬ Fits m) :
    (readDeliveries (messages.flatMap fun m => prefixed m.encode)).1 = .gone :=
  reads_deaf (by decide) mem (Or.inr (not_le.mp fun short => long ((encode_length_iff m).mp short)))

/-- The hub reads a node's frames in order as long as none is empty or past the limit. -/
theorem readFrames_iff (frames : List Bytes) :
    readFrames .between (frames.foldl send []) = (.between, frames) ↔
      ∀ frame ∈ frames, frame ≠ [] ∧ frame.length ≤ 4096 := by
  have stream : frames.foldl send [] = frames.flatMap fun frame => prefixed (id frame) := by
    rw [show send = fun stream frame => stream ++ prefixed frame from rfl,
      List.foldl_append_eq_append, List.nil_append, List.flatMap_def]
    rfl
  have small : 4096 < 2 ^ 32 := by decide
  have all := reads_all_iff some id id small frames
  rw [List.map_id, ← stream] at all
  refine all.trans (forall₂_congr fun frame _ => ⟨fun passes => ⟨passes.1, passes.2.1⟩, ?_⟩)
  exact fun taken => ⟨taken.1, taken.2, rfl⟩

/-- What the hub takes off a connection is never empty nor past the limit. -/
theorem readFrames_within {phase : Phase} (under : phase.Under 4096) (stream : Bytes) :
    (readFrames phase stream).1.Under 4096 ∧
      ∀ frame ∈ (readFrames phase stream).2, frame ≠ [] ∧ frame.length ≤ 4096 := by
  obtain ⟨under', passing⟩ := reads_passing some under stream
  refine ⟨under', fun frame mem => ?_⟩
  obtain ⟨message, some, short, same⟩ := passing frame mem
  cases same
  exact ⟨some, short⟩

end HubMessages
