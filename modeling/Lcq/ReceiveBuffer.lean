import Lcq.VirtualChip

/-!
# What a driver reads back

A frame is kept from the receive base on, past the end of the buffer from its
start again; a read of the buffer stops at the end, and the bus fills what is
missing with zeros.
-/

namespace ReceiveBuffer

open ByteFormat BridgeProtocol SpiBus CircularBuffers VirtualChip

variable (inner : Inner) (now later : Nat)

/-! ## What a driver asks -/

/-- Ask for the length and the offset, past a status byte. -/
def askStatus (status length offset : UInt8) : List Operation :=
  [.write [0x13], .read [status], .read [length, offset]]

/-- Ask for the buffer from an offset on, past a byte that says nothing. -/
def askBuffer (offset nothing : UInt8) (buffer : Bytes) : List Operation :=
  [.write [0x1E, offset, nothing], .read buffer]

/-- The last buffer of a transaction. -/
def came (operations : List Operation) : Bytes :=
  match operations.getLast? with
  | some (.read buffer) => buffer
  | _ => []

/-- The status of the receive buffer, then as much of the buffer as it reports. -/
def readBack (nothing : UInt8) (w : World) : Bytes :=
  let asked := VirtualSpi.transaction (wired inner now) w (askStatus 0 0 0)
  match came asked.operations with
  | [length, offset] =>
    came (VirtualSpi.transaction (wired inner later) asked.chip
      (askBuffer offset nothing (List.replicate length.toNat 0))).operations
  | _ => []

/-! ## What the chip holds -/

/-- The buffer, and what the chip says of the frame in it. -/
structure Holds (m : Model) (buffer : Vector UInt8 bufferBytes) (length offset : UInt8) : Prop where
  buffer : m.buffer = buffer
  length : m.rxLen = length
  offset : m.rxOffset = offset

variable {m : Model} {buffer : Vector UInt8 bufferBytes} {length offset : UInt8}

theorem holds_mode (held : Holds m buffer length offset) (mode : ChipMode) :
    Holds (m.setMode mode) buffer length offset :=
  ⟨held.buffer, held.length, held.offset⟩

theorem holds_woken (held : Holds m buffer length offset) :
    Holds (Inner.woken m) buffer length offset := by
  unfold Inner.woken
  split
  · exact holds_mode held .standbyRc
  · exact held

theorem holds_settled (held : Holds m buffer length offset) :
    Holds m.settle buffer length offset := by
  unfold Model.settle
  split
  · exact held
  · exact holds_mode held .standbyRc

/-- An intact frame lies in the buffer from the receive base on. -/
theorem receive_holds (m : Model) {delivery : Delivery} (intact : delivery.verdict = .decoded)
    (fits : delivery.bytes.length ≤ 255) :
    Holds (m.receive delivery) (store m.buffer m.rxBase.toNat delivery.bytes)
      (.ofNat delivery.bytes.length) m.rxBase := by
  have length : min delivery.bytes.length 255 = delivery.bytes.length := Nat.min_eq_left fits
  have whole : delivery.bytes.take (UInt8.ofNat delivery.bytes.length).toNat = delivery.bytes := by
    rw [UInt8.toNat_ofNat', Nat.mod_eq_of_lt (by omega), List.take_length]
  have kept (heard : Model) : Holds (heard.keep delivery.bytes)
      (store heard.buffer heard.rxBase.toNat delivery.bytes) (.ofNat delivery.bytes.length)
      heard.rxBase := by
    refine ⟨?_, ?_, rfl⟩
    · rw [Model.keep, length, whole]
    · rw [Model.keep, length]
  rw [Model.receive, intact]
  refine holds_settled ?_
  have frame := kept { m with
    rssiRaw := VirtualChip.rssiRaw delivery.rssiDbm
    snrRaw := VirtualChip.snrRaw delivery.snrDb }
  exact ⟨frame.buffer, frame.length, frame.offset⟩

theorem deliver_holds {w : World} {ended : Nat} {delivery : Delivery}
    (heard : inner.Listening w.model ended delivery) (intact : delivery.verdict = .decoded)
    (fits : delivery.bytes.length ≤ 255) :
    Holds (w.deliver inner ended delivery).model
      (store w.model.buffer w.model.rxBase.toNat delivery.bytes)
      (.ofNat delivery.bytes.length) w.model.rxBase := by
  rw [World.deliver, if_pos heard]
  exact receive_holds w.model intact fits

/-! ## What the bus brings -/

theorem ask_status {w : World} (held : Holds w.model buffer length offset) :
    came (VirtualSpi.transaction (wired inner now) w (askStatus 0 0 0)).operations =
        [length, offset] ∧
      Holds (VirtualSpi.transaction (wired inner now) w (askStatus 0 0 0)).chip.model
        buffer length offset := by
  have woken := holds_woken held
  constructor
  · show [(Inner.woken w.model).rxLen, (Inner.woken w.model).rxOffset] = [length, offset]
    rw [woken.length, woken.offset]
  · exact ⟨woken.buffer, woken.length, woken.offset⟩

theorem ask_buffer {w : World} (held : Holds w.model buffer length offset) (nothing : UInt8)
    (room : Bytes) :
    came (VirtualSpi.transaction (wired inner now) w (askBuffer offset nothing room)).operations =
      supply (buffer.toList.drop offset.toNat) room.length := by
  have woken := holds_woken held
  show supply ((Inner.woken w.model).buffer.toList.drop offset.toNat) room.length = _
  rw [woken.buffer]

theorem read_back {w : World} (held : Holds w.model buffer length offset) (nothing : UInt8) :
    readBack inner now later nothing w =
      supply (buffer.toList.drop offset.toNat) length.toNat := by
  obtain ⟨asked, kept⟩ := ask_status inner now held
  rw [readBack, asked]
  dsimp only
  rw [ask_buffer inner later kept, List.length_replicate]

/-! ## Read back -/

/-- What a driver reads of a frame: the part before the end of the buffer, then zeros. -/
theorem read_frame {w : World} {ended : Nat} {delivery : Delivery}
    (heard : inner.Listening w.model ended delivery) (intact : delivery.verdict = .decoded)
    (fits : delivery.bytes.length ≤ 255) (nothing : UInt8) :
    readBack inner now later nothing (w.deliver inner ended delivery) =
      delivery.bytes.take (bufferBytes - w.model.rxBase.toNat) ++
        List.replicate (delivery.bytes.length - (bufferBytes - w.model.rxBase.toNat)) 0 := by
  have length : (UInt8.ofNat delivery.bytes.length).toNat = delivery.bytes.length := by
    rw [UInt8.toNat_ofNat', Nat.mod_eq_of_lt (by omega)]
  have small : delivery.bytes.length ≤ bufferBytes := Nat.le_succ_of_le fits
  rw [read_back inner now later (deliver_holds inner heard intact fits), length, supply,
    flat_store _ small, List.length_drop, Vector.length_toList]

/-- A frame is read back exactly if what lies past the end of the buffer, if anything does, is
all zeros. -/
theorem read_back_iff {w : World} {ended : Nat} {delivery : Delivery}
    (heard : inner.Listening w.model ended delivery) (intact : delivery.verdict = .decoded)
    (fits : delivery.bytes.length ≤ 255) (nothing : UInt8) :
    readBack inner now later nothing (w.deliver inner ended delivery) = delivery.bytes ↔
      ∀ byte ∈ delivery.bytes.drop (bufferBytes - w.model.rxBase.toNat), byte = 0 := by
  rw [read_frame inner now later heard intact fits]
  conv_lhs => rhs; rw [← List.take_append_drop (bufferBytes - w.model.rxBase.toNat) delivery.bytes]
  rw [List.append_cancel_left_eq, eq_comm, List.eq_replicate_iff, List.length_drop]
  exact and_iff_right rfl

/-- A chip that listens from the start, with this receive base. -/
def listener (base : UInt8) : World :=
  World.run bench {}
    [.command 0 0x8F [0, base], .command 0 0x82 [0xFF, 0xFF, 0xFF]]

/-- Three bytes, ten milliseconds after the receive began. -/
def frame : Delivery := ⟨[1, 2, 3], -60, 8, 10, .decoded⟩

theorem read_back_low :
    readBack bench 20000000 20000000 0 ((listener 128).deliver bench 10000000 frame) =
      frame.bytes := by
  have heard : bench.Listening (listener 128).model 10000000 frame := by decide
  have past : frame.bytes.drop (bufferBytes - (listener 128).model.rxBase.toNat) = [] := by decide
  refine (read_back_iff bench 20000000 20000000 heard rfl (by decide) 0).mpr ?_
  rw [past]
  exact List.forall_mem_nil _

/-- A frame of three bytes kept from the next to last byte on loses its last. -/
theorem read_back_wrapped :
    readBack bench 20000000 20000000 0 ((listener 254).deliver bench 10000000 frame) ≠
      frame.bytes := by
  rw [read_frame bench 20000000 20000000 (by decide) rfl (by decide) 0]
  decide

end ReceiveBuffer
