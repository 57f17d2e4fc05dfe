import Lcq.BridgeReplies

/-!
# The bridged bus and the direct one

A transaction over the bridge goes out as one frame, is carried out by the
reference device and comes back as one frame. It does what the virtual bus does
on the same chip where no transfer's sides pull the two apart.
-/

namespace BridgedBus

open ByteFormat KissFrames BridgeProtocol SpiBus BridgeLink BridgeReplies

variable {S : Type} (chip : Chip S)

/-! ## The reference device -/

structure Device (S : Type) where
  deframer : Deframer
  chip : S
  session : UInt32
  eventsOn : Bool
  /-- The pending interrupt has been announced. -/
  reported : Bool

def firmware : UInt8 × UInt8 := (0, 2)
def boardVirtual : UInt8 := 0xFE

namespace Device

/-- Clear first, read second. -/
def watches (d : Device S) (on : Bool) : Device S :=
  { d with eventsOn := on, reported := chip.irqPending d.chip }

/-- What the device says to a request, and what becomes of it. -/
def handle (d : Device S) (command : UInt8) (payload : Bytes) : Message × Device S :=
  let level := Hello.flag (chip.irqPending d.chip)
  if command = Command.hello then
    (⟨Command.hello ||| reply,
      (⟨version, firmware, boardVirtual, d.session, false, chip.irqPending d.chip⟩ :
        Hello).encode⟩, d.watches chip true)
  else if command = Command.reset then
    (status Command.reset statusOk, { d with chip := chip.reset d.chip })
  else if command = Command.busy then
    (status Command.busy (if payload.length = 2 then statusOk else statusBadRequest), d)
  else if command = Command.pins then (⟨Command.pins ||| reply, [0, level]⟩, d)
  else if command = Command.rf then
    (status Command.rf (if payload = [0] ∨ payload = [1] ∨ payload = [2] then statusOk
      else statusBadRequest), d)
  else if command = Command.spi then
    let done := BridgeProtocol.Device.spi chip d.chip payload
    (done.1, { d with chip := done.2 })
  else if command = Command.events then
    match payload with
    | [on] => (⟨Command.events ||| reply, [level]⟩, d.watches chip (decide (on ≠ 0)))
    | _ => (status Command.events statusBadRequest, d)
  else (⟨eventError, [statusUnknownCommand, command]⟩, d)

/-- Handle the frames that came, in order. -/
def handleAll (d : Device S) : List Bytes → List Message × Device S
  | [] => ([], d)
  | [] :: frames => handleAll d frames
  | (command :: payload) :: frames =>
    let first := d.handle chip command payload
    let rest := handleAll first.2 frames
    (first.1 :: rest.1, rest.2)

/-- Bytes come in; what the device says to them. -/
def pump (d : Device S) (bytes : Bytes) : List Message × Device S :=
  let pushed := d.deframer.push bytes
  handleAll chip { d with deframer := pushed.1 } pushed.2

/-- The reference device answers a request it knows under its command, and any other with an
error event that names it. -/
theorem handle_answers (d : Device S) (command : UInt8) (payload : Bytes) :
    (command ∈ commands → (d.handle chip command payload).1.command = command ||| reply) ∧
      (command ∉ commands →
        (d.handle chip command payload).1 = ⟨eventError, [statusUnknownCommand, command]⟩) := by
  have spi (s : S) : (BridgeProtocol.Device.spi chip s payload).1.command =
      Command.spi ||| reply := by
    rw [BridgeProtocol.Device.spi]
    split
    · rfl
    · split <;> rfl
  constructor
  · intro known
    simp only [commands, List.mem_cons, List.not_mem_nil, or_false] at known
    rcases known with rfl | rfl | rfl | rfl | rfl | rfl | rfl
    all_goals first
      | rfl
      | exact spi d.chip
      | (rcases payload with _ | ⟨on, _ | _⟩ <;> rfl)
  · intro unknown
    simp only [commands, List.mem_cons, List.not_mem_nil, or_false, not_or] at unknown
    obtain ⟨h1, h2, h3, h4, h5, h6, h7⟩ := unknown
    simp only [handle, h1, h2, h3, h4, h5, h6, h7, if_false]

end Device

/-! ## A transaction over the line -/

/-- The two ends of the line. -/
structure Bridge (S : Type) where
  host : Deframer
  link : Link
  device : Device S

/-- Nothing is under way on the line. -/
structure Bridge.Idle (b : Bridge S) : Prop where
  host : b.host.Ready ∧ b.host.limit = frameLimit
  inbox : b.link.inbox = []
  device : b.device.deframer.Ready ∧ b.device.deframer.limit = frameLimit

/-- Write the request, let the device answer, take the answer off the line. -/
def Bridge.transaction (b : Bridge S) (operations : List Operation) :
    Except BridgeError (Ran S) :=
  let request : Message := ⟨Command.spi, encodeOperations operations⟩
  let served := b.device.pump chip request.line
  let frames := (b.host.push (served.1.flatMap Message.line)).2
  let inbox := b.link.inbox ++ frames.map fun bytes => .frame ⟨bytes, none⟩
  match (b.link.sift Command.spi inbox).1 with
  | none => .error (.timeout Command.spi)
  | some (.error e) => .error e
  | some (.ok answer) =>
    match Talk.settle operations answer.value with
    | .error e => .error e
    | .ok operations => .ok ⟨served.2.chip, operations⟩

/-- What the device does with an encoded transaction. -/
theorem spi_encoded (s : S) {operations : List Operation} (fits : Fits operations) :
    BridgeProtocol.Device.spi chip s (encodeOperations operations) =
      (⟨Command.spi ||| reply,
        statusOk :: answers (chip.command s (operations.flatMap Operation.padded)).1
          (operations.map Operation.sent)⟩,
        (chip.command s (operations.flatMap Operation.padded)).2) := by
  have bytes : (operations.map Operation.sent).flatMap Op.bytes =
      operations.flatMap Operation.padded := by
    rw [List.flatMap_map]
    refine List.flatMap_congr fun op _ => ?_
    cases op <;> rfl
  have short : ¬ frameLimit < wanted (operations.map Operation.sent) + 1 := by
    have := fits.2
    rw [wanted_sent]
    omega
  simp only [BridgeProtocol.Device.spi, decode_encode fits, if_neg short, bytes]

/-- Over an idle line, what a transaction that fits comes to. -/
theorem transaction_eq {b : Bridge S} (idle : b.Idle) {operations : List Operation}
    (fits : Fits operations) :
    b.transaction chip operations =
      .ok ⟨(chip.command b.device.chip (operations.flatMap Operation.padded)).2,
        BridgeSpi.fill (chip.command b.device.chip (operations.flatMap Operation.padded)).1
          operations⟩ := by
  obtain ⟨⟨hostReady, hostLimit⟩, empty, ⟨deviceReady, deviceLimit⟩⟩ := idle
  have spi := spi_encoded chip b.device.chip fits
  generalize replied : chip.command b.device.chip (operations.flatMap Operation.padded) = answer
    at spi ⊢
  have request := Deframer.push_encode deviceReady (show Command.spi ≠ fend by decide)
    (show Command.spi ≠ fesc by decide) (encodeOperations operations)
  rw [deviceLimit, if_pos fits.1] at request
  have back := Deframer.push_encode hostReady (show Command.spi ||| reply ≠ fend by decide)
    (show Command.spi ||| reply ≠ fesc by decide)
    (statusOk :: answers answer.1 (operations.map Operation.sent))
  have length : (statusOk :: answers answer.1 (operations.map Operation.sent)).length + 1 ≤
      frameLimit := by
    have := fits.2
    rw [List.length_cons, answers_length, wanted_sent]
    omega
  rw [hostLimit, if_pos length] at back
  have served : b.device.pump chip (Message.line ⟨Command.spi, encodeOperations operations⟩) =
      ([⟨Command.spi ||| reply, statusOk :: answers answer.1 (operations.map Operation.sent)⟩],
        { b.device with deframer := b.device.deframer.delimited, chip := answer.2 }) := by
    rw [Device.pump, Message.line, request]
    simp only [Device.handleAll, Device.handle]
    rw [spi]
    rfl
  have line : [(⟨Command.spi ||| reply,
      statusOk :: answers answer.1 (operations.map Operation.sent)⟩ : Message)].flatMap
        Message.line =
      encode (Command.spi ||| reply)
        (statusOk :: answers answer.1 (operations.map Operation.sent)) := by
    simp [Message.line]
  simp only [Bridge.transaction, served, line, back, empty, List.nil_append, List.map_cons,
    List.map_nil, Link.sift, if_pos, Talk.settle, scatter_answers]
  rfl

/-- A chip that keeps what it was handed last and answers always the same. -/
def recorder (answer : Bytes) : Chip Bytes where
  execute _ opcode params := (answer, opcode :: params)
  reset _ := []
  irqPending _ := false

theorem recorder_command (answer command : Bytes) :
    (recorder answer).command [] command = (if command = [] then [] else answer, command) := by
  cases command <;> rfl

/-- An idle bridge to a chip. -/
def idleBridge (s : S) : Bridge S where
  host := .new frameLimit
  link := .opened
  device := ⟨.new frameLimit, s, 1, false, false⟩

theorem idleBridge_idle (s : S) : (idleBridge s).Idle := ⟨⟨rfl, rfl⟩, rfl, ⟨rfl, rfl⟩⟩

/-- A transfer that writes more than it reads clocks something out. -/
theorem skipless {operations : List Operation}
    (command : operations.flatMap Operation.clocked = []) {op : Operation}
    (mem : op ∈ operations) : op.skip = 0 := by
  have none := List.flatMap_eq_nil_iff.mp command op mem
  cases op with
  | transfer buffer bytes =>
    have empty : bytes = [] := none
    simp [Operation.skip, empty]
  | _ => rfl

/-- A transaction that fits does over the bridge what it does on the virtual bus, on every
chip, exactly when its transfers are even. -/
theorem bridged_as_direct (operations : List Operation) (fits : Fits operations) :
    (∀ (S : Type) (chip : Chip S) (b : Bridge S), b.Idle →
      b.transaction chip operations =
        .ok (VirtualSpi.transaction chip b.device.chip operations)) ↔
      Even operations := by
  constructor
  · intro agree
    have ran (answer : Bytes) := Except.ok.inj
      ((transaction_eq (recorder answer) (idleBridge_idle []) fits).symm.trans
        (agree Bytes (recorder answer) (idleBridge []) (idleBridge_idle [])))
    simp only [VirtualSpi.transaction, idleBridge, recorder_command, Ran.mk.injEq] at ran
    have bytes := (ran []).1
    refine ⟨(padded_eq_iff operations).mp bytes, ?_⟩
    by_cases command : operations.flatMap Operation.clocked = []
    · exact List.pairwise_of_forall_mem_list fun op mem _ _ => Or.inl (skipless command mem)
    · simp only [bytes, if_neg command] at ran
      have filled := (fill_agree_iff (Nat.le_refl 0) operations).mp fun answer => by
        simpa using (ran answer).2.symm
      exact filled.2
  · rintro ⟨even, pairs⟩ S chip b idle
    have bytes := (padded_eq_iff operations).mpr even
    have filled := (fill_agree_iff (Nat.le_refl 0) operations).mpr ⟨Or.inl rfl, pairs⟩
    simp only [List.drop_zero] at filled
    rw [transaction_eq chip idle fits, VirtualSpi.transaction, bytes, filled]

/-- A command and its answer, as the driver lays them out. -/
def statusRead : List Operation := [.write [0x12], .read [0, 0, 0]]

theorem bridged_as_direct_read :
    (∀ (S : Type) (chip : Chip S) (b : Bridge S), b.Idle →
      b.transaction chip statusRead =
        .ok (VirtualSpi.transaction chip b.device.chip statusRead)) ↔ Even statusRead :=
  bridged_as_direct statusRead ⟨by decide, by decide⟩

/-- A transfer that reads a byte more than it writes: over the bridge the chip is handed a zero
behind the command. -/
theorem bridged_padded :
    ¬ ∀ operations : List Operation, Fits operations →
      ∀ (S : Type) (chip : Chip S) (b : Bridge S), b.Idle →
        b.transaction chip operations =
          .ok (VirtualSpi.transaction chip b.device.chip operations) := by
  intro agree
  have fits : Fits [.transfer [0, 0] [0x1E]] := ⟨by decide, by decide⟩
  have handed := agree [.transfer [0, 0] [0x1E]] fits Bytes (recorder []) (idleBridge [])
    (idleBridge_idle [])
  rw [transaction_eq (recorder []) (idleBridge_idle []) fits] at handed
  have chips := congrArg Ran.chip (Except.ok.inj handed)
  exact absurd chips (by decide)

end BridgedBus
