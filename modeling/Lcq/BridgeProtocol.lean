import Lcq.KissFrames

/-!
# The bridge protocol

Requests and replies over the serial line, and what a device does with an `SPI`
request: the firmware, which clocks the operations out byte by byte, and the
reference device, which hands the chip model one command.
-/

namespace BridgeProtocol

open ByteFormat KissFrames

namespace Command

def hello : UInt8 := 0x01
def reset : UInt8 := 0x02
def busy : UInt8 := 0x03
def pins : UInt8 := 0x04
def rf : UInt8 := 0x05
def spi : UInt8 := 0x06
def events : UInt8 := 0x07

end Command

/-- Set on a request byte to make its reply. -/
def reply : UInt8 := 0x80

def eventDio1 : UInt8 := 0xE1
def eventError : UInt8 := 0xEE

def statusOk : UInt8 := 0
def statusTimeout : UInt8 := 1
def statusBadRequest : UInt8 := 2
def statusUnknownCommand : UInt8 := 4

def opWrite : UInt8 := 0
def opRead : UInt8 := 1
def opTransfer : UInt8 := 2
def opDelay : UInt8 := 3

def busyLimitMs : Nat := 100

/-- A frame as it is sent: the command byte and the payload. -/
structure Message where
  command : UInt8
  payload : Bytes
  deriving DecidableEq

namespace Message

variable (m : Message)

def line : Bytes := encode m.command m.payload

/-- The frame a receiver takes off the line. -/
def frame : Bytes := m.command :: m.payload

end Message

def status (command code : UInt8) : Message := ⟨command ||| reply, [code]⟩

/-! ## Operations -/

/-- One parsed operation of an `SPI` request, as the reference device sees it. -/
structure Op where
  kind : UInt8
  /-- Bytes to read back, or microseconds to pause. -/
  length : Nat
  /-- The bytes to clock out. -/
  bytes : Bytes
  deriving DecidableEq

def wordOf (low high : UInt8) : Nat := low.toNat + 256 * high.toNat

def decodeFrom : Nat → Bytes → Option (List Op)
  | _, [] => some []
  | fuel + 1, kind :: low :: high :: after =>
    let length := wordOf low high
    if kind = opWrite ∨ kind = opTransfer then
      if after.length < length then none
      else (decodeFrom fuel (after.drop length)).map (⟨kind, length, after.take length⟩ :: ·)
    else if kind = opRead ∨ kind = opDelay then
      (decodeFrom fuel after).map (⟨kind, length, []⟩ :: ·)
    else none
  | _, _ => none

/-- Parse an `SPI` request payload, if it is well formed. -/
def decodeOperations (payload : Bytes) : Option (List Op) := decodeFrom payload.length payload

namespace Op

variable (op : Op)

/-- Bytes the reply carries for an operation. -/
def returns : Nat := if op.kind = opRead ∨ op.kind = opTransfer then op.length else 0

end Op

def wanted (ops : List Op) : Nat := (ops.map Op.returns).sum

/-! ## The reference device -/

/-- The chip model, as its bus and its device use it. -/
structure Chip (S : Type) where
  execute : S → UInt8 → Bytes → Bytes × S
  reset : S → S
  irqPending : S → Bool

variable {S : Type} (chip : Chip S)

/-- A command of the chip, if any bytes were clocked out. -/
def Chip.command (s : S) : Bytes → Bytes × S
  | [] => ([], s)
  | opcode :: params => chip.execute s opcode params

/-- The next bytes of an answer, and zeros once it has run out. -/
def supply (answer : Bytes) (count : Nat) : Bytes :=
  answer.take count ++ List.replicate (count - answer.length) 0

/-- Every read filled from the answer, in order. -/
def answers : Bytes → List Op → Bytes
  | _, [] => []
  | answer, op :: ops => supply answer op.returns ++ answers (answer.drop op.returns) ops

namespace Device

/-- One transaction on the reference device. -/
def spi (s : S) (payload : Bytes) : Message × S :=
  match decodeOperations payload with
  | none => (status Command.spi statusBadRequest, s)
  | some ops =>
    if frameLimit < wanted ops + 1 then (status Command.spi statusTooLong, s)
    else
      let (answer, s) := chip.command s (ops.flatMap Op.bytes)
      (⟨Command.spi ||| reply, statusOk :: answers answer ops⟩, s)

end Device

/-! ## The firmware -/

/-- The board as the firmware drives it. -/
structure Board (W : Type) where
  /-- Whether BUSY goes low within so many milliseconds. -/
  waitBusyLow : W → Nat → Bool × W
  select : W → W
  deselect : W → W
  /-- One byte out, one byte in. -/
  clock : W → UInt8 → UInt8 × W
  delayMicroseconds : W → Nat → W

variable {W : Type} (board : Board W)

def Board.transferBytes : W → Bytes → Bytes × W
  | w, [] => ([], w)
  | w, byte :: bytes =>
    let first := board.clock w byte
    let rest := Board.transferBytes first.2 bytes
    (first.1 :: rest.1, rest.2)

namespace Firmware

/-- Check the operation list and add up what it reads back. -/
def spiReadTotal : Nat → Bytes → Nat → Option Nat
  | _, [], total => some total
  | fuel + 1, kind :: low :: high :: p, total =>
    let n := wordOf low high
    if kind = opWrite then if p.length < n then none else spiReadTotal fuel (p.drop n) total
    else if kind = opRead then spiReadTotal fuel p (total + n)
    else if kind = opTransfer then
      if p.length < n then none else spiReadTotal fuel (p.drop n) (total + n)
    else if kind = opDelay then spiReadTotal fuel p total
    else none
  | _, _, _ => none

/-- Clock a checked operation list out; what came back, in order. -/
def clockOut : Nat → Bytes → W → Bytes × W
  | fuel + 1, kind :: low :: high :: p, w =>
    let n := wordOf low high
    if kind = opWrite then clockOut fuel (p.drop n) (board.transferBytes w (p.take n)).2
    else if kind = opRead then
      -- the chip clocks its answer out against zeros
      let came := board.transferBytes w (List.replicate n 0)
      let rest := clockOut fuel p came.2
      (came.1 ++ rest.1, rest.2)
    else if kind = opTransfer then
      let came := board.transferBytes w (p.take n)
      let rest := clockOut fuel (p.drop n) came.2
      (came.1 ++ rest.1, rest.2)
    else if kind = opDelay then clockOut fuel p (board.delayMicroseconds w n)
    else clockOut fuel p w
  | _, _, w => ([], w)

def handleSpi (w : W) (p : Bytes) : Message × W :=
  match spiReadTotal p.length p 0 with
  | none => (status Command.spi statusBadRequest, w)
  | some total =>
    if frameLimit < total + 1 then (status Command.spi statusTooLong, w)
    else
      match board.waitBusyLow w busyLimitMs with
      | (false, w) => (status Command.spi statusTimeout, w)
      | (true, w) =>
        let (came, w) := clockOut board p.length p (board.select w)
        (⟨Command.spi ||| reply, statusOk :: came⟩, board.deselect w)

/-- A frame as the firmware writes it out. -/
def sendFrame (command : UInt8) (payload : Bytes) : Bytes :=
  payload.foldl (fun encoded byte =>
    if byte = fend then encoded ++ [fesc] ++ [tfend]
    else if byte = fesc then encoded ++ [fesc] ++ [tfesc]
    else encoded ++ [byte]) [fend, command] ++ [fend]

end Firmware

/-! ## Both add up the same -/

theorem board_transfer_length (w : W) (bytes : Bytes) :
    (board.transferBytes w bytes).1.length = bytes.length := by
  induction bytes generalizing w with
  | nil => rfl
  | cons byte bytes ih => simp [Board.transferBytes, ih]

/-- The firmware writes frames as the host does. -/
theorem sendFrame_eq (command : UInt8) (payload : Bytes) :
    Firmware.sendFrame command payload = encode command payload := by
  have folded (encoded : Bytes) : payload.foldl (fun encoded byte =>
      if byte = fend then encoded ++ [fesc] ++ [tfend]
      else if byte = fesc then encoded ++ [fesc] ++ [tfesc]
      else encoded ++ [byte]) encoded = encoded ++ payload.flatMap escape := by
    induction payload generalizing encoded with
    | nil => simp
    | cons byte payload ih =>
      rw [List.foldl_cons, ih, List.flatMap_cons, escape]
      split
      · simp
      · split <;> simp
  rw [Firmware.sendFrame, folded, encode]

/-- One operation more in front. -/
theorem map_total (ops : Option (List Op)) (op : Op) (total : Nat) :
    ops.map ((fun ops => total + wanted ops) ∘ fun rest => op :: rest) =
      ops.map fun ops => total + op.returns + wanted ops := by
  cases ops with
  | none => rfl
  | some ops => simp [wanted, Nat.add_assoc]

/-- The firmware's total is what the reference device adds up, of the same requests. -/
theorem spiReadTotal_eq (fuel : Nat) (p : Bytes) (total : Nat) :
    Firmware.spiReadTotal fuel p total = (decodeFrom fuel p).map fun ops => total + wanted ops := by
  induction fuel generalizing p total with
  | zero => rcases p with _ | ⟨_, _ | ⟨_, _ | _⟩⟩ <;> rfl
  | succ fuel ih =>
    rcases p with _ | ⟨kind, _ | ⟨low, _ | ⟨high, p⟩⟩⟩
    · rfl
    · rfl
    · rfl
    · simp only [Firmware.spiReadTotal, decodeFrom]
      by_cases write : kind = opWrite
      · subst write
        by_cases short : p.length < wordOf low high
        · simp [short]
        · simp [short, ih, map_total, Op.returns, opWrite, opRead, opTransfer]
      · by_cases read : kind = opRead
        · subst read
          simp [ih, map_total, Op.returns, opWrite, opRead, opTransfer]
        · by_cases transfer : kind = opTransfer
          · subst transfer
            by_cases short : p.length < wordOf low high
            · simp [short, opWrite, opRead, opTransfer]
            · simp [short, ih, map_total, Op.returns, opWrite, opRead, opTransfer]
          · by_cases delay : kind = opDelay
            · subst delay
              simp [ih, map_total, Op.returns, opWrite, opRead, opTransfer, opDelay]
            · simp [write, read, transfer, delay]

/-- What the firmware clocks in is as long as it added up. -/
theorem clockOut_length {fuel : Nat} {p : Bytes} {total back : Nat} (w : W)
    (checked : Firmware.spiReadTotal fuel p total = some back) :
    total + (Firmware.clockOut board fuel p w).1.length = back := by
  induction fuel generalizing p total w with
  | zero =>
    rcases p with _ | ⟨_, _ | ⟨_, _ | _⟩⟩
    · simpa [Firmware.spiReadTotal, Firmware.clockOut] using checked
    all_goals cases checked
  | succ fuel ih =>
    rcases p with _ | ⟨kind, _ | ⟨low, _ | ⟨high, p⟩⟩⟩
    · simpa [Firmware.spiReadTotal, Firmware.clockOut] using checked
    · cases checked
    · cases checked
    · simp only [Firmware.spiReadTotal] at checked
      simp only [Firmware.clockOut]
      by_cases write : kind = opWrite
      · rw [if_pos write] at checked ⊢
        split at checked
        · cases checked
        · exact ih _ checked
      · rw [if_neg write] at checked ⊢
        by_cases read : kind = opRead
        · rw [if_pos read] at checked ⊢
          have rest := ih (board.transferBytes w (List.replicate (wordOf low high) 0)).2 checked
          simp only [List.length_append, board_transfer_length, List.length_replicate]
          omega
        · rw [if_neg read] at checked ⊢
          by_cases transfer : kind = opTransfer
          · rw [if_pos transfer] at checked ⊢
            split at checked
            · cases checked
            · next enough =>
              have rest := ih (board.transferBytes w (p.take (wordOf low high))).2 checked
              simp only [List.length_append, board_transfer_length, List.length_take]
              omega
          · rw [if_neg transfer] at checked ⊢
            by_cases delay : kind = opDelay
            · rw [if_pos delay] at checked ⊢
              exact ih _ checked
            · rw [if_neg delay] at checked
              cases checked

theorem supply_length (answer : Bytes) (count : Nat) : (supply answer count).length = count := by
  simp only [supply, List.length_append, List.length_take, List.length_replicate]
  omega

theorem answers_length (answer : Bytes) (ops : List Op) :
    (answers answer ops).length = wanted ops := by
  induction ops generalizing answer with
  | nil => rfl
  | cons op ops ih => simp [answers, supply_length, ih, wanted]

/-! ## What the host can receive -/

/-- What a request asks to have read back, if it is well formed. -/
def askedBack (payload : Bytes) : Option Nat := (decodeOperations payload).map wanted

theorem spiReadTotal_asked (payload : Bytes) :
    Firmware.spiReadTotal payload.length payload 0 = askedBack payload := by
  rw [spiReadTotal_eq, askedBack, decodeOperations]
  congr 1
  funext ops
  exact Nat.zero_add _

/-- A reply is received, however its bytes are cut: between frames, the host's deframer gives
it whole. -/
def Received (m : Message) : Prop :=
  ∀ d : Deframer, d.Ready → d.limit = frameLimit → ∀ chunks : List Bytes,
    chunks.flatten = m.line → (Transducers.feedChunks Deframer.pushByte d chunks).2 = [m.frame]

theorem received_iff {m : Message} (notEnd : m.command ≠ fend) (notEscape : m.command ≠ fesc) :
    Received m ↔ m.payload.length + 1 ≤ frameLimit := by
  have pushed (d : Deframer) (ready : d.Ready) (limit : d.limit = frameLimit) :
      (Transducers.feed Deframer.pushByte d m.line).2 =
        if m.payload.length + 1 ≤ frameLimit then [m.frame] else [] := by
    have whole := Deframer.push_encode ready notEnd notEscape m.payload
    rw [Deframer.push, limit] at whole
    rw [Message.line, whole]
    rfl
  constructor
  · intro received
    have whole := received (.new frameLimit) rfl rfl [m.line] (by simp)
    rw [Transducers.feedChunks_eq] at whole
    by_contra long
    rw [show [m.line].flatten = m.line by simp, pushed (.new frameLimit) rfl rfl, if_neg long]
      at whole
    cases whole
  · intro fits d ready limit chunks same
    rw [Transducers.feedChunks_eq, same, pushed d ready limit, if_pos fits]

/-- A request whose answer would not fit a frame is refused as too long. -/
def Refused (payload : Bytes) (m : Message) : Prop :=
  ∀ back, askedBack payload = some back → frameLimit < back + 2 →
    m = status Command.spi statusTooLong

/-- A reply to `SPI` is received if its payload leaves room for the command byte. -/
theorem received_spi (payload : Bytes) :
    Received ⟨Command.spi ||| reply, payload⟩ ↔ payload.length + 1 ≤ frameLimit :=
  received_iff (m := ⟨Command.spi ||| reply, payload⟩)
    (show Command.spi ||| reply ≠ fend by decide) (show Command.spi ||| reply ≠ fesc by decide)

theorem received_status (code : UInt8) : Received (status Command.spi code) := by
  apply (received_spi [code]).mpr
  rw [List.length_singleton]
  decide

/-- What both devices count the frame without, the command byte, is one byte too many at one
length. -/
def boundary : Nat := 1099

/-- A reply that carries a checked total back. -/
theorem carried_iff {payload back : Bytes} (asked : askedBack payload = some back.length)
    (allowed : back.length + 1 ≤ frameLimit) :
    (Received ⟨Command.spi ||| reply, statusOk :: back⟩ ∧
        Refused payload ⟨Command.spi ||| reply, statusOk :: back⟩) ↔
      askedBack payload ≠ some boundary := by
  have limit : frameLimit = 1100 := rfl
  rw [received_spi, List.length_cons, asked, boundary]
  constructor
  · rintro ⟨room, -⟩ same
    have := Option.some.inj same
    omega
  · intro other
    have below : back.length ≠ 1099 := fun same => other (congrArg some same)
    refine ⟨by omega, fun count same long => ?_⟩
    rw [asked] at same
    have := Option.some.inj same
    omega

/-- A request refused outright is refused at no boundary. -/
theorem refused_iff {payload : Bytes} (code : UInt8)
    (refused : Refused payload (status Command.spi code) ↔ askedBack payload ≠ some boundary) :
    (Received (status Command.spi code) ∧ Refused payload (status Command.spi code)) ↔
      askedBack payload ≠ some boundary :=
  ⟨fun both => refused.mp both.2, fun other => ⟨received_status code, refused.mpr other⟩⟩

/-- A status that says anything but too long refuses nothing. -/
theorem refused_other {payload : Bytes} {code : UInt8} (other : code ≠ statusTooLong) {back : Nat}
    (asked : askedBack payload = some back) (allowed : back + 1 ≤ frameLimit) :
    Refused payload (status Command.spi code) ↔ askedBack payload ≠ some boundary := by
  have limit : frameLimit = 1100 := rfl
  have differs : status Command.spi code ≠ status Command.spi statusTooLong := by
    intro same
    exact other (List.cons.inj (Message.mk.inj same).2).1
  constructor
  · intro refused same
    exact differs (refused boundary same (by decide))
  · intro apart count same long
    rw [asked] at same apart
    have := Option.some.inj same
    have : back ≠ 1099 := fun equal => apart (congrArg some equal)
    omega

theorem refused_malformed {payload : Bytes} {m : Message} (malformed : askedBack payload = none) :
    Refused payload m ↔ askedBack payload ≠ some boundary := by
  constructor
  · intro _ same
    cases malformed.symm.trans same
  · intro _ back same
    cases malformed.symm.trans same

theorem refused_tooLong {payload : Bytes} {back : Nat} (asked : askedBack payload = some back)
    (long : frameLimit < back + 1) :
    Refused payload (status Command.spi statusTooLong) ↔ askedBack payload ≠ some boundary := by
  have limit : frameLimit = 1100 := rfl
  constructor
  · intro _ same
    have : back = 1099 := Option.some.inj (asked.symm.trans same)
    omega
  · intro _ _ _ _
    rfl

/-- What the firmware answers is received, and what would not fit refused, except at the
boundary. -/
theorem firmware_receivable (payload : Bytes) (w : W) :
    (Received (Firmware.handleSpi board w payload).1 ∧
        Refused payload (Firmware.handleSpi board w payload).1) ↔
      askedBack payload ≠ some boundary := by
  rw [Firmware.handleSpi]
  cases checked : Firmware.spiReadTotal payload.length payload 0 with
  | none =>
    have malformed : askedBack payload = none := by rw [← spiReadTotal_asked, checked]
    exact refused_iff _ (refused_malformed malformed)
  | some back =>
    have asked : askedBack payload = some back := by rw [← spiReadTotal_asked, checked]
    by_cases long : frameLimit < back + 1
    · simp only [if_pos long]
      exact refused_iff _ (refused_tooLong asked long)
    · simp only [if_neg long]
      rcases board.waitBusyLow w busyLimitMs with ⟨_ | _, waited⟩
      · exact refused_iff _ (refused_other (by decide) asked (by omega))
      · have whole := clockOut_length board (board.select waited) checked
        rw [Nat.zero_add] at whole
        exact carried_iff (by rw [asked, whole]) (by omega)

/-- So it is with the reference device. -/
theorem device_receivable (payload : Bytes) (s : S) :
    (Received (Device.spi chip s payload).1 ∧ Refused payload (Device.spi chip s payload).1) ↔
      askedBack payload ≠ some boundary := by
  rw [Device.spi]
  cases decoded : decodeOperations payload with
  | none =>
    have malformed : askedBack payload = none := by rw [askedBack, decoded]; rfl
    exact refused_iff _ (refused_malformed malformed)
  | some ops =>
    have asked : askedBack payload = some (wanted ops) := by rw [askedBack, decoded]; rfl
    by_cases long : frameLimit < wanted ops + 1
    · simp only [if_pos long]
      exact refused_iff _ (refused_tooLong asked long)
    · simp only [if_neg long]
      have carried (answer : Bytes) := answers_length answer ops
      exact carried_iff (by rw [asked, carried]) (by rw [carried]; omega)

/-- Both devices answer every request with a frame the host receives, and refuse what would
not fit, except at the boundary. -/
theorem replies_receivable (payload : Bytes) (w : W) (s : S) :
    ((Received (Firmware.handleSpi board w payload).1 ∧
        Refused payload (Firmware.handleSpi board w payload).1) ↔
      askedBack payload ≠ some boundary) ∧
    ((Received (Device.spi chip s payload).1 ∧ Refused payload (Device.spi chip s payload).1) ↔
      askedBack payload ≠ some boundary) :=
  ⟨firmware_receivable board payload w, device_receivable chip payload s⟩

/-- A read of a length whose answer is one byte too long for the host, and not refused. -/
def boundaryRead : Bytes := [opRead, 0x4B, 0x04]

/-- A board with nothing on its wires. -/
def bareBoard : Board Unit where
  waitBusyLow w _ := (true, w)
  select := id
  deselect := id
  clock w _ := (0, w)
  delayMicroseconds w _ := w

/-- A chip that answers nothing. -/
def mute : Chip Unit where
  execute s _ _ := ([], s)
  reset := id
  irqPending _ := false

theorem replies_lost :
    boundaryRead.length + 1 ≤ frameLimit ∧
      ¬ (Received (Firmware.handleSpi bareBoard () boundaryRead).1 ∧
        Refused boundaryRead (Firmware.handleSpi bareBoard () boundaryRead).1) ∧
      ¬ (Received (Device.spi mute () boundaryRead).1 ∧
        Refused boundaryRead (Device.spi mute () boundaryRead).1) := by
  have asked : askedBack boundaryRead = some boundary := by decide
  refine ⟨by decide, fun both => ?_, fun both => ?_⟩
  · exact (firmware_receivable bareBoard boundaryRead ()).mp both asked
  · exact (device_receivable mute boundaryRead ()).mp both asked

end BridgeProtocol
