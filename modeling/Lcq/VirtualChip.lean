import Lcq.CircularBuffers
import Lcq.SpiBus

/-!
# The virtual chip

The behavioural model of the radio chip, with a clock: its modes, its data
buffer, its interrupt register and its timers. Instants and durations are in
nanoseconds; every call reads the clock once.
-/

namespace VirtualChip

open ByteFormat BridgeProtocol CircularBuffers

/-- The commands the chip acts on or answers. -/
inductive Opcode where
  | writeRegister
  | readRegister
  | writeBuffer
  | readBuffer
  | setSleep
  | setStandby
  | setFs
  | setTx
  | setRx
  | setRxDutyCycle
  | setCad
  | setCadParams
  | getPacketType
  | setRfFrequency
  | setBufferBaseAddress
  | setModulationParams
  | setPacketParams
  | getRxBufferStatus
  | getPacketStatus
  | getRssiInst
  | getStats
  | cfgDioIrq
  | getIrqStatus
  | clrIrqStatus
  | getStatus
  | getDeviceErrors
  | clearDeviceErrors
  deriving DecidableEq

namespace Opcode

def ofByte : UInt8 → Option Opcode
  | 0x0D => some writeRegister
  | 0x1D => some readRegister
  | 0x0E => some writeBuffer
  | 0x1E => some readBuffer
  | 0x84 => some setSleep
  | 0x80 => some setStandby
  | 0xC1 => some setFs
  | 0x83 => some setTx
  | 0x82 => some setRx
  | 0x94 => some setRxDutyCycle
  | 0xC5 => some setCad
  | 0x88 => some setCadParams
  | 0x11 => some getPacketType
  | 0x86 => some setRfFrequency
  | 0x8F => some setBufferBaseAddress
  | 0x8B => some setModulationParams
  | 0x8C => some setPacketParams
  | 0x13 => some getRxBufferStatus
  | 0x14 => some getPacketStatus
  | 0x15 => some getRssiInst
  | 0x10 => some getStats
  | 0x08 => some cfgDioIrq
  | 0x12 => some getIrqStatus
  | 0x02 => some clrIrqStatus
  | 0xC0 => some getStatus
  | 0x17 => some getDeviceErrors
  | 0x07 => some clearDeviceErrors
  | _ => none

end Opcode

def irqTxDone : UInt16 := 0x0001
def irqRxDone : UInt16 := 0x0002
def irqPreambleDetected : UInt16 := 0x0004
def irqSyncwordValid : UInt16 := 0x0008
def irqHeaderValid : UInt16 := 0x0010
def irqHeaderErr : UInt16 := 0x0020
def irqCrcErr : UInt16 := 0x0040
def irqCadDone : UInt16 := 0x0080
def irqCadDetected : UInt16 := 0x0100
def irqTimeout : UInt16 := 0x0200

def packetTypeLora : UInt8 := 0x01
def rxContinuousTicks : Nat := 0x00FFFFFF
def tick : Nat := 15625
def busy : Nat := 100000
def lateToleranceFloor : Nat := 5000000
def idleRssiDbm : Int16 := -117
def bufferBytes : Nat := 256

instance : NeZero bufferBytes := ⟨by decide⟩

inductive ChipMode where
  | sleep
  | standbyRc
  | standbyXosc
  | frequencySynthesis
  | transmit
  | receive
  deriving DecidableEq

/-- The mode in a status byte. -/
def ChipMode.statusBits : ChipMode → UInt8
  | .sleep => 0x00
  | .standbyRc => 0x20
  | .standbyXosc => 0x30
  | .frequencySynthesis => 0x40
  | .receive => 0x50
  | .transmit => 0x60

structure Counters where
  transmitted : UInt32 := 0
  received : UInt32 := 0
  crcErrors : UInt32 := 0
  headerErrors : UInt32 := 0
  missedTransmitting : UInt32 := 0
  missedIdle : UInt32 := 0
  missedLate : UInt32 := 0
  timeouts : UInt32 := 0
  cadRuns : UInt32 := 0
  cadDetections : UInt32 := 0
  deriving DecidableEq

structure Packet where
  preambleSymbols : UInt16
  implicitHeader : Bool
  payloadLength : UInt8

inductive SpreadingFactor where
  | sf5 | sf6 | sf7 | sf8 | sf9 | sf10 | sf11 | sf12

inductive Bandwidth where
  | khz7 | khz10 | khz15 | khz20 | khz31 | khz41 | khz62 | khz125 | khz250 | khz500

inductive CodingRate where
  | of4Of5 | of4Of6 | of4Of7 | of4Of8

structure BaseBandModulationParams where
  sf : SpreadingFactor
  bw : Bandwidth
  cr : CodingRate

def spreadingFactorFromRaw : UInt8 → Option SpreadingFactor
  | 0x05 => some .sf5
  | 0x06 => some .sf6
  | 0x07 => some .sf7
  | 0x08 => some .sf8
  | 0x09 => some .sf9
  | 0x0A => some .sf10
  | 0x0B => some .sf11
  | 0x0C => some .sf12
  | _ => none

def bandwidthFromRaw : UInt8 → Option Bandwidth
  | 0x00 => some .khz7
  | 0x08 => some .khz10
  | 0x01 => some .khz15
  | 0x09 => some .khz20
  | 0x02 => some .khz31
  | 0x0A => some .khz41
  | 0x03 => some .khz62
  | 0x04 => some .khz125
  | 0x05 => some .khz250
  | 0x06 => some .khz500
  | _ => none

def codingRateFromRaw : UInt8 → Option CodingRate
  | 0x01 => some .of4Of5
  | 0x02 => some .of4Of6
  | 0x03 => some .of4Of7
  | 0x04 => some .of4Of8
  | _ => none

/-- How long symbols and frames last, which the chip takes from the modulation's own library. -/
structure Modulation where
  symbolDurationUs : BaseBandModulationParams → UInt32
  timeOnAirUs : BaseBandModulationParams → Option UInt8 → Bool → UInt8 → UInt32

inductive Verdict where
  | decoded
  | headerError
  | crcError
  deriving DecidableEq

/-- A frame as it ends at a receiver. -/
structure Delivery where
  bytes : Bytes
  rssiDbm : Int16
  snrDb : Int8
  airtimeMs : UInt32
  verdict : Verdict

/-- Minus twice the dBm value. -/
def rssiRaw (rssiDbm : Int16) : UInt8 := .ofNat (min 255 (-rssiDbm.toInt * 2)).toNat

/-- Four times the dB value, in two's complement. -/
def snrRaw (snrDb : Int8) : UInt8 := (Int8.ofInt (max (-128) (min 127 (snrDb.toInt * 4)))).toUInt8

/-- A timer carries the generation it was armed in. -/
inductive Timer where
  | txDone (after : Nat) (generation : UInt64)
  | rxTimeout (after : Nat) (generation : UInt64)
  | cadDone (after : Nat) (generation : UInt64) (detected : Bool)

namespace Timer

def generation : Timer → UInt64
  | txDone _ generation => generation
  | rxTimeout _ generation => generation
  | cadDone _ generation _ => generation

/-- The mode in which the timer acts. -/
def awaits : Timer → ChipMode
  | txDone .. => .transmit
  | rxTimeout .. => .receive
  | cadDone .. => .frequencySynthesis

end Timer

/-- A frame the medium said has started here. -/
structure OnAir where
  started : Nat
  preambleUntil : Nat
  ends : Nat

structure Model where
  mode : ChipMode := .standbyRc
  /-- The last write to a register first. -/
  registers : List (UInt16 × UInt8) := []
  buffer : Vector UInt8 bufferBytes := .replicate bufferBytes 0
  txBase : UInt8 := 0
  rxBase : UInt8 := 0
  modulation : Option BaseBandModulationParams := none
  packet : Packet := ⟨8, false, 0⟩
  frequencyRaw : UInt32 := 0
  irqStatus : UInt16 := 0
  irqMask : UInt16 := 0
  dio1Mask : UInt16 := 0
  rxLen : UInt8 := 0
  rxOffset : UInt8 := 0
  rssiRaw : UInt8 := 0
  snrRaw : UInt8 := 0
  rxSince : Option Nat := none
  rxContinuous : Bool := false
  /-- Mode changes since the chip was fresh; the generation is their low sixty-four bits. -/
  changes : Nat := 0
  busyUntil : Option Nat := none
  hostWake : Bool := false
  counters : Counters := {}
  onAir : List OnAir := []
  cadSymbols : UInt8 := 8

namespace Model

def fresh : Model := {}

variable (m : Model)

/-- Bumped on every mode change, so that a timer armed for an earlier mode is told apart. -/
def generation : UInt64 := .ofNat m.changes

def register (address : UInt16) : UInt8 := (m.registers.lookup address).getD 0

/-- Only what the mask lets through is stored. -/
def raise (bits : UInt16) : Model := { m with irqStatus := m.irqStatus ||| (bits &&& m.irqMask) }

def irqOnDio1 : Bool := m.irqStatus &&& m.dio1Mask != 0

def setMode (mode : ChipMode) : Model :=
  { m with
    mode
    rxSince := if mode = .receive then m.rxSince else none
    changes := m.changes + 1 }

end Model

/-! ## Commands without a clock -/

def byteAt (params : Bytes) (i : Nat) : UInt8 := params.getD i 0

def be16 (params : Bytes) (i : Nat) : UInt16 :=
  .ofNat ((byteAt params i).toNat * 256 + (byteAt params (i + 1)).toNat)

def be32 (params : Bytes) (i : Nat) : UInt32 :=
  .ofNat ((be16 params i).toNat * 65536 + (be16 params (i + 2)).toNat)

/-- Bytes written to registers, from an address on. -/
def writeRegisters (registers : List (UInt16 × UInt8)) (address : UInt16) (bytes : Bytes) :
    List (UInt16 × UInt8) :=
  bytes.zipIdx.foldl (fun held written =>
    (address + .ofNat (min written.2 65535), written.1) :: held) registers

namespace Model

variable (m : Model)

/-- Apply a command that changes state and answers nothing. -/
def configure (opcode : Option Opcode) (params : Bytes) : Model :=
  match opcode with
  | some .writeRegister =>
    { m with registers := writeRegisters m.registers (be16 params 0) (params.drop 2) }
  | some .writeBuffer =>
    { m with buffer := store m.buffer (byteAt params 0).toNat (params.drop 1) }
  | some .setSleep => m.setMode .sleep
  | some .setStandby => m.setMode (if byteAt params 0 = 1 then .standbyXosc else .standbyRc)
  | some .setFs => m.setMode .frequencySynthesis
  | some .setRfFrequency => { m with frequencyRaw := be32 params 0 }
  | some .setBufferBaseAddress =>
    { m with txBase := byteAt params 0, rxBase := byteAt params 1 }
  | some .setModulationParams =>
    match spreadingFactorFromRaw (byteAt params 0), bandwidthFromRaw (byteAt params 1),
      codingRateFromRaw (byteAt params 2) with
    | some sf, some bw, some cr => { m with modulation := some ⟨sf, bw, cr⟩ }
    | _, _, _ => m
  | some .setPacketParams =>
    { m with packet := ⟨be16 params 0, byteAt params 2 == 1, byteAt params 3⟩ }
  | some .cfgDioIrq => { m with irqMask := be16 params 0, dio1Mask := be16 params 2 }
  | some .clrIrqStatus => { m with irqStatus := m.irqStatus &&& ~~~ be16 params 0 }
  | _ => m

/-- What a command that only reads clocks out. -/
def answer (opcode : Opcode) (params : Bytes) : Bytes :=
  let status := m.mode.statusBits
  match opcode with
  | .readRegister =>
    (List.range 256).map fun offset => m.register (be16 params 0 + .ofNat offset)
  | .readBuffer => m.buffer.toList.drop (byteAt params 0).toNat
  | .getIrqStatus => [status, .ofNat (m.irqStatus.toNat / 256), .ofNat (m.irqStatus.toNat % 256)]
  | .getStatus => [status]
  | .getRxBufferStatus => [status, m.rxLen, m.rxOffset]
  | .getPacketStatus => [status, m.rssiRaw, m.snrRaw, m.rssiRaw]
  | .getRssiInst => [status, VirtualChip.rssiRaw idleRssiDbm]
  | .getPacketType => [status, packetTypeLora]
  | .getDeviceErrors | .clearDeviceErrors => [status, 0, 0]
  | .getStats => [status, 0, 0, 0, 0, 0, 0]
  | _ => []

end Model

/-! ## Commands with a clock -/

/-- What a chip is made with. -/
structure Inner where
  scale : Nat
  scaled : 0 < scale
  lockSymbols : UInt16
  modulation : Modulation

namespace Inner

variable (inner : Inner) (m : Model) (now : Nat)

def scaledTo (duration : Nat) : Nat := duration / inner.scale

def symbol : Nat :=
  match m.modulation with
  | none => 8000000
  | some params => (inner.modulation.symbolDurationUs params).toNat * 1000

/-- Time on the air for the buffer under the current parameters. -/
def airtime : Nat :=
  match m.modulation with
  | none => inner.scaledTo 1000000000
  | some params =>
    let preamble := if m.packet.preambleSymbols ≤ 255 then m.packet.preambleSymbols.toUInt8 else 255
    inner.scaledTo ((inner.modulation.timeOnAirUs params (some preamble)
      (!m.packet.implicitHeader) m.packet.payloadLength).toNat * 1000)

/-- How late a receiver may start listening and still catch a frame. -/
def lateTolerance : Nat :=
  max (inner.scaledTo (inner.symbol m) * (m.packet.preambleSymbols.toNat - inner.lockSymbols.toNat))
    lateToleranceFloor

/-- What a command came to, beside the chip: a timer to arm, and a frame for the medium. -/
structure Begun where
  model : Model
  reply : Bytes := []
  timer : Option Timer := none
  outbound : List Bytes := []

def beginTransmit : Begun :=
  let payload := load m.buffer m.txBase.toNat m.packet.payloadLength.toNat
  let after := inner.airtime m
  let sent := m.setMode .transmit
  let counters := { sent.counters with transmitted := sent.counters.transmitted + 1 }
  { model := { sent with counters }
    timer := some (.txDone after sent.generation)
    outbound := [payload] }

/-- Listen, forever or for the timeout. -/
def beginReceive (params : Bytes) : Begun :=
  let ticks := (byteAt params 0).toNat * 65536 + (byteAt params 1).toNat * 256 +
    (byteAt params 2).toNat
  let listening := m.setMode .receive
  let rxContinuous := ticks == rxContinuousTicks
  { model := { listening with rxSince := some now, rxContinuous }
    timer :=
      if ticks = 0 ∨ rxContinuous then none
      else some (.rxTimeout (inner.scaledTo (tick * ticks)) listening.generation) }

/-- Listen for a preamble, for as many symbols as are configured. -/
def beginCad : Begun :=
  let window := inner.scaledTo (inner.symbol m * m.cadSymbols.toNat)
  let onAir := m.onAir.filter fun frame => now < frame.ends
  let detected := onAir.any fun frame =>
    frame.started ≤ now + window && now ≤ frame.preambleUntil
  let looking := { m with onAir }.setMode .frequencySynthesis
  let counters :=
    { looking.counters with
      cadRuns := looking.counters.cadRuns + 1
      cadDetections := looking.counters.cadDetections + if detected then 1 else 0 }
  { model := { looking with counters }
    timer := some (.cadDone window looking.generation detected) }

def cadSymbolsOf : UInt8 → UInt8
  | 0x00 => 1
  | 0x01 => 2
  | 0x02 => 4
  | 0x04 => 16
  | _ => 8

/-- A chip asleep wakes into standby before it runs a command. -/
def woken : Model := if m.mode = .sleep then m.setMode .standbyRc else m

def carryOut (opcode : Option Opcode) (params : Bytes) : Begun :=
  match opcode with
  | some .readRegister | some .readBuffer | some .getIrqStatus | some .getStatus
  | some .getRxBufferStatus | some .getPacketStatus | some .getRssiInst | some .getPacketType
  | some .getDeviceErrors | some .clearDeviceErrors | some .getStats =>
    { model := m, reply := (opcode.map fun command => m.answer command params).getD [] }
  | some .setTx => inner.beginTransmit m
  | some .setRx | some .setRxDutyCycle =>
    inner.beginReceive m now params
  | some .setCadParams => { model := { m with cadSymbols := cadSymbolsOf (byteAt params 0) } }
  | some .setCad => inner.beginCad m now
  | opcode => { model := m.configure opcode params }

def execute (opcode : UInt8) (params : Bytes) : Begun :=
  let command := Opcode.ofByte opcode
  let begun := inner.carryOut (woken m) now command params
  if command = some .setSleep then begun
  else { begun with model := { begun.model with busyUntil := some (now + busy) } }

end Inner

/-! ## Frames, timers and the reset line -/

/-- What the host is told of a frame the chip missed. -/
def missed (why : String) (bytes : Nat) : String :=
  s!"\"event\":\"chip_missed\",\"why\":\"{why}\",\"bytes\":{bytes}"

namespace Inner

variable (inner : Inner) (m : Model) (now : Nat)

/-- The medium says a frame has just started here. -/
def noticePreamble (airtimeMs : UInt32) : Model :=
  let symbols := m.packet.preambleSymbols.toNat + 5
  { m with
    onAir := (m.onAir.filter fun frame => now < frame.ends) ++
      [⟨now, now + inner.scaledTo (inner.symbol m * symbols), now + airtimeMs.toNat * 1000000⟩] }

/-- When a frame that ends now started, as far back as the clock goes. -/
def startedAt (airtimeMs : UInt32) : Nat :=
  let airtime := airtimeMs.toNat * 1000000
  if airtime ≤ now then now - airtime else now

/-- The chip has been listening from the frame's start, or nearly. -/
def Listening (delivery : Delivery) : Prop :=
  m.mode = .receive ∧
    ∃ since ∈ m.rxSince, since ≤ startedAt now delivery.airtimeMs + inner.lateTolerance m

instance (delivery : Delivery) : Decidable (inner.Listening m now delivery) :=
  inferInstanceAs (Decidable (_ ∧ _))

end Inner

namespace Model

variable (m : Model)

/-- Count a frame that ended while the chip was not listening, and say why it is gone. -/
def miss (bytes : Nat) : Model × String :=
  match m.mode with
  | .transmit =>
    ({ m with counters :=
        { m.counters with missedTransmitting := m.counters.missedTransmitting + 1 } },
      missed "transmitting" bytes)
  | .receive =>
    ({ m with counters := { m.counters with missedLate := m.counters.missedLate + 1 } },
      missed "late" bytes)
  | .sleep | .standbyRc | .standbyXosc | .frequencySynthesis =>
    ({ m with counters := { m.counters with missedIdle := m.counters.missedIdle + 1 } },
      missed "idle" bytes)

/-- A frame's bytes go into the buffer, from the receive base on. -/
def keep (bytes : Bytes) : Model :=
  let length : UInt8 := .ofNat (min bytes.length 255)
  { m with
    buffer := store m.buffer m.rxBase.toNat (bytes.take length.toNat)
    rxLen := length
    rxOffset := m.rxBase }

/-- A single receive ends with its frame. -/
def settle : Model := if m.rxContinuous then m else m.setMode .standbyRc

/-- A frame has been heard from its start: received, intact or not, or its header lost. -/
def receive (delivery : Delivery) : Model :=
  let heard := { m with
    rssiRaw := VirtualChip.rssiRaw delivery.rssiDbm
    snrRaw := VirtualChip.snrRaw delivery.snrDb }
  let preamble := irqPreambleDetected ||| irqSyncwordValid
  let flags := preamble ||| irqHeaderValid ||| irqRxDone
  let kept := heard.keep delivery.bytes
  let counters := heard.counters
  match delivery.verdict with
  | .headerError =>
    { heard with counters := { counters with headerErrors := counters.headerErrors + 1 } }.raise
      (preamble ||| irqHeaderErr)
  | .decoded =>
    ({ kept with counters := { counters with received := counters.received + 1 } }.raise
      flags).settle
  | .crcError =>
    ({ kept with counters := { counters with crcErrors := counters.crcErrors + 1 } }.raise
      (flags ||| irqCrcErr)).settle

/-- The timer finds the mode and the generation it was armed in. -/
def Current (timer : Timer) : Prop := m.mode = timer.awaits ∧ m.generation = timer.generation

instance (timer : Timer) : Decidable (m.Current timer) := inferInstanceAs (Decidable (_ ∧ _))

def fire (timer : Timer) : Model :=
  if m.Current timer then
    let standing := m.setMode .standbyRc
    match timer with
    | .txDone .. => standing.raise irqTxDone
    | .rxTimeout .. =>
      let raised := standing.raise irqTimeout
      { raised with counters := { raised.counters with timeouts := raised.counters.timeouts + 1 } }
    | .cadDone _ _ detected =>
      standing.raise (if detected then irqCadDone ||| irqCadDetected else irqCadDone)
  else m

/-- The reset line: everything back to power-on, what has been counted apart. -/
def reset : Model := { fresh with counters := m.counters }

end Model

/-! ## The chip and its timers -/

/-- A timer asleep, with the resets before it was armed and the mode changes since the last. -/
structure Armed where
  timer : Timer
  resets : Nat
  changes : Nat

/-- The chip, the timers it armed, and what it sent to the medium and to the host. -/
structure World where
  model : Model := Model.fresh
  armed : List Armed := []
  outbound : List Bytes := []
  events : List String := []
  resets : Nat := 0

/-- What can happen to a chip next. -/
inductive Event where
  | command (now : Nat) (opcode : UInt8) (params : Bytes)
  | reset
  | delivery (now : Nat) (delivery : Delivery)
  | preamble (now : Nat) (airtimeMs : UInt32)
  | wakeHost
  | attended
  /-- A timer wakes, from its place among those asleep. -/
  | firing (place : Nat)

namespace World

variable (inner : Inner) (w : World) (now : Nat)

def arm (timer : Timer) : World :=
  { w with armed := w.armed ++ [⟨timer, w.resets, w.model.changes⟩] }

def execute (opcode : UInt8) (params : Bytes) : Bytes × World :=
  let begun := inner.execute w.model now opcode params
  let ran := { w with model := begun.model, outbound := w.outbound ++ begun.outbound }
  (begun.reply, match begun.timer with
    | none => ran
    | some timer => ran.arm timer)

def reset : World := { w with model := w.model.reset, resets := w.resets + 1 }

def deliver (delivery : Delivery) : World :=
  if inner.Listening w.model now delivery then { w with model := w.model.receive delivery }
  else
    let missed := w.model.miss delivery.bytes.length
    { w with model := missed.1, events := w.events ++ [missed.2] }

def fire (place : Nat) : World :=
  match w.armed[place]? with
  | none => w
  | some asleep =>
    { w with model := w.model.fire asleep.timer, armed := w.armed.eraseIdx place }

def step : Event → World
  | .command now opcode params => (w.execute inner now opcode params).2
  | .reset => w.reset
  | .delivery now delivery => w.deliver inner now delivery
  | .preamble now airtimeMs =>
    { w with model := inner.noticePreamble w.model now airtimeMs }
  | .wakeHost => { w with model := { w.model with hostWake := true } }
  | .attended => { w with model := { w.model with hostWake := false } }
  | .firing place => w.fire place

def run (events : List Event) : World := events.foldl (fun w event => w.step inner event) w

end World

/-- The chip on its bus, while the clock reads `now`. -/
def wired (inner : Inner) (now : Nat) : Chip World where
  execute := fun w opcode params => w.execute inner now opcode params
  reset := World.reset
  irqPending := fun w => w.model.irqOnDio1

theorem uncompressed : 0 < 1 := Nat.one_pos

/-- A chip whose time is not compressed. -/
def bench : Inner := ⟨1, uncompressed, 5, ⟨fun _ => 1024, fun _ _ _ _ => 100000⟩⟩

end VirtualChip
