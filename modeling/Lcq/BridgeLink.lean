import Lcq.SpiBus

/-!
# The host's end of the bridge

The host writes a request and waits for a frame that carries its command byte
with the reply bit; what else arrives meanwhile is latched or dropped. The
device answers in the order it was asked, whenever it pleases, and may restart,
which gives it a new life and a new session number.
-/

namespace BridgeLink

open ByteFormat KissFrames BridgeProtocol SpiBus

/-- Which request a frame answers and which life of the device sent it. A ghost: the line
carries nothing of it. -/
structure Origin where
  request : Nat
  life : Nat
  session : UInt32
  deriving DecidableEq

structure Frame where
  bytes : Bytes
  origin : Option Origin
  deriving DecidableEq

inductive Inbound where
  | frame (f : Frame)
  | wake
  | gone
  deriving DecidableEq

inductive BridgeError where
  | port
  | timeout (command : UInt8)
  | gone
  | status (command code : UInt8)
  | device (command code : UInt8)
  | protocol (what : String)
  | reset (met now : UInt32)
  deriving DecidableEq

/-- What was made of a reply, and where the reply came from. -/
structure Answer (α : Type) where
  value : α
  origin : Option Origin
  deriving DecidableEq

structure Activity where
  irq : Bool
  host : Bool
  deriving DecidableEq

/-! ## Who is there -/

def version : UInt8 := 2

structure Hello where
  protocol : UInt8
  firmware : UInt8 × UInt8
  board : UInt8
  session : UInt32
  busy : Bool
  dio1 : Bool
  deriving DecidableEq

namespace Hello

def sessionBytes (session : UInt32) : Bytes :=
  [.ofNat (session.toNat % 256), .ofNat (session.toNat / 256 % 256),
    .ofNat (session.toNat / 65536 % 256), .ofNat (session.toNat / 16777216)]

def sessionOf (s0 s1 s2 s3 : UInt8) : UInt32 :=
  .ofNat (s0.toNat + 256 * s1.toNat + 65536 * s2.toNat + 16777216 * s3.toNat)

def flag (b : Bool) : UInt8 := if b then 1 else 0

def encode (hello : Hello) : Bytes :=
  [hello.protocol, hello.firmware.1, hello.firmware.2, hello.board] ++
    sessionBytes hello.session ++ [flag hello.busy, flag hello.dio1]

def parse : Bytes → Option Hello
  | protocol :: major :: minor :: board :: s0 :: s1 :: s2 :: s3 :: busy :: dio1 :: _ =>
    some ⟨protocol, (major, minor), board, sessionOf s0 s1 s2 s3, decide (busy ≠ 0),
      decide (dio1 ≠ 0)⟩
  | _ => none

end Hello

/-! ## The link -/

structure Link where
  inbox : List Inbound
  /-- DIO1 rose and nobody has acted on it yet. -/
  irq : Bool
  /-- The host asked for attention while a call was in progress. -/
  woken : Bool
  session : UInt32
  /-- The device restarted under the host: every later call refuses. -/
  poisoned : Bool
  deriving DecidableEq

namespace Link

def opened : Link where
  inbox := []
  irq := false
  woken := false
  session := 0
  poisoned := false

def arrives (l : Link) (inbound : Inbound) : Link := { l with inbox := l.inbox ++ [inbound] }

/-- A notice whose level says the line has fallen is stale. -/
def risen (level : Bytes) : Bool := decide (level.head?.getD 1 ≠ 0)

/-- Go through the inbox for the reply to a command: what ends the wait, if anything does. -/
def sift (command : UInt8) : Link → List Inbound → Option (Except BridgeError (Answer Bytes)) × Link
  | l, [] => (none, { l with inbox := [] })
  | l, .wake :: rest => sift command { l with woken := true } rest
  | l, .gone :: rest => (some (.error .gone), { l with inbox := rest })
  | l, .frame f :: rest =>
    match f.bytes with
    | [] => sift command l rest
    | head :: body =>
      if head = command ||| reply then (some (.ok ⟨body, f.origin⟩), { l with inbox := rest })
      else if head = eventDio1 then sift command { l with irq := l.irq || risen body } rest
      else if head = eventError then
        -- an event about something else is stale
        if body[1]?.getD command = command then
          (some (.error (.device command (body.head?.getD 0))), { l with inbox := rest })
        else sift command l rest
      else sift command l rest

/-- Go through the inbox for anything that wants attention. -/
def heed : Link → List Inbound → Option Activity × Link
  | l, [] => (none, { l with inbox := [] })
  | l, .wake :: rest => (some ⟨false, true⟩, { l with inbox := rest })
  | l, .gone :: rest => (some ⟨false, false⟩, { l with inbox := rest })
  | l, .frame f :: rest =>
    if f.bytes.head? = some eventDio1 ∧ risen f.bytes.tail = true then
      (some ⟨true, false⟩, { l with inbox := rest })
    else heed l rest

end Link

/-! ## The conversation -/

/-- A request as it was written. -/
structure Asked where
  number : Nat
  command : UInt8
  payload : Bytes
  deriving DecidableEq

/-- The two ends and what is between them. -/
structure Talk where
  link : Link
  /-- Requests written so far. -/
  asked : Nat
  /-- Requests not answered, in order. -/
  pending : List Asked
  life : Nat
  session : UInt32
  /-- A ghost: where the recorded session came from. -/
  met : Option Origin
  deriving DecidableEq

/-- What can happen at the other end, or to the line, while the host waits or does not. -/
inductive Move where
  /-- The oldest request is answered: a `HELLO` with a greeting, others with any body. -/
  | answers (body : Bytes) (greeting : Hello)
  /-- The oldest request is answered with an error event. -/
  | refuses (code : UInt8)
  | dio1 (level : UInt8)
  | wakes
  | goes
  /-- A new life begins; so many requests the old one had taken are lost with it. -/
  | restarts (session : UInt32) (lost : Nat)
  deriving DecidableEq

def Move.steady : Move → Bool
  | .restarts .. => false
  | _ => true

/-- The requests the protocol has. -/
def commands : List UInt8 :=
  [Command.hello, Command.reset, Command.busy, Command.pins, Command.rf, Command.spi,
    Command.events]

namespace Talk

variable (t : Talk)

/-- What the device says to a request. One it does not know it answers with an error event. -/
def said (r : Asked) (body : Bytes) (greeting : Hello) : Bytes :=
  if r.command ∈ commands then
    (r.command ||| reply) ::
      (if r.command = Command.hello then ({ greeting with session := t.session } : Hello).encode
      else body)
  else [eventError, statusUnknownCommand, r.command]

def answered (r : Asked) (rest : List Asked) (bytes : Bytes) : Talk :=
  { t with
    pending := rest
    link := t.link.arrives (.frame ⟨bytes, some ⟨r.number, t.life, t.session⟩⟩) }

def move (m : Move) : Talk :=
  match m with
  | .answers body greeting =>
    match t.pending with
    | [] => t
    | r :: rest => t.answered r rest (t.said r body greeting)
  | .refuses code =>
    match t.pending with
    | [] => t
    | r :: rest => t.answered r rest [eventError, code, r.command]
  | .dio1 level => { t with link := t.link.arrives (.frame ⟨[eventDio1, level], none⟩) }
  | .wakes => { t with link := t.link.arrives .wake }
  | .goes => { t with link := t.link.arrives .gone }
  | .restarts session lost =>
    { t with life := t.life + 1, session, pending := t.pending.drop lost }

/-- A request is written. -/
def ask (command : UInt8) (payload : Bytes) : Talk :=
  { t with asked := t.asked + 1, pending := t.pending ++ [⟨t.asked, command, payload⟩] }

def sifted (command : UInt8) : Option (Except BridgeError (Answer Bytes)) × Talk :=
  ((t.link.sift command t.link.inbox).1,
    { t with link := (t.link.sift command t.link.inbox).2 })

/-- Wait for the reply to a command while the other end moves; with the last move the time is
up. -/
def await (command : UInt8) : List Move → Talk → Except BridgeError (Answer Bytes) × Talk
  | [], t => ((t.sifted command).1.getD (.error (.timeout command)), (t.sifted command).2)
  | m :: moves, t =>
    match (t.sifted command).1 with
    | some outcome => (outcome, (t.sifted command).2)
    | none => await command moves ((t.sifted command).2.move m)

/-- What a call meets: whether the port takes the request, and what happens meanwhile. -/
structure Script where
  written : Bool
  moves : List Move
  deriving DecidableEq

/-- Send a request and wait for its reply payload. -/
def call (command : UInt8) (payload : Bytes) (script : Script) :
    Except BridgeError (Answer Bytes) × Talk :=
  if t.link.poisoned = true then (.error (.reset t.link.session t.link.session), t)
  else if script.written = false then (.error .port, t)
  else await command script.moves (t.ask command payload)

def poison : Talk := { t with link := { t.link with poisoned := true } }

/-- Ask the device who it is and compare it with who it was. -/
def verifySession (script : Script) : Except BridgeError Unit × Talk :=
  if t.link.poisoned = true then (.error (.reset t.link.session t.link.session), t)
  else
    let met := t.link.session
    match t.call Command.hello [] script with
    | (.error e, t) => (.error e, t)
    | (.ok answer, t) =>
      match Hello.parse answer.value with
      | none => (.error (.protocol "short HELLO reply"), t)
      | some hello =>
        if hello.session = met then (.ok (), t)
        else (.error (.reset met hello.session), t.poison)

/-- A call that treats silence as a question. -/
def callChecked (command : UInt8) (payload : Bytes) (script asking : Script) :
    Except BridgeError (Answer Bytes) × Talk :=
  match t.call command payload script with
  | (.error (.timeout command), t) =>
    match t.verifySession asking with
    | (.error e, t) => (.error e, t)
    | (.ok (), t) => (.error (.timeout command), t)
  | other => other

/-- Throw away whatever the device has already said. -/
def drain : Talk := { t with link := { t.link with inbox := [] } }

def wrongVersion (spoken : UInt8) : String :=
  s!"the device speaks protocol version {spoken}, this adapter version {version}"

/-- A reply to `HELLO` records whom the host has met. -/
def meets (answer : Answer Bytes) : Except BridgeError (Answer Hello) × Talk :=
  match answer.value with
  | [] => (.error (.protocol "empty HELLO reply"), t)
  | spoken :: _ =>
    if spoken ≠ version then (.error (.protocol (wrongVersion spoken)), t)
    else
      match Hello.parse answer.value with
      | none => (.error (.protocol "short HELLO reply"), t)
      | some hello =>
        (.ok ⟨hello, answer.origin⟩,
          { t with
            link := { t.link with session := hello.session, irq := t.link.irq || hello.dio1 }
            met := answer.origin })

/-- Say hello until the device answers or patience, and with it the scripts, runs out. -/
def greet : List Script → Script → Talk → Except BridgeError (Answer Hello) × Talk
  | [], script, t =>
    match t.call Command.hello [] script with
    | (.error e, t) => (.error e, t)
    | (.ok answer, t) => t.meets answer
  | next :: more, script, t =>
    match t.call Command.hello [] script with
    | (.error (.timeout _), t) => greet more next t
    | (.error e, t) => (.error e, t)
    | (.ok answer, t) => t.meets answer

def hello (script : Script) (more : List Script) : Except BridgeError (Answer Hello) × Talk :=
  greet more script t.drain

def heeded : Option Activity × Talk :=
  ((t.link.heed t.link.inbox).1, { t with link := (t.link.heed t.link.inbox).2 })

/-- Wait on an inbox that has nothing pending. -/
def listen : List Move → Talk → Activity × Talk
  | [], t => (t.heeded.1.getD ⟨false, false⟩, t.heeded.2)
  | m :: moves, t =>
    match t.heeded.1 with
    | some activity => (activity, t.heeded.2)
    | none => listen moves (t.heeded.2.move m)

/-- Block until something wants attention. -/
def wait (moves : List Move) : Activity × Talk :=
  let pending : Activity := ⟨t.link.irq, t.link.woken⟩
  let cleared : Talk := { t with link := { t.link with irq := false, woken := false } }
  if pending.irq = true ∨ pending.host = true then (pending, cleared)
  else listen moves cleared

def opGetIrqStatus : UInt8 := 0x12

/-- The flags of the chip, read between the driver's transactions. -/
def irqFlags (script : Script) : Option (Answer UInt16) × Talk :=
  match t.call Command.spi (encodeOperations [.write [opGetIrqStatus], .read [0, 0, 0]]) script with
  | (.error _, t) => (none, t)
  | (.ok answer, t) =>
    match answer.value with
    | [code, _, high, low] =>
      if code = statusOk then
        (some ⟨.ofNat (high.toNat * 256 + low.toNat), answer.origin⟩, t)
      else (none, t)
    | _ => (none, t)

/-- What a reply to `SPI` makes of the buffers. -/
def settle (operations : List Operation) : Bytes → Except BridgeError (List Operation)
  | [] => .error (.protocol "empty SPI reply")
  | code :: bytes =>
    if code ≠ statusOk then .error (.status Command.spi code)
    else
      match BridgeSpi.scatter bytes operations with
      | .error missing => .error (.protocol missing)
      | .ok operations => .ok operations

/-- The driver's transaction: one `SPI` request, its reply scattered into the buffers. -/
def transaction (operations : List Operation) (script asking : Script) :
    Except BridgeError (Answer (List Operation)) × Talk :=
  match t.callChecked Command.spi (encodeOperations operations) script asking with
  | (.error e, t) => (.error e, t)
  | (.ok answer, t) =>
    match settle operations answer.value with
    | .error e => (.error e, t)
    | .ok operations => (.ok ⟨operations, answer.origin⟩, t)

end Talk

/-! ## Runs -/

/-- What the host does next, or the other end by itself. -/
inductive Step where
  | moved (m : Move)
  | called (command : UInt8) (payload : Bytes) (script : Talk.Script)
  | checked (command : UInt8) (payload : Bytes) (script asking : Talk.Script)
  | verified (script : Talk.Script)
  | greeted (script : Talk.Script) (more : List Talk.Script)
  | flagged (script : Talk.Script)
  | transacted (operations : List Operation) (script asking : Talk.Script)
  | waited (moves : List Move)
  | drained

def Talk.step (t : Talk) : Step → Talk
  | .moved m => t.move m
  | .called command payload script => (t.call command payload script).2
  | .checked command payload script asking => (t.callChecked command payload script asking).2
  | .verified script => (t.verifySession script).2
  | .greeted script more => (t.hello script more).2
  | .flagged script => (t.irqFlags script).2
  | .transacted operations script asking => (t.transaction operations script asking).2
  | .waited moves => (t.wait moves).2
  | .drained => t.drain

def Talk.after (t : Talk) (steps : List Step) : Talk := steps.foldl Talk.step t

/-- A link just opened on a device that may owe answers to those who asked before. -/
def Talk.start (session : UInt32) (owed : List (UInt8 × Bytes)) : Talk where
  link := .opened
  asked := owed.length
  pending := owed.zipIdx.map fun p => ⟨p.2, p.1.1, p.1.2⟩
  life := 0
  session
  met := none

end BridgeLink
