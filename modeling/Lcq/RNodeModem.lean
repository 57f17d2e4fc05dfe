import Lcq.KissFrames

/-!
# A modem on a serial port

The host configures the modem, hands it packets and learns of receptions, all
in frames on one serial line. What the host makes of the line is a function of
the frames it has heard, and what it writes is one of what it was asked for.
-/

namespace RNodeModem

open ByteFormat KissFrames Transducers

/-! ## The host protocol -/

namespace Command

def data : UInt8 := 0x00
def frequency : UInt8 := 0x01
def bandwidth : UInt8 := 0x02
def txPower : UInt8 := 0x03
def spreadingFactor : UInt8 := 0x04
def codingRate : UInt8 := 0x05
def radioState : UInt8 := 0x06
def detect : UInt8 := 0x08
def statRssi : UInt8 := 0x23
def statSnr : UInt8 := 0x24
def platform : UInt8 := 0x48
def mcu : UInt8 := 0x49
def fwVersion : UInt8 := 0x50
def error : UInt8 := 0x90

end Command

def detectRequest : UInt8 := 0x73
def detectResponse : UInt8 := 0x46
def rssiOffset : Int16 := 157

/-- The most a modem carries in one packet before it splits it. -/
def maxPacketBytes : Nat := 254

/-- The most a host frame may hold: a packet plus room for escapes. -/
def frameLimit : Nat := 600

/-- What the link takes of a physical-layer profile. -/
structure PhyProfile where
  frequencyHz : UInt32
  bandwidthHz : UInt32
  txPowerDbm : Int8
  spreadingFactor : UInt8
  codingRateDenominator : UInt8

structure Received where
  bytes : Bytes
  rssiDbm : Int16
  snrDb : Int8
  deriving DecidableEq

inductive RadioEvent where
  | received (r : Received)
  | crcError (rssiDbm : Int16)
  | headerError (rssiDbm : Int16)
  | note (body : String)
  deriving DecidableEq

inductive RadioError where
  | tooLong (len max : Nat)
  | offline
  deriving DecidableEq

def toBeBytes (n : UInt32) : Bytes :=
  [(n >>> 24).toUInt8, (n >>> 16).toUInt8, (n >>> 8).toUInt8, n.toUInt8]

def bringUp (profile : PhyProfile) : List (UInt8 × Bytes) :=
  [(Command.detect, [detectRequest]), (Command.fwVersion, [0]), (Command.platform, [0]),
    (Command.mcu, [0]), (Command.frequency, toBeBytes profile.frequencyHz),
    (Command.bandwidth, toBeBytes profile.bandwidthHz),
    (Command.txPower, [profile.txPowerDbm.toUInt8]),
    (Command.spreadingFactor, [profile.spreadingFactor]),
    (Command.codingRate, [profile.codingRateDenominator]), (Command.radioState, [1])]

def rssiOn (raw : UInt8) : Int16 := .ofNat raw.toNat - rssiOffset

def snrOn (raw : UInt8) : Int8 := raw.toInt8 / 4

def firmwareNote (major minor : UInt8) : String :=
  "\"event\":\"rnode_firmware\",\"major\":" ++ toString major.toNat ++ ",\"minor\":" ++
    toString minor.toNat

def radioNote (online : Bool) : String :=
  "\"event\":\"rnode_radio\",\"online\":" ++ toString online

def errorNote (code : UInt8) : String :=
  "\"event\":\"rnode_error\",\"code\":" ++ toString code.toNat

/-! ## The link -/

structure RNodeLink where
  profile : PhyProfile
  deframer : Deframer
  outbound : Bytes
  events : List RadioEvent
  detected : Bool
  online : Bool
  firmware : Option (UInt8 × UInt8)
  pendingRssi : Option Int16
  pendingSnr : Option Int8

/-- What a holder of the link can ask of it. -/
inductive Call where
  | start
  | takeOutbound
  | onSerial (bytes : Bytes)
  | transmit (bytes : Bytes)
  | poll

inductive Reply where
  | took (bytes : Bytes)
  | answered (result : Except RadioError Unit)
  | polled (event : Option RadioEvent)

namespace RNodeLink

def new (profile : PhyProfile) : RNodeLink where
  profile
  deframer := .new frameLimit
  outbound := []
  events := []
  detected := false
  online := false
  firmware := none
  pendingRssi := none
  pendingSnr := none

variable (l : RNodeLink)

def queue (command : UInt8) (payload : Bytes) : RNodeLink :=
  { l with outbound := l.outbound ++ encode command payload }

def start : RNodeLink :=
  (bringUp l.profile).foldl (fun l order => l.queue order.1 order.2) l

def note (body : String) : RNodeLink := { l with events := l.events ++ [.note body] }

def onFrame : Bytes → RNodeLink
  | [] => l
  | command :: payload =>
    if command = Command.detect then
      if payload.head? = some detectResponse then { l with detected := true } else l
    else if command = Command.fwVersion then
      match payload with
      | major :: minor :: _ =>
        { l with firmware := some (major, minor) }.note (firmwareNote major minor)
      | _ => l
    else if command = Command.radioState then
      let online := decide (payload.head? = some 1)
      if online = l.online then l else { l with online }.note (radioNote online)
    else if command = Command.statRssi then
      match payload.head? with
      | some raw => { l with pendingRssi := some (rssiOn raw) }
      | none => l
    else if command = Command.statSnr then
      match payload.head? with
      | some raw => { l with pendingSnr := some (snrOn raw) }
      | none => l
    else if command = Command.data then
      let received : Received := ⟨payload, l.pendingRssi.getD 0, l.pendingSnr.getD 0⟩
      { l with
        pendingRssi := none
        pendingSnr := none
        events := l.events ++ [.received received] }
    else if command = Command.error then l.note (errorNote (payload.head?.getD 0))
    else l

def onSerial (bytes : Bytes) : RNodeLink :=
  let deframed := l.deframer.push bytes
  deframed.2.foldl onFrame { l with deframer := deframed.1 }

def transmit (bytes : Bytes) : Except RadioError Unit × RNodeLink :=
  if maxPacketBytes < bytes.length then (.error (.tooLong bytes.length maxPacketBytes), l)
  else if l.online = false then (.error .offline, l)
  else (.ok (), l.queue Command.data bytes)

def call : Call → RNodeLink × List Reply
  | .start => (l.start, [])
  | .takeOutbound => ({ l with outbound := [] }, [.took l.outbound])
  | .onSerial bytes => (l.onSerial bytes, [])
  | .transmit bytes => ((l.transmit bytes).2, [.answered (l.transmit bytes).1])
  | .poll => ({ l with events := l.events.tail }, [.polled l.events.head?])

end RNodeLink

/-! ## What the frames on the line say -/

/-- The last thing said since a frame that ends what was said before. -/
def latest {β : Type} (ends : Bytes → Bool) (reads : Bytes → Option β) (frames : List Bytes) :
    Option β :=
  (frames.reverse.takeWhile fun frame => !ends frame).findSome? reads

@[simp] theorem latest_nil {β : Type} (ends : Bytes → Bool) (reads : Bytes → Option β) :
    latest ends reads [] = none := rfl

@[simp] theorem latest_concat {β : Type} (ends : Bytes → Bool) (reads : Bytes → Option β)
    (frames : List Bytes) (frame : Bytes) :
    latest ends reads (frames ++ [frame]) =
      if ends frame = true then none else (reads frame).or (latest ends reads frames) := by
  unfold latest
  rw [List.reverse_concat, List.takeWhile_cons]
  by_cases ended : ends frame = true
  · simp [ended]
  · cases said : reads frame <;> simp [ended, said]

/-- The rest of a frame that carries the command. -/
def payloadOf (command : UInt8) : Bytes → Option Bytes
  | [] => none
  | c :: payload => if c = command then some payload else none

def isData (frame : Bytes) : Bool := (payloadOf Command.data frame).isSome

def stateSaid (frame : Bytes) : Option Bool :=
  (payloadOf Command.radioState frame).map fun payload => decide (payload.head? = some 1)

def versionSaid (frame : Bytes) : Option (UInt8 × UInt8) :=
  (payloadOf Command.fwVersion frame).bind fun payload =>
    payload.head?.bind fun major => payload.tail.head?.map fun minor => (major, minor)

def rssiSaid (frame : Bytes) : Option Int16 :=
  (payloadOf Command.statRssi frame).bind fun payload => payload.head?.map rssiOn

def snrSaid (frame : Bytes) : Option Int8 :=
  (payloadOf Command.statSnr frame).bind fun payload => payload.head?.map snrOn

def answersProbe (frame : Bytes) : Bool :=
  (payloadOf Command.detect frame).any fun payload => decide (payload.head? = some detectResponse)

section said

variable (before : List Bytes)

/-- The radio is on if the last that was said of it is that it is. -/
def isOn : Bool := (latest (fun _ => false) stateSaid before).getD false

/-- The signal strength that belongs to a packet that comes now: what has been reported since the
last packet. -/
def rssiOf : Option Int16 := latest isData rssiSaid before

def snrOf : Option Int8 := latest isData snrSaid before

/-- What the host is told when a frame comes after others. -/
def tells (frame : Bytes) : List RadioEvent :=
  ((payloadOf Command.data frame).toList.map fun payload =>
      .received ⟨payload, (rssiOf before).getD 0, (snrOf before).getD 0⟩) ++
    ((versionSaid frame).toList.map fun version => .note (firmwareNote version.1 version.2)) ++
    (if isOn (before ++ [frame]) = isOn before then []
      else [.note (radioNote (isOn (before ++ [frame])))]) ++
    ((payloadOf Command.error frame).toList.map fun payload =>
      .note (errorNote (payload.head?.getD 0)))

end said

def told : List Bytes → List Bytes → List RadioEvent
  | _, [] => []
  | before, frame :: frames => tells before frame ++ told (before ++ [frame]) frames

theorem told_append (before first second : List Bytes) :
    told before (first ++ second) = told before first ++ told (before ++ first) second := by
  induction first generalizing before with
  | nil => simp [told]
  | cons frame first ih => simp [told, ih]

/-- The link knows what the frames have said. -/
structure Knows (before : List Bytes) (l : RNodeLink) : Prop where
  detected : l.detected = before.any answersProbe
  online : l.online = isOn before
  firmware : l.firmware = latest (fun _ => false) versionSaid before
  rssi : l.pendingRssi = rssiOf before
  snr : l.pendingSnr = snrOf before

section frames

open RNodeLink

variable {l : RNodeLink} {before : List Bytes}

attribute [local simp] Command.data Command.radioState Command.detect Command.statRssi
  Command.statSnr Command.fwVersion Command.error

theorem knows_onFrame (knows : Knows before l) (frame : Bytes) :
    Knows (before ++ [frame]) (l.onFrame frame) ∧
      (l.onFrame frame).events = l.events ++ tells before frame := by
  obtain ⟨detected, online, firmware, rssi, snr⟩ := knows
  rw [isOn] at online
  rw [rssiOf] at rssi
  rw [snrOf] at snr
  suffices all : (l.onFrame frame).detected = (before ++ [frame]).any answersProbe ∧
      (l.onFrame frame).online = isOn (before ++ [frame]) ∧
      (l.onFrame frame).firmware = latest (fun _ => false) versionSaid (before ++ [frame]) ∧
      (l.onFrame frame).pendingRssi = rssiOf (before ++ [frame]) ∧
      (l.onFrame frame).pendingSnr = snrOf (before ++ [frame]) ∧
      (l.onFrame frame).events = l.events ++ tells before frame by
    obtain ⟨a, b, c, d, e, f⟩ := all
    exact ⟨⟨a, b, c, d, e⟩, f⟩
  simp only [List.any_append, List.any_cons, List.any_nil, Bool.or_false, isOn, rssiOf, snrOf,
    latest_concat, tells, isData, stateSaid, versionSaid, rssiSaid, snrSaid, answersProbe,
    ← detected, ← firmware, ← rssi, ← snr]
  cases frame with
  | nil => simp [onFrame, payloadOf, online]
  | cons command payload =>
    unfold onFrame
    by_cases probe : command = Command.detect
    · subst probe
      by_cases answer : payload.head? = some detectResponse <;> simp [payloadOf, answer, online]
    by_cases version : command = Command.fwVersion
    · subst version
      cases payload with
      | nil => simp [payloadOf, online]
      | cons major payload => cases payload <;> simp [payloadOf, online, note]
    by_cases state : command = Command.radioState
    · subst state
      by_cases same : decide (payload.head? = some 1) = l.online
      · simp [payloadOf, online, same]
      · simp [payloadOf, ← online, same, note]
    by_cases strength : command = Command.statRssi
    · subst strength
      cases payload <;> simp [payloadOf, online]
    by_cases noise : command = Command.statSnr
    · subst noise
      cases payload <;> simp [payloadOf, online]
    by_cases packet : command = Command.data
    · subst packet
      simp [payloadOf, online]
    by_cases trouble : command = Command.error
    · subst trouble
      simp [payloadOf, online, note]
    -- what else the device says is of no use
    simp only [payloadOf, if_neg probe, if_neg version, if_neg state, if_neg strength,
      if_neg noise, if_neg packet, if_neg trouble]
    simp [online]

/-- A frame changes nothing of what the link has to write. -/
theorem onFrame_beside (l : RNodeLink) (frame : Bytes) :
    (l.onFrame frame).outbound = l.outbound ∧ (l.onFrame frame).profile = l.profile ∧
      (l.onFrame frame).deframer = l.deframer := by
  cases frame with
  | nil => exact ⟨rfl, rfl, rfl⟩
  | cons command payload =>
    unfold onFrame
    dsimp only
    repeat' split
    all_goals exact ⟨rfl, rfl, rfl⟩

theorem knows_frames (knows : Knows before l) (frames : List Bytes) :
    Knows (before ++ frames) (frames.foldl onFrame l) ∧
      (frames.foldl onFrame l).events = l.events ++ told before frames := by
  induction frames generalizing l before with
  | nil => simp [told, knows]
  | cons frame frames ih =>
    obtain ⟨knows', events⟩ := knows_onFrame knows frame
    obtain ⟨last, all⟩ := ih knows'
    rw [List.append_assoc] at last
    exact ⟨last, by rw [List.foldl_cons, all, events, told, List.append_assoc]⟩

theorem frames_beside (l : RNodeLink) (frames : List Bytes) :
    (frames.foldl onFrame l).outbound = l.outbound ∧
      (frames.foldl onFrame l).profile = l.profile ∧
      (frames.foldl onFrame l).deframer = l.deframer := by
  induction frames generalizing l with
  | nil => exact ⟨rfl, rfl, rfl⟩
  | cons frame frames ih =>
    obtain ⟨outbound, profile, deframer⟩ := onFrame_beside l frame
    obtain ⟨outbound', profile', deframer'⟩ := ih (l.onFrame frame)
    exact ⟨outbound'.trans outbound, profile'.trans profile, deframer'.trans deframer⟩

end frames

/-! ## What the host has heard and asked for -/

/-- The bytes read from the port. -/
def heard (calls : List Call) : Bytes :=
  calls.flatMap fun
    | .onSerial bytes => bytes
    | _ => []

/-- The frames in what has come from the port. -/
def framesIn (bytes : Bytes) : List Bytes := ((Deframer.new frameLimit).push bytes).2

/-- What the device is to hear, and what the host's callers are told about their packets. -/
def ordered (profile : PhyProfile) : Bytes → List Call → List (UInt8 × Bytes)
  | _, [] => []
  | before, .start :: calls => bringUp profile ++ ordered profile before calls
  | before, .onSerial bytes :: calls => ordered profile (before ++ bytes) calls
  | before, .transmit bytes :: calls =>
    (if bytes.length ≤ maxPacketBytes ∧ isOn (framesIn before) = true then
      [(Command.data, bytes)] else []) ++ ordered profile before calls
  | before, _ :: calls => ordered profile before calls

/-- What a packet's sender is told. -/
def verdict (before bytes : Bytes) : Except RadioError Unit :=
  if maxPacketBytes < bytes.length then .error (.tooLong bytes.length maxPacketBytes)
  else if isOn (framesIn before) = false then .error .offline
  else .ok ()

def verdicts : Bytes → List Call → List (Except RadioError Unit)
  | _, [] => []
  | before, .onSerial bytes :: calls => verdicts (before ++ bytes) calls
  | before, .transmit bytes :: calls => verdict before bytes :: verdicts before calls
  | before, _ :: calls => verdicts before calls

def Reply.bytes : Reply → Bytes
  | .took bytes => bytes
  | _ => []

def Reply.result? : Reply → Option (Except RadioError Unit)
  | .answered result => some result
  | _ => none

def Reply.event? : Reply → Option RadioEvent
  | .polled event => event
  | _ => none

/-- An order as it is written to the port. -/
def written (order : UInt8 × Bytes) : Bytes := encode order.1 order.2

/-- The link is where these bytes have brought it. -/
structure Keeps (profile : PhyProfile) (before : Bytes) (l : RNodeLink) : Prop where
  profile : l.profile = profile
  deframer : l.deframer = ((Deframer.new frameLimit).push before).1
  knows : Knows (framesIn before) l

/-- What a link has done with some calls. -/
structure Did (profile : PhyProfile) (before : Bytes) (l : RNodeLink) (calls : List Call)
    (out : RNodeLink × List Reply) : Prop where
  keeps : Keeps profile (before ++ heard calls) out.1
  wrote : l.outbound ++ (ordered profile before calls).flatMap written =
    out.2.flatMap Reply.bytes ++ out.1.outbound
  told : ∃ frames, framesIn (before ++ heard calls) = framesIn before ++ frames ∧
    l.events ++ told (framesIn before) frames = out.2.filterMap Reply.event? ++ out.1.events
  answered : out.2.filterMap Reply.result? = verdicts before calls

section runs

variable {profile : PhyProfile} {before : Bytes} {l : RNodeLink}

theorem framesIn_append (before bytes : Bytes) : framesIn (before ++ bytes) =
    framesIn before ++ (((Deframer.new frameLimit).push before).1.push bytes).2 := by
  rw [framesIn, Deframer.push_append]
  rfl

/-- Nothing but the queues of the link is changed. -/
theorem Keeps.aside (keeps : Keeps profile before l) (outbound : Bytes)
    (events : List RadioEvent) : Keeps profile before { l with outbound, events } := by
  obtain ⟨same, deframer, detected, online, firmware, rssi, snr⟩ := keeps
  exact ⟨same, deframer, detected, online, firmware, rssi, snr⟩

theorem queued (l : RNodeLink) (orders : List (UInt8 × Bytes)) :
    orders.foldl (fun l order => l.queue order.1 order.2) l =
      { l with outbound := l.outbound ++ orders.flatMap written } := by
  induction orders generalizing l with
  | nil => simp
  | cons order orders ih =>
    rw [List.foldl_cons, ih]
    simp [RNodeLink.queue, written]

theorem onSerial_keeps (keeps : Keeps profile before l) (bytes : Bytes) :
    Keeps profile (before ++ bytes) (l.onSerial bytes) ∧
      (l.onSerial bytes).outbound = l.outbound ∧
      ∃ frames, framesIn (before ++ bytes) = framesIn before ++ frames ∧
        (l.onSerial bytes).events = l.events ++ told (framesIn before) frames := by
  obtain ⟨same, deframer, knows⟩ := keeps
  have split := framesIn_append before bytes
  rw [← deframer] at split
  have stood : Knows (framesIn before) { l with deframer := (l.deframer.push bytes).1 } := by
    obtain ⟨detected, online, firmware, rssi, snr⟩ := knows
    exact ⟨detected, online, firmware, rssi, snr⟩
  obtain ⟨knows', events⟩ := knows_frames stood (l.deframer.push bytes).2
  obtain ⟨outbound, profile', deframer'⟩ :=
    frames_beside { l with deframer := (l.deframer.push bytes).1 } (l.deframer.push bytes).2
  refine ⟨⟨profile'.trans same, ?_, split ▸ knows'⟩, outbound, _, split, events⟩
  rw [Deframer.push_append, ← deframer]
  exact deframer'

/-- A call that hears nothing. -/
theorem did_deaf {calls : List Call} {out : RNodeLink × List Reply} (deaf : heard calls = [])
    (keeps : Keeps profile before out.1)
    (wrote : l.outbound ++ (ordered profile before calls).flatMap written =
      out.2.flatMap Reply.bytes ++ out.1.outbound)
    (events : l.events = out.2.filterMap Reply.event? ++ out.1.events)
    (answered : out.2.filterMap Reply.result? = verdicts before calls) :
    Did profile before l calls out := by
  have same : before ++ heard calls = before := by rw [deaf, List.append_nil]
  refine ⟨same.symm ▸ keeps, wrote, ⟨[], ?_, ?_⟩, answered⟩
  · rw [same, List.append_nil]
  · rw [told, List.append_nil, events]

theorem did_transmit (keeps : Keeps profile before l) (bytes : Bytes) :
    Did profile before l [.transmit bytes] (l.call (.transmit bytes)) := by
  have online := keeps.knows.online
  rw [RNodeLink.call, RNodeLink.transmit]
  by_cases long : maxPacketBytes < bytes.length
  · have refused : ¬ bytes.length ≤ maxPacketBytes := by omega
    rw [if_pos long]
    refine did_deaf rfl keeps ?_ rfl ?_
    · simp [ordered, refused, Reply.bytes]
    · simp [long, verdicts, verdict, Reply.result?]
  · have short : bytes.length ≤ maxPacketBytes := by omega
    rw [if_neg long, online]
    by_cases off : isOn (framesIn before) = false
    · rw [if_pos off]
      refine did_deaf rfl keeps ?_ rfl ?_
      · simp [ordered, off, Reply.bytes]
      · simp [long, off, verdicts, verdict, Reply.result?]
    · rw [if_neg off]
      rw [Bool.not_eq_false] at off
      refine did_deaf rfl (keeps.aside _ _) ?_ rfl ?_
      · simp [ordered, off, short, RNodeLink.queue, written, Reply.bytes]
      · simp [long, off, verdicts, verdict, Reply.result?]

theorem did_call (keeps : Keeps profile before l) (c : Call) :
    Did profile before l [c] (l.call c) := by
  cases c with
  | start =>
    rw [RNodeLink.call, RNodeLink.start, queued]
    refine did_deaf rfl (keeps.aside _ _) ?_ rfl rfl
    simp [ordered, keeps.profile]
  | takeOutbound =>
    refine did_deaf rfl (keeps.aside _ _) ?_ rfl rfl
    simp [ordered, RNodeLink.call, Reply.bytes]
  | onSerial bytes =>
    obtain ⟨after, outbound, frames, split, events⟩ := onSerial_keeps keeps bytes
    have more : heard [.onSerial bytes] = bytes := List.append_nil bytes
    refine ⟨more.symm ▸ after, ?_, ⟨frames, more.symm ▸ split, ?_⟩, rfl⟩
    · simp [ordered, RNodeLink.call, outbound]
    · simp [RNodeLink.call, events]
  | transmit bytes => exact did_transmit keeps bytes
  | poll =>
    refine did_deaf rfl (keeps.aside _ _) ?_ ?_ rfl
    · simp [ordered, RNodeLink.call, Reply.bytes]
    · cases waiting : l.events <;> simp [RNodeLink.call, Reply.event?, waiting]

theorem ordered_append (profile : PhyProfile) (before : Bytes) (first second : List Call) :
    ordered profile before (first ++ second) =
      ordered profile before first ++ ordered profile (before ++ heard first) second := by
  induction first generalizing before with
  | nil => simp [ordered, heard]
  | cons c first ih => cases c <;> simp [ordered, ih, heard]

theorem verdicts_append (before : Bytes) (first second : List Call) :
    verdicts before (first ++ second) =
      verdicts before first ++ verdicts (before ++ heard first) second := by
  induction first generalizing before with
  | nil => simp [verdicts, heard]
  | cons c first ih => cases c <;> simp [verdicts, ih, heard]

/-- Calls upon calls. -/
theorem Did.trans {first second : List Call} {out next : RNodeLink × List Reply}
    (did : Did profile before l first out)
    (then' : Did profile (before ++ heard first) out.1 second next) :
    Did profile before l (first ++ second) (next.1, out.2 ++ next.2) := by
  obtain ⟨-, wrote, ⟨frames, split, told⟩, answered⟩ := did
  obtain ⟨keeps, wrote', ⟨frames', split', told'⟩, answered'⟩ := then'
  have both : heard (first ++ second) = heard first ++ heard second := List.flatMap_append
  constructor
  · rw [both, ← List.append_assoc]
    exact keeps
  · rw [ordered_append, List.flatMap_append, List.flatMap_append, ← List.append_assoc, wrote,
      List.append_assoc, wrote', List.append_assoc]
  · refine ⟨frames ++ frames', ?_, ?_⟩
    · rw [both, ← List.append_assoc, split', split, List.append_assoc]
    · rw [told_append, ← List.append_assoc, told, List.append_assoc, ← split, told',
        List.filterMap_append, List.append_assoc]
  · rw [List.filterMap_append, answered, answered', verdicts_append]

theorem did_all (keeps : Keeps profile before l) (calls : List Call) :
    Did profile before l calls (feed RNodeLink.call l calls) := by
  induction calls generalizing before l with
  | nil => exact did_deaf rfl keeps (by simp [ordered]) rfl rfl
  | cons c calls ih =>
    have did := did_call keeps c
    exact did.trans (ih did.keeps)

theorem keeps_new (profile : PhyProfile) : Keeps profile [] (.new profile) :=
  ⟨rfl, rfl, rfl, rfl, rfl, rfl, rfl⟩

end runs

/-! ## What the device hears -/

/-- A command that needs no escape, with a payload that leaves room for it. -/
def Clear (limit : Nat) (order : UInt8 × Bytes) : Prop :=
  order.1 ≠ fend ∧ order.1 ≠ fesc ∧ order.2.length + 1 ≤ limit

theorem push_written {d : Deframer} (ready : d.Ready) {orders : List (UInt8 × Bytes)}
    (clear : ∀ order ∈ orders, Clear d.limit order) :
    (d.push (orders.flatMap written)).2 = orders.map fun order => order.1 :: order.2 := by
  induction orders generalizing d with
  | nil => rfl
  | cons order orders ih =>
    obtain ⟨notEnd, notEscape, fits⟩ := clear order List.mem_cons_self
    rw [List.flatMap_cons, Deframer.push_append, written,
      Deframer.push_encode ready notEnd notEscape, if_pos fits]
    have rest := ih d.delimited_ready fun other mem =>
      clear other (List.mem_cons_of_mem _ mem)
    dsimp only
    rw [rest]
    rfl

theorem bringUp_clear (profile : PhyProfile) : ∀ order ∈ bringUp profile, Clear 255 order := by
  unfold bringUp Clear
  simp [Command.detect, Command.fwVersion, Command.platform, Command.mcu, Command.frequency,
    Command.bandwidth, Command.txPower, Command.spreadingFactor, Command.codingRate,
    Command.radioState, toBeBytes, fend, fesc]

theorem ordered_clear (profile : PhyProfile) (before : Bytes) (calls : List Call) :
    ∀ order ∈ ordered profile before calls, Clear 255 order := by
  induction calls generalizing before with
  | nil => simp [ordered]
  | cons c calls ih =>
    intro order mem
    cases c with
    | start =>
      rcases List.mem_append.mp mem with own | later
      · exact bringUp_clear profile order own
      · exact ih before order later
    | transmit bytes =>
      rcases List.mem_append.mp mem with own | later
      · split at own
        · rename_i allowed
          have fits : bytes.length + 1 ≤ 255 := Nat.succ_le_succ allowed.1
          rw [List.mem_singleton.mp own]
          exact ⟨show Command.data ≠ fend by decide, show Command.data ≠ fesc by decide, fits⟩
        · cases own
      · exact ih before order later
    | onSerial bytes => exact ih _ order mem
    | takeOutbound => exact ih before order mem
    | poll => exact ih before order mem

/-- What has been written and what is yet to be, however it is cut on its way, is to the device
the bring-ups and the packets that were accepted, in the order of the calls, and nothing else. -/
theorem device_told (profile : PhyProfile) (calls : List Call) (limit : Nat) (large : 255 ≤ limit)
    (chunks : List Bytes) (same : chunks.flatten =
      (feed RNodeLink.call (.new profile) calls).2.flatMap Reply.bytes ++
        (feed RNodeLink.call (.new profile) calls).1.outbound) :
    (feedChunks Deframer.pushByte (.new limit) chunks).2 =
      (ordered profile [] calls).map fun order => order.1 :: order.2 := by
  have wrote := (did_all (keeps_new profile) calls).wrote
  rw [feedChunks_eq, same, ← wrote]
  refine push_written (d := .new limit) rfl fun order mem => ?_
  obtain ⟨notEnd, notEscape, fits⟩ := ordered_clear profile [] calls order mem
  exact ⟨notEnd, notEscape, Nat.le_trans fits large⟩

def eu868Sf10 : PhyProfile := ⟨868100000, 125000, 14, 10, 5⟩

/-- A packet is refused before the radio is on and accepted after; the device, which reads its
line in two pieces, hears the bring-up and the packet. -/
theorem device_told_once :
    let calls : List Call := [.start, .transmit [1], .onSerial (encode Command.radioState [1]),
      .takeOutbound, .transmit [fend, 2]]
    let out := feed RNodeLink.call (.new eu868Sf10) calls
    let bytes := out.2.flatMap Reply.bytes ++ out.1.outbound
    out.2.filterMap Reply.result? = [.error .offline, .ok ()] ∧
      (feedChunks Deframer.pushByte (.new 600) [bytes.take 20, bytes.drop 20]).2 =
        (bringUp eu868Sf10).map (fun order => order.1 :: order.2) ++ [[Command.data, fend, 2]] := by
  intro calls out bytes
  refine ⟨by decide +kernel, ?_⟩
  have orders : ordered eu868Sf10 [] calls = bringUp eu868Sf10 ++ [(Command.data, [fend, 2])] := by
    decide +kernel
  have hears := device_told eu868Sf10 calls 600 (by decide) [bytes.take 20, bytes.drop 20]
    (by simp [bytes, out])
  rw [hears, orders, List.map_append]
  rfl

/-! ## Packets with their reports -/

/-- What a device sends: a packet with its signal report, or something else. -/
inductive Sent where
  | packet (rssi snr : UInt8) (payload : Bytes)
  | aside (command : UInt8) (payload : Bytes)

def Sent.orders : Sent → List (UInt8 × Bytes)
  | .packet rssi snr payload =>
    [(Command.statRssi, [rssi]), (Command.statSnr, [snr]), (Command.data, payload)]
  | .aside command payload => [(command, payload)]

def Sent.received? : Sent → Option Received
  | .packet rssi snr payload => some ⟨payload, rssiOn rssi, snrOn snr⟩
  | .aside _ _ => none

def RadioEvent.received? : RadioEvent → Option Received
  | .received r => some r
  | _ => none

/-- Something else is no packet and no report, and everything fits a frame. -/
def Sent.Proper (sent : Sent) : Prop :=
  (∀ order ∈ sent.orders, Clear frameLimit order) ∧
    ∀ command payload, sent = .aside command payload → command ≠ Command.data

theorem received_tells (before : List Bytes) (frame : Bytes) :
    (tells before frame).filterMap RadioEvent.received? =
      (payloadOf Command.data frame).toList.map fun payload =>
        ⟨payload, (rssiOf before).getD 0, (snrOf before).getD 0⟩ := by
  unfold tells
  rw [List.filterMap_append, List.filterMap_append, List.filterMap_append]
  have versions : ((versionSaid frame).toList.map fun version =>
      RadioEvent.note (firmwareNote version.1 version.2)).filterMap RadioEvent.received? = [] := by
    cases versionSaid frame <;> rfl
  have states : (if isOn (before ++ [frame]) = isOn before then []
      else [RadioEvent.note (radioNote (isOn (before ++ [frame])))]).filterMap
        RadioEvent.received? = [] := by
    split <;> rfl
  have errors : ((payloadOf Command.error frame).toList.map fun payload =>
      RadioEvent.note (errorNote (payload.head?.getD 0))).filterMap RadioEvent.received? = [] := by
    cases payloadOf Command.error frame <;> rfl
  rw [versions, states, errors, List.append_nil, List.append_nil, List.append_nil]
  cases payloadOf Command.data frame <;> rfl

theorem received_sent (before : List Bytes) {sent : Sent} (proper : sent.Proper) :
    (told before (sent.orders.map fun order => order.1 :: order.2)).filterMap
      RadioEvent.received? = sent.received?.toList := by
  cases sent with
  | aside command payload =>
    have other := proper.2 command payload rfl
    simp only [Sent.orders, List.map_cons, List.map_nil, told, List.append_nil, received_tells,
      payloadOf, if_neg other]
    rfl
  | packet rssi snr payload =>
    have strength : payloadOf Command.data [Command.statRssi, rssi] = none := rfl
    have noise : payloadOf Command.data [Command.statSnr, snr] = none := rfl
    have packet : payloadOf Command.data (Command.data :: payload) = some payload := rfl
    simp only [Sent.orders, List.map_cons, List.map_nil, told, List.append_nil,
      List.filterMap_append, received_tells, strength, noise, packet]
    have reported : rssiOf (before ++ [[Command.statRssi, rssi]] ++ [[Command.statSnr, snr]]) =
        some (rssiOn rssi) := by
      rw [rssiOf, latest_concat, latest_concat]
      rfl
    have heard : snrOf (before ++ [[Command.statRssi, rssi]] ++ [[Command.statSnr, snr]]) =
        some (snrOn snr) := by
      rw [snrOf, latest_concat]
      rfl
    rw [reported, heard]
    rfl

theorem received_all (before : List Bytes) {device : List Sent}
    (proper : ∀ sent ∈ device, sent.Proper) :
    (told before ((device.flatMap Sent.orders).map fun order => order.1 :: order.2)).filterMap
      RadioEvent.received? = device.filterMap Sent.received? := by
  induction device generalizing before with
  | nil => rfl
  | cons sent device ih =>
    rw [List.flatMap_cons, List.map_append, told_append, List.filterMap_append,
      received_sent before (proper sent List.mem_cons_self),
      ih _ fun other mem => proper other (List.mem_cons_of_mem _ mem)]
    cases said : sent.received? <;> simp [said]

/-- After noise the frame that it was in is ended by the first delimiter. -/
theorem framesIn_noise (noise stream : Bytes) : framesIn (noise ++ fend :: stream) =
    framesIn (noise ++ [fend]) ++
      (((Deframer.new frameLimit).push (noise ++ [fend])).1.push (fend :: stream)).2 := by
  have again : ((Deframer.new frameLimit).push (noise ++ [fend])).1.push (fend :: stream) =
      ((Deframer.new frameLimit).push (noise ++ [fend])).1.push stream := by
    rw [Deframer.push_append, ← List.singleton_append, Deframer.push_append]
    simp [Deframer.push, Deframer.pushByte]
  have split : noise ++ fend :: stream = (noise ++ [fend]) ++ stream := by simp
  rw [split, framesIn_append, again]

theorem ready_ended (noise : Bytes) : let d := ((Deframer.new frameLimit).push (noise ++ [fend])).1
    d.Ready ∧ d.limit = frameLimit := by
  have keeps : ∀ (d : Deframer) (byte : UInt8), d.limit = frameLimit →
      (d.pushByte byte).1.limit = frameLimit ∧ ∀ frame ∈ (d.pushByte byte).2, True := by
    intro d byte limited
    refine ⟨?_, fun _ _ => trivial⟩
    unfold Deframer.pushByte Deframer.keep
    repeat' split
    all_goals exact limited
  have limited := (feed_keeps Deframer.pushByte (I := fun d => d.limit = frameLimit)
    (G := fun _ => True) keeps (s := Deframer.new frameLimit) rfl noise).1
  intro d
  have last : d = (((Deframer.new frameLimit).push noise).1.pushByte fend).1 := by
    show ((Deframer.new frameLimit).push (noise ++ [fend])).1 = _
    rw [Deframer.push_append]
    rfl
  rw [last, Deframer.pushByte, if_pos rfl]
  exact ⟨rfl, limited⟩

theorem written_fend {orders : List (UInt8 × Bytes)} (some : orders ≠ []) :
    ∃ stream, orders.flatMap written = fend :: stream := by
  cases orders with
  | nil => exact absurd rfl some
  | cons order orders => exact ⟨_, rfl⟩

/-- Whatever was on the line before, and however it is cut, every packet that the device sends
with its report is told to the host once, in order, with that report. -/
theorem packets_told (profile : PhyProfile) (calls : List Call) (noise : Bytes)
    (device : List Sent) (some : device ≠ []) (proper : ∀ sent ∈ device, sent.Proper)
    (same : heard calls = noise ++ (device.flatMap Sent.orders).flatMap written) :
    let out := feed RNodeLink.call (.new profile) calls
    (out.2.filterMap Reply.event? ++ out.1.events).filterMap RadioEvent.received? =
      (told [] (framesIn (noise ++ [fend]))).filterMap RadioEvent.received? ++
        device.filterMap Sent.received? := by
  intro out
  obtain ⟨-, -, ⟨frames, split, events⟩, -⟩ := did_all (keeps_new profile) calls
  have fresh : framesIn [] = [] := rfl
  rw [List.nil_append, fresh, List.nil_append] at split
  have orders : device.flatMap Sent.orders ≠ [] := by
    cases device with
    | nil => exact absurd rfl some
    | cons sent device => cases sent <;> simp [Sent.orders]
  obtain ⟨stream, begins⟩ := written_fend orders
  obtain ⟨ready, limited⟩ := ready_ended noise
  have clear : ∀ order ∈ device.flatMap Sent.orders, Clear frameLimit order := by
    intro order mem
    obtain ⟨sent, inside, mem⟩ := List.mem_flatMap.mp mem
    exact (proper sent inside).1 order mem
  have heardFrames : frames = framesIn (noise ++ [fend]) ++
      (device.flatMap Sent.orders).map fun order => order.1 :: order.2 := by
    rw [← split, same, begins, framesIn_noise, ← begins]
    rw [push_written ready fun order mem => limited.symm ▸ clear order mem]
  have all : out.2.filterMap Reply.event? ++ out.1.events = told [] frames := by
    rw [← events, fresh]
    rfl
  rw [all, heardFrames, told_append, List.filterMap_append, received_all _ proper]

/-- Noise that begins a packet, then one packet, which comes in two pieces. -/
theorem packets_told_cut :
    let device : List Sent := [.packet 57 0xE4 [fend, fesc, 1]]
    let noise : Bytes := [7, fend, 0, 9]
    let bytes := noise ++ (device.flatMap Sent.orders).flatMap written
    let calls : List Call := [.onSerial (bytes.take 9), .poll, .onSerial (bytes.drop 9)]
    let out := feed RNodeLink.call (.new eu868Sf10) calls
    (out.2.filterMap Reply.event? ++ out.1.events).filterMap RadioEvent.received? =
      [⟨[9], 0, 0⟩, ⟨[fend, fesc, 1], -100, -7⟩] := by
  intro device noise bytes calls out
  have told := packets_told eu868Sf10 calls noise device (by decide)
    (by
      intro sent mem
      rw [List.mem_singleton.mp mem]
      refine ⟨?_, by rintro _ _ ⟨⟩⟩
      unfold Clear
      decide)
    (by simp [calls, heard, bytes])
  exact told.trans (by decide +kernel)

end RNodeModem
