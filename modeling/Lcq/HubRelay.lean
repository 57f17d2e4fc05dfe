import Lcq.HubMessages
import Lcq.Medium
import Lcq.OrderedMap
import Lcq.Schedule

/-!
# The channel emulator

One shared medium between nodes that are processes of their own. A thread for
each connection takes frames off it; the relay puts them on the air, tells the
others that a frame has begun, and when it has ended decides its fate at each
of them. Instants are in nanoseconds; whether the halves of the fleet are
isolated and whether the residual loss strikes is given.
-/

namespace HubRelay

open ByteFormat HubMessages Medium OrderedMap PrefixedStreams
open Contracts (saturatingSub)
open Schedule (airtimeMs fromMillis)
open VirtualChip (Verdict Delivery)

/-! ## Frames on the air -/

/-- One frame arriving from a node. -/
structure Incoming where
  sender : Nat
  bytes : Bytes
  instant : Nat

/-- A frame holding the channel until it lands. -/
structure InFlight where
  sender : Nat
  bytes : Bytes
  startsAt : Nat
  endsAt : Nat
  /-- Every receiver has been told, or not, and only the overlap record remains. -/
  done : Bool
  deriving DecidableEq

/-- A collided frame reaches its receiver as bytes that are not the sender's. -/
def garble : UInt8 := 0xA5

/-- To the nearest whole number, halves away from zero. -/
def nearest (q : ℚ) : Int := if 0 ≤ q then ⌊q + 1 / 2⌋ else ⌈q - 1 / 2⌉

def noiseFloorDbm : ℚ := -117

def rssiDbm : Power → Int16
  | .silence => .ofInt (-300)
  | .infinity => .ofInt 100
  | .dbm p => .ofInt (max (-300) (min 100 (nearest p)))

def snrDb : Power → Int8
  | .silence => .ofInt (-30)
  | .infinity => .ofInt 12
  | .dbm p => .ofInt (nearest (max (-30) (min 12 (p - noiseFloorDbm))))

/-- A duration in whole milliseconds, as many as there is room for. -/
def millis32 (duration : Nat) : UInt32 :=
  if duration / 1000000 < 2 ^ 32 then .ofNat (duration / 1000000) else 4294967295

def millis64 (duration : Nat) : UInt64 :=
  if duration / 1000000 < 2 ^ 64 then .ofNat (duration / 1000000) else 18446744073709551615

/-- The payload as a receiver gets it. -/
def payload (bytes : Bytes) : Verdict → Bytes
  | .decoded => bytes
  | .crcError => bytes.map fun byte => byte ^^^ garble
  | .headerError => []

/-- What one receiver gets: the frame as sent, or its wreck. -/
def delivery (frame : InFlight) (power : Power) (verdict : Verdict) : Delivery where
  bytes := payload frame.bytes verdict
  rssiDbm := rssiDbm power
  snrDb := snrDb power
  airtimeMs := millis32 (frame.endsAt - frame.startsAt)
  verdict

/-! ## The hub -/

/-- How the emulator was configured. The powers come from where the members are. -/
structure Options where
  fleet : Nat
  scale : UInt32
  partition : Bool
  /-- There is a residual loss. -/
  lossy : Bool
  rssi : Nat → Nat → Power

namespace Options

variable (options : Options)

/-- Whether one member's frames get to another, with the halves isolated or not. -/
def reaches (isolated : Bool) (sender receiver : Nat) : Bool :=
  let sameHalf := decide (sender < options.fleet / 2) == decide (receiver < options.fleet / 2)
  (!options.partition && !isolated) || sameHalf

def air (length : Nat) : Nat := fromMillis (airtimeMs length / (max options.scale 1).toUInt64)

end Options

/-- Something the hub has told a node. A ghost, but for what it puts on the socket. -/
inductive Message where
  | notice (preamble : Preamble)
  | handed (frame : InFlight) (power : Power) (verdict : Verdict)
  deriving DecidableEq

def Message.inbound : Message → Inbound
  | .notice preamble => .preamble preamble
  | .handed frame power verdict => .delivery (delivery frame power verdict)

/-- One node's connection: how far its reader in the hub is, and what the hub has put on it. -/
structure Connection where
  member : Nat
  reader : Phase
  written : Bytes
  told : List Message

namespace Connection

def accepted (member : Nat) : Connection where
  member
  reader := .between
  written := []
  told := []

def tell (c : Connection) (message : Message) : Connection :=
  { c with
    written :=
      match message with
      | .notice preamble => writePreamble c.written preamble
      | .handed frame power verdict => writeDelivery c.written (delivery frame power verdict)
    told := c.told ++ [message] }

end Connection

structure Hub where
  connections : List Connection
  /-- The connection each member made last. -/
  writers : Map Nat Nat
  inbox : List Incoming
  /-- Every frame in flight, and those that ended a little while ago. -/
  frames : List InFlight

/-- Where in a turn the clock is read to see whether the halves are isolated. -/
inductive Look where
  | starting (target : Nat)
  | ending (index target : Nat)
  | over (index other target : Nat)

/-- What one turn of the relay is given. -/
structure Turn where
  /-- The wait for a frame ends with one, if there is one. -/
  receives : Bool
  now : Nat
  isolated : Look → Bool
  /-- Whether the residual loss takes a frame, by its place, on its way to a member. -/
  lost : Nat → Nat → Bool

namespace Hub

def start : Hub where
  connections := []
  writers := ∅
  inbox := []
  frames := []

variable (options : Options) (hub : Hub)

def tell (connection : Nat) (message : Message) : Hub :=
  { hub with connections := hub.connections.modify connection fun c => c.tell message }

/-- A member that connects again replaces its own socket. -/
def connect (member : UInt16) : Hub :=
  { hub with
    connections := hub.connections ++ [.accepted member.toNat]
    writers := hub.writers.insert member.toNat hub.connections.length }

/-- More bytes come from a node. -/
def arrives (connection : Nat) (bytes : Bytes) (instant : Nat) : Hub :=
  match hub.connections[connection]? with
  | none => hub
  | some c =>
    let (reader, frames) := readFrames c.reader bytes
    { hub with
      connections := hub.connections.modify connection fun c => { c with reader }
      inbox := hub.inbox ++ frames.map fun bytes => ⟨c.member, bytes, instant⟩ }

/-- Tell every receiver in range that a frame has begun. -/
def announceStart (isolated : Look → Bool) (incoming : Incoming) (air : Nat) : Hub :=
  hub.writers.toList.foldl (fun hub writer =>
    let (target, connection) := writer
    if target = incoming.sender ∨
        options.reaches (isolated (.starting target)) incoming.sender target = false then hub
    else
      let power := options.rssi incoming.sender target
      if power.below sensitivityDbm = true then hub
      else hub.tell connection (.notice ⟨rssiDbm power, millis32 air⟩)) hub

/-- The frames that were on the air together with one of them, and their places. -/
def overlappers (frames : List InFlight) (index : Nat) (frame : InFlight) :
    List (InFlight × Nat) :=
  frames.zipIdx.filter fun p =>
    decide (p.2 ≠ index) && decide (p.1.startsAt < frame.endsAt) &&
      decide (frame.startsAt < p.1.endsAt)

/-- How a receiver sees the frames on the air, timed from an origin. -/
def seen (origin target : Nat) (frame : InFlight) : Transmission :=
  let start := millis64 (frame.startsAt - origin)
  let air := saturatingSub (millis64 (frame.endsAt - origin)) start
  if frame.sender = target then .ownTransmission start air
  else ⟨start, air, options.rssi frame.sender target⟩

/-- What becomes of a finished frame at one receiver, if anything gets there. -/
def verdictAt (frames : List InFlight) (t : Turn) (index : Nat) (frame : InFlight) (target : Nat) :
    Option Verdict :=
  if target = frame.sender ∨
      options.reaches (t.isolated (.ending index target)) frame.sender target = false then none
  else
    let origin := (frames.map InFlight.startsAt).min?.getD frame.startsAt
    let others := (overlappers frames index frame).filter fun p =>
      options.reaches (t.isolated (.over index p.2 target)) p.1.sender target
    match judge (seen options origin target frame) (Acquisition.defaultProfile.scaled options.scale)
        (others.map fun p => seen options origin target p.1) with
    | .tooWeak => none
    | .noLock => none
    | .headerError => some .headerError
    | .crcError => some .crcError
    | .decoded =>
      if (options.lossy && t.lost index target) = true then none else some .decoded

/-- Decide a finished frame's fate at every receiver, and deliver where it won. -/
def settle (t : Turn) (index : Nat) (frame : InFlight) : Hub :=
  hub.writers.toList.foldl (fun told writer =>
    let (target, connection) := writer
    match verdictAt options hub.frames t index frame target with
    | none => told
    | some verdict =>
      told.tell connection (.handed frame (options.rssi frame.sender target) verdict)) hub

/-- Take one frame in, if there is one. -/
def receive (t : Turn) : Hub :=
  match hub.inbox with
  | [] => hub
  | incoming :: inbox =>
    if t.receives = false then hub
    else
      let air := options.air incoming.bytes.length
      let told := announceStart options { hub with inbox } t.isolated incoming air
      { told with
        frames := told.frames ++
          [⟨incoming.sender, incoming.bytes, incoming.instant, incoming.instant + air, false⟩] }

/-- The frames that have finished and are not settled, and their places. -/
def ended (now : Nat) : List (InFlight × Nat) :=
  hub.frames.zipIdx.filter fun p => !p.1.done && decide (p.1.endsAt ≤ now)

def settled (t : Turn) : Hub :=
  (hub.ended t.now).foldl (fun hub p =>
    let told := hub.settle options t p.2 p.1
    { told with frames := told.frames.modify p.2 fun frame => { frame with done := true } }) hub

/-- Settled frames are kept a little longer than any frame can last. -/
def forgetting (now : Nat) : Hub :=
  { hub with
    frames := hub.frames.filter fun frame =>
      !frame.done || decide (now < frame.endsAt + fromMillis 5000) }

def turn (t : Turn) : Hub := ((hub.receive options t).settled options t).forgetting t.now

end Hub

/-- What can happen to the emulator. -/
inductive Happening where
  | connect (member : UInt16)
  | arrives (connection : Nat) (bytes : Bytes) (instant : Nat)
  | turn (t : Turn)

namespace Hub

def next (options : Options) (hub : Hub) : Happening → Hub
  | .connect member => hub.connect member
  | .arrives connection bytes instant => hub.arrives connection bytes instant
  | .turn t => hub.turn options t

def after (options : Options) (hub : Hub) (happenings : List Happening) : Hub :=
  happenings.foldl (next options) hub

/-- The frames a step takes off a connection. -/
def readBy (hub : Hub) : Happening → List Bytes
  | .arrives connection bytes _ =>
    match hub.connections[connection]? with
    | none => []
    | some c => (readFrames c.reader bytes).2
  | .connect _ => []
  | .turn _ => []

/-- Every frame taken off a connection in a run is of a kind. -/
def alwaysReads (options : Options) (good : Bytes → Bool) : Hub → List Happening → Bool
  | _, [] => true
  | hub, happening :: rest =>
    (hub.readBy happening).all good && alwaysReads options good (hub.next options happening) rest

end Hub

/-! ## What is on the sockets -/

def Message.Good (good : Bytes → Prop) : Message → Prop
  | .notice _ => True
  | .handed frame _ _ => good frame.bytes

/-- What the hub has put on a connection is what it has told, of frames of a kind. -/
structure Connection.Sane (good : Bytes → Prop) (c : Connection) : Prop where
  reader : c.reader.Under 4096
  written : c.written = c.told.flatMap fun m => prefixed m.inbound.encode
  told : ∀ m ∈ c.told, m.Good good

structure Hub.Sane (good : Bytes → Prop) (hub : Hub) : Prop where
  connections : ∀ c ∈ hub.connections, c.Sane good
  inbox : ∀ incoming ∈ hub.inbox, good incoming.bytes
  frames : ∀ frame ∈ hub.frames, good frame.bytes

variable {good : Bytes → Prop} {options : Options} {hub : Hub}

theorem written_tell (c : Connection) (message : Message) :
    (c.tell message).written = c.written ++ prefixed message.inbound.encode := by
  cases message <;> rfl

theorem Connection.Sane.tell {c : Connection} (sane : c.Sane good) {message : Message}
    (fine : message.Good good) : (c.tell message).Sane good := by
  refine ⟨sane.reader, ?_, fun m mem => ?_⟩
  · rw [written_tell, sane.written]
    exact (List.flatMap_append.trans (by rw [List.flatMap_singleton])).symm
  · rcases List.mem_append.mp mem with before | now
    · exact sane.told m before
    · rw [List.mem_singleton.mp now]
      exact fine

theorem forall_modify {α : Type} {P : α → Prop} {f : α → α} {list : List α}
    (all : ∀ a ∈ list, P a) (kept : ∀ a, P a → P (f a)) (i : Nat) :
    ∀ a ∈ list.modify i f, P a := by
  intro a mem
  obtain ⟨j, here⟩ := List.mem_iff_getElem?.mp mem
  rw [List.getElem?_modify] at here
  obtain ⟨b, found, same⟩ := Option.map_eq_some_iff.mp here
  have holds := all b (List.mem_of_getElem? found)
  split at same
  · exact same ▸ kept b holds
  · exact same ▸ holds

namespace Hub.Sane

theorem tell (sane : hub.Sane good) (connection : Nat) {message : Message}
    (fine : message.Good good) : (hub.tell connection message).Sane good :=
  ⟨forall_modify sane.connections (fun _ sane => sane.tell fine) connection, sane.inbox,
    sane.frames⟩

theorem connect (sane : hub.Sane good) (member : UInt16) : (hub.connect member).Sane good := by
  refine ⟨fun c mem => ?_, sane.inbox, sane.frames⟩
  rcases List.mem_append.mp mem with before | now
  · exact sane.connections c before
  · rw [List.mem_singleton.mp now]
    exact ⟨trivial, rfl, fun _ none => absurd none List.not_mem_nil⟩

theorem arrives (sane : hub.Sane good) {connection : Nat} {bytes : Bytes} {instant : Nat}
    (read : ∀ frame ∈ hub.readBy (.arrives connection bytes instant), good frame) :
    (hub.arrives connection bytes instant).Sane good := by
  unfold Hub.arrives
  unfold readBy at read
  cases found : hub.connections[connection]? with
  | none => exact sane
  | some c =>
    simp only [found] at read
    obtain ⟨under, -⟩ :=
      readFrames_within (sane.connections c (List.mem_of_getElem? found)).reader bytes
    refine ⟨forall_modify sane.connections (fun d sane => ?_) connection, fun incoming mem => ?_,
      sane.frames⟩
    · exact ⟨under, sane.written, sane.told⟩
    · rcases List.mem_append.mp mem with before | now
      · exact sane.inbox incoming before
      · obtain ⟨frame, inside, rfl⟩ := List.mem_map.mp now
        exact read frame inside

/-- Going through the writers keeps what telling one of them keeps. -/
theorem foldl_writers {tells : Hub → Nat × Nat → Hub}
    (kept : ∀ hub writer, Hub.Sane good hub → Hub.Sane good (tells hub writer))
    (sane : hub.Sane good) (writers : List (Nat × Nat)) : (writers.foldl tells hub).Sane good := by
  induction writers generalizing hub with
  | nil => exact sane
  | cons writer writers ih => exact ih (kept hub writer sane)

variable (options) in
theorem announceStart (sane : hub.Sane good) (isolated : Look → Bool) (incoming : Incoming)
    (air : Nat) : (hub.announceStart options isolated incoming air).Sane good := by
  refine foldl_writers (fun hub writer sane => ?_) sane _
  dsimp only
  split
  · exact sane
  · split
    · exact sane
    · exact sane.tell _ trivial

variable (options) in
theorem settle (sane : hub.Sane good) (t : Turn) (index : Nat) {frame : InFlight}
    (fine : good frame.bytes) : (hub.settle options t index frame).Sane good := by
  refine foldl_writers (fun told writer sane => ?_) sane _
  dsimp only
  split
  · exact sane
  · exact sane.tell _ fine

variable (options) in
theorem receive (sane : hub.Sane good) (t : Turn) : (hub.receive options t).Sane good := by
  unfold Hub.receive
  split
  · exact sane
  · rename_i incoming inbox waiting
    split
    · exact sane
    · have waits := sane.inbox
      rw [waiting, List.forall_mem_cons] at waits
      obtain ⟨fine, later⟩ := waits
      have rest : Hub.Sane good { hub with inbox } := ⟨sane.connections, later, sane.frames⟩
      have told := rest.announceStart options t.isolated incoming
        (options.air incoming.bytes.length)
      refine ⟨told.connections, told.inbox, fun frame mem => ?_⟩
      rcases List.mem_append.mp mem with before | now
      · exact told.frames frame before
      · rw [List.mem_singleton.mp now]
        exact fine

variable (options) in
theorem settled (sane : hub.Sane good) (t : Turn) : (hub.settled options t).Sane good := by
  have fine : ∀ p ∈ hub.ended t.now, good p.1.bytes := fun p mem =>
    sane.frames p.1 (List.fst_mem_of_mem_zipIdx (List.mem_filter.mp mem).1)
  unfold Hub.settled
  generalize hub.ended t.now = ended at fine
  induction ended generalizing hub with
  | nil => exact sane
  | cons p ended ih =>
    rw [List.foldl_cons]
    have told := sane.settle options t p.2 (fine p List.mem_cons_self)
    refine ih ⟨told.connections, told.inbox, ?_⟩ fun q mem => fine q (List.mem_cons_of_mem _ mem)
    exact forall_modify (f := fun frame => { frame with done := true }) told.frames
      (fun _ fine => fine) p.2

variable (options) in
theorem turn (sane : hub.Sane good) (t : Turn) : (hub.turn options t).Sane good := by
  have told := (sane.receive options t).settled options t
  exact ⟨told.connections, told.inbox, fun frame mem =>
    told.frames frame (List.mem_filter.mp mem).1⟩

variable (options) in
theorem next (sane : hub.Sane good) {happening : Happening}
    (read : ∀ frame ∈ hub.readBy happening, good frame) :
    (hub.next options happening).Sane good := by
  cases happening with
  | connect member => exact sane.connect member
  | arrives connection bytes instant => exact sane.arrives read
  | turn t => exact sane.turn options t

end Hub.Sane

theorem sane_start : Hub.start.Sane good :=
  ⟨fun _ none => absurd none List.not_mem_nil, fun _ none => absurd none List.not_mem_nil,
    fun _ none => absurd none List.not_mem_nil⟩

theorem readBy_within (sane : hub.Sane good) (happening : Happening) :
    ∀ frame ∈ hub.readBy happening, frame ≠ [] ∧ frame.length ≤ 4096 := by
  intro frame mem
  cases happening with
  | connect member => exact absurd mem List.not_mem_nil
  | turn t => exact absurd mem List.not_mem_nil
  | arrives connection bytes instant =>
    unfold Hub.readBy at mem
    cases found : hub.connections[connection]? with
    | none =>
      simp only [found] at mem
      exact absurd mem List.not_mem_nil
    | some c =>
      simp only [found] at mem
      exact (readFrames_within (sane.connections c (List.mem_of_getElem? found)).reader bytes).2
        frame mem

variable (options) in
/-- In every run, whatever is told is of frames that a reader took. -/
theorem sane_after (sane : hub.Sane fun frame => frame ≠ [] ∧ frame.length ≤ 4096)
    (happenings : List Happening) :
    (hub.after options happenings).Sane fun frame => frame ≠ [] ∧ frame.length ≤ 4096 := by
  induction happenings generalizing hub with
  | nil => exact sane
  | cons happening happenings ih => exact ih (sane.next options (readBy_within sane happening))

variable (options) in
/-- In a run in which every frame read is of a kind, so is every frame told. -/
theorem sane_reading {kind : Bytes → Bool} (sane : hub.Sane fun frame => kind frame = true)
    {happenings : List Happening} (reads : hub.alwaysReads options kind happenings = true) :
    (hub.after options happenings).Sane fun frame => kind frame = true := by
  induction happenings generalizing hub with
  | nil => exact sane
  | cons happening happenings ih =>
    rw [Hub.alwaysReads, Bool.and_eq_true, List.all_eq_true] at reads
    exact ih (sane.next options reads.1) reads.2

/-! ## What its receivers can read -/

/-- There is room for what a receiver gets of a frame. -/
def RoomFor (bytes : Bytes) (verdict : Verdict) : Prop :=
  bytes.length ≤ maxSocketFrameBytes - deliveryHeaderBytes ∨ verdict = .headerError

theorem fits_delivery (frame : InFlight) (power : Power) (verdict : Verdict) :
    Fits (.delivery (delivery frame power verdict)) ↔ RoomFor frame.bytes verdict := by
  unfold Fits RoomFor delivery deliveryHeaderBytes maxSocketFrameBytes
  cases verdict with
  | decoded => simp [payload]; omega
  | crcError => simp [payload]; omega
  | headerError => simp [payload]

/-- A message there is room for. -/
def Message.Roomy : Message → Prop
  | .notice _ => True
  | .handed frame _ verdict => RoomFor frame.bytes verdict

theorem fits_inbound (message : Message) : Fits message.inbound ↔ message.Roomy := by
  cases message with
  | notice preamble => exact Iff.rfl
  | handed frame power verdict => exact fits_delivery frame power verdict

/-- The node has read all it was told and is listening, and was so however much of it had
arrived. -/
structure Connection.HearsAll (c : Connection) : Prop where
  read : readDeliveries c.written = (.between, c.told.map Message.inbound)
  along : ∀ arrived, arrived <+: c.written →
    (readDeliveries arrived).1 ≠ .gone ∧ (readDeliveries arrived).2 <+: c.told.map Message.inbound

/-- A node that stops reading, whatever else it is told. -/
def Connection.Deaf (c : Connection) : Prop :=
  ∀ more, readDeliveries (c.written ++ more) = (.gone, (readDeliveries c.written).2)

theorem Connection.Sane.stream {c : Connection} (sane : c.Sane good) :
    c.written = (c.told.map Message.inbound).flatMap fun m => prefixed m.encode := by
  rw [sane.written, List.flatMap_map]

theorem Connection.Sane.hears_iff {c : Connection} (sane : c.Sane good) :
    c.HearsAll ↔ ∀ m ∈ c.told, m.Roomy := by
  have all : readDeliveries c.written = (.between, c.told.map Message.inbound) ↔
      ∀ m ∈ c.told, m.Roomy := by
    rw [sane.stream, readDeliveries_iff, List.forall_mem_map]
    exact forall₂_congr fun m _ => fits_inbound m
  constructor
  · exact fun hears => all.mp hears.read
  · intro roomy
    have read := all.mpr roomy
    refine ⟨read, ?_⟩
    rintro arrived ⟨rest, whole⟩
    rw [← whole] at read
    refine ⟨?_, ?_⟩
    · have listening : (readDeliveries (arrived ++ rest)).1 ≠ .gone := by
        rw [read]
        exact Phase.noConfusion
      exact listening_before listening
    · have told : (readDeliveries (arrived ++ rest)).2 = c.told.map Message.inbound :=
        congrArg Prod.snd read
      rw [← told]
      exact reads_prefix _ _ _

theorem Connection.Sane.deaf {c : Connection} (sane : c.Sane good) {m : Message} (mem : m ∈ c.told)
    (long : ¬ m.Roomy) : c.Deaf := by
  have gone : (readDeliveries c.written).1 = .gone := by
    rw [sane.stream]
    exact readDeliveries_deaf (List.mem_map_of_mem mem) fun fits => long ((fits_inbound m).mp fits)
  intro more
  rw [readDeliveries, reads_append, show (reads _ _ _ c.written).1 = .gone from gone, reads_gone,
    List.append_nil]
  rfl

/-- A frame no longer than what a delivery has room for. -/
def short (frame : Bytes) : Bool :=
  decide (frame.length ≤ maxSocketFrameBytes - deliveryHeaderBytes)

/-- Of any frame the hub takes, with any verdict, power and airtime, what is written is read as
the same delivery if and only if the frame, with the header of a delivery, is within the limit, or
its own header was lost; a notice always is. In every run of the hub all it tells is of frames it
has taken, a node reads everything it is told and goes on listening if there is room for each
delivery, and is deaf for good as soon as there is not; and where every frame the hub takes is
short enough, every node hears all. -/
theorem accepted_is_read (options : Options) (happenings : List Happening) :
    (∀ frame power verdict, frame.bytes ≠ [] → frame.bytes.length ≤ 4096 →
        (readDeliveries (writeDelivery [] (delivery frame power verdict)) =
            (.between, [.delivery (delivery frame power verdict)]) ↔
          RoomFor frame.bytes verdict)) ∧
      (∀ preamble,
        readDeliveries (writePreamble [] preamble) = (.between, [.preamble preamble])) ∧
      (∀ c ∈ (Hub.start.after options happenings).connections,
        (∀ m ∈ c.told, m.Good fun frame => frame ≠ [] ∧ frame.length ≤ 4096) ∧
          (c.HearsAll ↔ ∀ m ∈ c.told, m.Roomy) ∧ (c.Deaf ↔ ∃ m ∈ c.told, ¬ m.Roomy)) ∧
      (Hub.start.alwaysReads options short happenings = true →
        ∀ c ∈ (Hub.start.after options happenings).connections, c.HearsAll) := by
  have one (inbound : Inbound) : readDeliveries (prefixed inbound.encode) = (.between, [inbound]) ↔
      Fits inbound := by
    have alone := readDeliveries_iff [inbound]
    rwa [List.flatMap_singleton, List.forall_mem_singleton] at alone
  refine ⟨fun frame power verdict _ _ => ?_, fun preamble => (one (.preamble preamble)).mpr trivial,
    fun c mem => ?_, fun reads c mem => ?_⟩
  · exact (one (.delivery (delivery frame power verdict))).trans (fits_delivery frame power verdict)
  · have sane := (sane_after options sane_start happenings).connections c mem
    refine ⟨sane.told, sane.hears_iff, fun deaf => ?_, fun ⟨m, told, long⟩ => sane.deaf told long⟩
    by_contra all
    simp only [not_exists, not_and, not_not] at all
    have stopped := deaf []
    rw [List.append_nil, (sane.hears_iff.mpr all).read] at stopped
    cases stopped
  · have sane := (sane_reading options sane_start reads).connections c mem
    refine sane.hears_iff.mpr fun m told => ?_
    cases m with
    | notice preamble => trivial
    | handed frame power verdict => exact Or.inl (of_decide_eq_true (sane.told _ told))

/-- Two members that are equally loud. -/
def pairOptions : Options where
  fleet := 2
  scale := 100
  partition := false
  lossy := false
  rssi _ _ := .dbm (-80)

/-- A turn that takes what there is, with no isolation and no loss. -/
def turnAt (now : Nat) : Turn where
  receives := true
  now
  isolated _ := false
  lost _ _ := false

/-- Two members connect; the first sends a frame, which goes on the air and ends. -/
def oneFrame (frame : Bytes) : List Happening :=
  [.connect 0, .connect 1, .arrives 0 (prefixed frame) 0, .turn (turnAt 0),
    .turn (turnAt 1000000000)]

theorem accepted_is_read_heard :
    let frame : InFlight := ⟨0, [7, 8], 0, 1000000, false⟩
    (readDeliveries (writeDelivery [] (delivery frame (.dbm (-80)) .decoded)) =
        (.between, [.delivery (delivery frame (.dbm (-80)) .decoded)]) ↔
      RoomFor frame.bytes .decoded) ∧
      (Hub.start.after pairOptions (oneFrame [7, 8])).connections.map
        (fun c => (c.member, c.told.length)) = [(0, 0), (1, 2)] ∧
      ∀ c ∈ (Hub.start.after pairOptions (oneFrame [7, 8])).connections, c.HearsAll := by
  intro frame
  refine ⟨(accepted_is_read pairOptions (oneFrame [7, 8])).1 frame (.dbm (-80)) .decoded
    (by decide) (by decide), by decide +kernel, ?_⟩
  exact (accepted_is_read pairOptions (oneFrame [7, 8])).2.2.2 (by decide +kernel)

/-- A frame the hub takes and no delivery has room for. -/
def longFrame : Bytes := List.replicate 4088 0

theorem longFrame_taken : readFrames .between (prefixed longFrame) = (.between, [longFrame]) := by
  have taken := (readFrames_iff [longFrame]).mpr fun frame mem => by
    rw [List.mem_singleton.mp mem]
    exact ⟨List.cons_ne_nil _ _, by rw [longFrame, List.length_replicate]; omega⟩
  exact taken

/-- The two have connected. -/
def pairConnected : Hub := Hub.start.after pairOptions [.connect 0, .connect 1]

theorem pair_writers : pairConnected.writers.toList = [(0, 0), (1, 1)] := by decide +kernel

/-- The first member's frame is on the air, and the second has been told that it has begun. -/
def pairBegun (frame : Bytes) : Hub :=
  { pairConnected with
    connections := [.accepted 0, (Connection.accepted 1).tell (.notice ⟨-80, 22⟩)]
    frames := [⟨0, frame, 0, 22000000, false⟩] }

theorem pair_arrives {frame : Bytes}
    (taken : readFrames .between (prefixed frame) = (.between, [frame])) :
    pairConnected.arrives 0 (prefixed frame) 0 =
      { pairConnected with inbox := [⟨0, frame, 0⟩] } := by
  have reader : pairConnected.connections[0]? = some (.accepted 0) := rfl
  unfold Hub.arrives
  rw [reader]
  dsimp only [Connection.accepted]
  rw [taken]
  rfl

theorem pair_noticed (frame : Bytes) :
    pairConnected.announceStart pairOptions (turnAt 0).isolated ⟨0, frame, 0⟩ 22000000 =
      { pairConnected with
        connections := [.accepted 0, (Connection.accepted 1).tell (.notice ⟨-80, 22⟩)] } := by
  have loud : (pairOptions.rssi 0 1).below sensitivityDbm = false := by decide +kernel
  have level : rssiDbm (pairOptions.rssi 0 1) = -80 := by decide +kernel
  have lasts : millis32 22000000 = 22 := by decide +kernel
  unfold Hub.announceStart
  rw [pair_writers]
  simp only [List.foldl_cons, List.foldl_nil, true_or, if_true, loud, level, lasts]
  rfl

theorem pair_begins {frame : Bytes} (length : frame.length = 4088) :
    Hub.turn pairOptions { pairConnected with inbox := [⟨0, frame, 0⟩] } (turnAt 0) =
      pairBegun frame := by
  have air : pairOptions.air 4088 = 22000000 := by decide +kernel
  have received : Hub.receive pairOptions { pairConnected with inbox := [⟨0, frame, 0⟩] }
      (turnAt 0) = pairBegun frame := by
    unfold Hub.receive
    dsimp only
    rw [length, air]
    rw [show Hub.announceStart pairOptions { pairConnected with inbox := [] } _ _ _ = _ from
      pair_noticed frame]
    rfl
  unfold Hub.turn
  rw [received]
  rfl

theorem pair_delivered (frame : Bytes) :
    (pairBegun frame).settle pairOptions (turnAt 1000000000) 0
        ⟨0, frame, 0, 22000000, false⟩ =
      (pairBegun frame).tell 1
        (.handed ⟨0, frame, 0, 22000000, false⟩ (.dbm (-80)) .decoded) := by
  have decoded : Hub.verdictAt pairOptions (pairBegun frame).frames (turnAt 1000000000) 0
      ⟨0, frame, 0, 22000000, false⟩ 1 = some .decoded := by
    -- the bytes are no matter to the verdict
    have any : Hub.verdictAt pairOptions [⟨0, [], 0, 22000000, false⟩] (turnAt 1000000000) 0
        ⟨0, [], 0, 22000000, false⟩ 1 = some .decoded := by decide +kernel
    exact any
  unfold Hub.settle
  rw [show (pairBegun frame).writers.toList = _ from pair_writers]
  simp only [List.foldl_cons, List.foldl_nil]
  rw [decoded]
  rfl

/-- What the second member is told of a frame of that length from the first. -/
theorem pair_told {frame : Bytes} (length : frame.length = 4088)
    (taken : readFrames .between (prefixed frame) = (.between, [frame])) :
    ((Hub.start.after pairOptions (oneFrame frame)).connections.map
      fun c => (c.member, c.told)) =
        [(0, []), (1, [.notice ⟨-80, 22⟩,
          .handed ⟨0, frame, 0, 22000000, false⟩ (.dbm (-80)) .decoded])] := by
  have run : Hub.start.after pairOptions (oneFrame frame) =
      Hub.turn pairOptions
        (Hub.turn pairOptions (pairConnected.arrives 0 (prefixed frame) 0) (turnAt 0))
        (turnAt 1000000000) := rfl
  have ended : (pairBegun frame).ended (turnAt 1000000000).now =
      [(⟨0, frame, 0, 22000000, false⟩, 0)] := rfl
  rw [run, pair_arrives taken, pair_begins length]
  unfold Hub.turn
  rw [show (pairBegun frame).receive pairOptions (turnAt 1000000000) = pairBegun frame from rfl]
  unfold Hub.settled
  rw [ended, List.foldl_cons, List.foldl_nil, pair_delivered]
  rfl

/-- The hub takes the first member's frame and delivers it, and the second never hears again. -/
theorem accepted_is_read_deaf :
    readFrames .between (prefixed longFrame) = (.between, [longFrame]) ∧
      ∃ c ∈ (Hub.start.after pairOptions (oneFrame longFrame)).connections,
        c.member = 1 ∧ c.Deaf := by
  refine ⟨longFrame_taken, ?_⟩
  have length : longFrame.length = 4088 := List.length_replicate
  have told := pair_told length longFrame_taken
  have second : (1, [.notice ⟨-80, 22⟩,
      .handed ⟨0, longFrame, 0, 22000000, false⟩ (.dbm (-80)) .decoded]) ∈
        (Hub.start.after pairOptions (oneFrame longFrame)).connections.map
          fun c => (c.member, c.told) := by
    rw [told]
    exact List.mem_cons_of_mem _ List.mem_cons_self
  obtain ⟨c, mem, same⟩ := List.mem_map.mp second
  rw [Prod.mk.injEq] at same
  obtain ⟨member, told⟩ := same
  have sane := (sane_after pairOptions sane_start (oneFrame longFrame)).connections c mem
  refine ⟨c, mem, member, sane.deaf (m := .handed ⟨0, longFrame, 0, 22000000, false⟩ (.dbm (-80))
    .decoded) (by rw [told]; exact List.mem_cons_of_mem _ List.mem_cons_self) ?_⟩
  rintro (short | lost)
  · rw [length] at short
    exact absurd short (by decide)
  · cases lost

end HubRelay
