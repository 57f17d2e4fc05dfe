import Lcq.Admission
import Lcq.RadioQueue

/-!
# The node's loop

One turn of the loop: open a round or wait for one, close consultation and
drain what was held, speak, ask for repair, resend, read one frame, and see
whether the round is over. The journal is written in the places the source
writes it, and the process may die in any of them. What the clocks read, what
the radio hands over and what the duty cycle lets out are given; what only goes
into reports is left out.
-/

namespace NodeLoop

open Admission ByteFormat Contracts FileSystem JournalRecords JournalState LogJournal OrderedMap
  Program RadioQueue ReplayWindows Schedule Transitions Utterances Wire

/-! ## What a node has in mind -/

/-- What a frame is sent as. -/
inductive Sending where
  | opening
  | stage (stage : Stage)
  | request
  | resend
  deriving DecidableEq

/-- A frame handed to the radio: the beginning of the round it was scheduled by, when it was
due, when its sending began, whether it went out, and whether a split was known. -/
structure Handed where
  sending : Sending
  frame : Bytes
  anchor : Nat
  due : Nat
  start : Nat
  aired : Bool
  split : Bool

/-- What the ghosts remember of past lives. -/
structure Past where
  taken : List (Nat × Bytes)
  remembered : List (Nat × UInt64)
  handed : List Handed

/-- A ghost: which frames went where, in this life and, for the votes taken, in all. -/
structure Trace where
  restored : List Bytes
  /-- Genuine frames read since the round began, the frame that began it included. -/
  received : List Bytes
  counted : List (Nat × Bytes)
  /-- A held vote was drained at a time at which the state machine takes none. -/
  lapsed : Bool
  /-- Every vote counted or held, with its author. -/
  taken : List (Nat × Bytes)

/-- What decides whose votes count. -/
structure Tally where
  case : Case
  closed : Bool
  /-- Binding votes that came before the close, one for each member. -/
  early : Map Nat Bytes
  windows : List ReplayWindow
  ownAdmitted : Stage → Bool
  trace : Trace

structure Deliberation where
  tally : Tally
  heard : Heard
  acknowledged : Bool
  round : RoundId
  /-- The instant the round began. -/
  began : Option Nat
  attempts : Stage → Nat
  sent : Stage → Bool
  nextDue : Stage → Option Nat
  /-- Repair rounds already asked in. -/
  nackedRounds : Nat
  /-- The repair round last resent in. -/
  repairedRound : Option Nat
  repairDue : Option Nat
  forwards : Queue
  /-- Members whose frames disagreed with our round. -/
  foreign : Keys Nat
  split : Bool
  evidence : List Bytes
  /-- The loop has ended. -/
  finished : Bool
  /-- A ghost, of all lives: the marks made durable. -/
  remembered : List (Nat × UInt64)
  /-- A ghost, of this life and of those before it. -/
  handed : List Handed
  handedBefore : List Handed

structure Node where
  desk : Desk
  mind : Deliberation

/-! ## What a turn is given -/

/-- Where in a turn a clock is read and the journal written. -/
inductive Spot where
  | opening
  | anchor
  | closing
  | drained (member : Nat)
  | own (stage : Stage)
  | asking
  | resending
  | received
  | ending
  deriving DecidableEq

structure Turn where
  /-- The time to open the round oneself has come. -/
  opening : Bool
  received : Option Bytes
  /-- Whether the duty cycle and the radio let a frame out. -/
  airs : Sending → Bool
  /-- What a random delay is drawn from. -/
  entropy : Stage → UInt64
  /-- The readings of the monotonic clock. -/
  now : Spot → Nat → Nat
  clock : Spot → Clock
  envs : Spot → Nat → Env

variable (P : Postcard) {C : Primitives} (station : Station C)

/-! ## What a frame does -/

namespace Tally

variable (y : Tally)

def marked (member : Nat) (sequence : UInt64) : Tally :=
  { y with windows := y.windows.modify member fun window => window.mark sequence }

def hasReceived (frame : Bytes) : Tally :=
  match verified station frame with
  | none => y
  | some _ => { y with trace := { y.trace with received := y.trace.received ++ [frame] } }

def hasTaken (member : Nat) (frame : Bytes) : Tally :=
  { y with trace := { y.trace with taken := y.trace.taken ++ [(member, frame)] } }

/-- The frame is offered to the state machine. -/
def offered (frame : Bytes) (clock : Clock) : Admitted × Tally :=
  let (learned, case) := admitFrame station frame y.case clock
  match learned.bindingFrom with
  | none => (learned, { y with case })
  | some member =>
    (learned, { y.hasTaken member frame with
      case
      trace := { (y.hasTaken member frame).trace with
        counted := y.trace.counted ++ [(member, frame)] } })

/-- A verified vote the state machine refused for coming too early is kept. -/
def held (learned : Admitted) (frame : Bytes) : Tally :=
  match learned.verified with
  | none => y
  | some (member, _) =>
    if learned.refused = some .wrongStageForPhase ∧ learned.stageIndex = some 2 then
      { y.hasTaken member frame with early := y.early.insert member frame }
    else y

/-- A held vote is about to be offered. -/
def draining (clock : Clock) : Tally :=
  if y.case.untimely clock = true then { y with trace := { y.trace with lapsed := true } } else y

/-- One's own sequence goes in the window as well. -/
def ownMarked (frame : Bytes) : Tally :=
  match peekFrameHeader frame with
  | .error _ => y
  | .ok (_, sequence) => y.marked station.options.index sequence

def admittedOwn (stage : Stage) : Tally :=
  { y with ownAdmitted := Function.update y.ownAdmitted stage true }

end Tally

namespace Deliberation

variable (d : Deliberation)

/-- Whose vote has been counted goes into the next acknowledgement. -/
def heardFrom (learned : Admitted) : Deliberation :=
  match learned.bindingFrom with
  | none => d
  | some member => { d with heard := d.heard.heardFrom member }

/-- Being acknowledged oneself is remembered. -/
def acknowledgedBy (learned : Admitted) : Deliberation :=
  if learned.acknowledgesUs = true ∧ station.options.ignoreAcks = false then
    { d with acknowledged := true }
  else d

def hasRemembered (sender : Nat) (sequence : UInt64) : Deliberation :=
  { d with remembered := d.remembered ++ [(sender, sequence)] }

def handedOver (h : Handed) : Deliberation := { d with handed := d.handed ++ [h] }

def done (stage : Stage) : Deliberation :=
  { d with sent := Function.update d.sent stage true }

/-- An attempt is spent, and the next one waits for this member's slot in the next window, or
for a random point in it if the schedule is what is colliding. -/
def spent (anchor : Nat) (stage : Stage) (jitter : UInt64) : Deliberation :=
  let attempts := d.attempts stage + 1
  let due := anchor + fromMillis (offset station.options station.fleet.size stage
    + .ofNat attempts * retryGapMs station.options station.fleet.size + jitter)
  { d with
    attempts := Function.update d.attempts stage attempts
    nextDue := Function.update d.nextDue stage (some due) }

/-- When the next attempt at a stage's frame is due. -/
def dueAt (anchor : Nat) (stage : Stage) : Nat :=
  (d.nextDue stage).getD
    (anchor + fromMillis (offset station.options station.fleet.size stage))

/-- Enough members disagree: the schedule is split, once and for all. -/
def noteSplit : Deliberation := { d with split := d.split || decide (2 ≤ d.foreign.size) }

def suspects (member : Nat) : Deliberation := { d with foreign := d.foreign.insert member }

/-- Another opening of the same subject is kept whole, as evidence. -/
def openedAgain (other : RoundId) (opener : Nat) (frame : Bytes) : Deliberation :=
  if other ≠ d.round then
    let evidence := if d.evidence.length < 4 then d.evidence ++ [frame] else d.evidence
    ({ d with evidence }.suspects opener).noteSplit
  else d.noteSplit

/-- Whether a frame's timing implies another beginning of the round, a window's multiple apart
from ours or not. -/
def offBeat (anchor : Nat) (learned : Admitted) (sender : Nat) (frame : Bytes)
    (now : Nat → Nat) : Bool :=
  let size := station.fleet.size
  let options := station.options
  options.slots && (repairRound options size anchor (now 0)).isNone
    && decide (now 1 < repairStart options size anchor)
    && match learned.stageIndex.bind fun i => stageOf (.ofNat (i + 1)) with
      | none => false
      | some stage =>
        match checkedSub (now 2) (travel station stage sender frame) with
        | none => false
        | some implied =>
          let drift := (implied - anchor) + (anchor - implied)
          let window := max (wallMs options (stageWindowS options size * 1000)).toNat 1
          let residue := drift / 1000000 % window
          decide ((wallMs options (slotMs options)).toNat < min residue (window - residue))

/-- A verified frame says whether its sender shares our round. -/
def compared (anchor : Nat) (learned : Admitted) (frame : Bytes) (now : Nat → Nat) :
    Deliberation :=
  match learned.verified with
  | none => d
  | some (sender, _) =>
    let byLabel := learned.round.isSet && decide (learned.round ≠ d.round)
    if byLabel || offBeat station anchor learned sender frame now then
      (d.suspects sender).noteSplit
    else d.noteSplit

end Deliberation

/-! ## Repair -/

def forwardKey (author : Nat) (sequence : UInt64) : UInt64 :=
  (if author < 2 ^ 64 then UInt64.ofNat author else 0) <<< 48 ||| (sequence &&& 281474976710655)

/-- Other members' votes that a requester lacks and this node holds, as they arrived. -/
def carriedVotes (state : State) (requester : Nat) (heard : Heard) : List OutgoingFrame :=
  state.witnessed.toList.filterMap fun p =>
    (station.memberIndex p.1).bind fun member =>
      if member = requester ∨ heard.contains member = true then none
      else
        match peekFrameHeader p.2 with
        | .error _ => none
        | .ok (_, sequence) => some (.new p.2 (forwardKey member sequence))

/-- This node's own vote, if a requester lacks it. -/
def owedVote (journal : Journal) (heard : Heard) : Option OutgoingFrame :=
  let index := station.options.index
  if heard.contains index = false ∧
      hasVoted journal station.subject (station.memberId index) = true then
    (pending journal).head?.bind fun again =>
      match peekFrameHeader again.bytes with
      | .error _ => none
      | .ok (_, sequence) => some (.new again.bytes (forwardKey index sequence))
  else none

/-- Offer a frame that is asked for again; how many have been taken in. -/
def queueAgain (priority : Priority) (queued : Queue × Nat) (frame : OutgoingFrame) :
    Queue × Nat :=
  let forgotten := queued.1.forget frame.sequence
  match forgotten.offer frame priority with
  | .error _ => (forgotten, queued.2)
  | .ok queue => (queue, queued.2 + 1)

/-- Put down what a requester lacks for this node's own slot of the resend window. -/
def Deliberation.answering (d : Deliberation) (anchor : Nat) (journal : Journal)
    (learned : Admitted) (requester : Nat) (now : Nat) : Deliberation :=
  match repairRound station.options station.fleet.size anchor now with
  | none => d
  | some round =>
    if learned.nack = false ∨ d.repairedRound = some round then d
    else
      let routine :=
        if learned.heard.contains station.options.index = true then
          carriedVotes station journal.state requester learned.heard
        else []
      let carried := routine.foldl (queueAgain .routine) (d.forwards, 0)
      let queued :=
        (owedVote station journal learned.heard).toList.foldl (queueAgain .distress) carried
      if queued.2 = 0 then { d with forwards := queued.1 }
      else
        { d with
          forwards := queued.1
          repairedRound := some round
          repairDue := some (resendDue station.options station.fleet.size anchor round) }

/-! ## The parts of a turn -/

abbrev Act : Type := Prog Node Empty Unit

def minding (f : Deliberation → Deliberation) : Act :=
  change fun n => { n with mind := f n.mind }

def tallying (f : Tally → Tally) : Act := minding fun d => { d with tally := f d.tally }

/-- The outcome is worth a line in a report and not a stop. -/
def journaling (p : Prog Running JournalError Unit) : Act := do
  let _ ← caught (zoom (fun n : Node => n.desk.running)
    (fun running n => { n with desk := { n.desk with running } }) p)
  pure ()

def building (p : Prog Desk BuildError Bytes) : Prog Node Empty (Except BuildError Bytes) :=
  caught (zoom Node.desk (fun desk n => { n with desk }) p)

def offering (frame : Bytes) (clock : Clock) : Prog Node Empty Admitted := fun n =>
  let out := n.mind.tally.offered station frame clock
  (.ok out.1, { n with mind := { n.mind with tally := out.2 } })

/-- A mark that has become durable is told to the ghost. -/
def rememberSeen (env : Env) (sender : Nat) (sequence : UInt64) : Act :=
  if sender < 65536 then do
    match ← caught (zoom (fun n : Node => n.desk.running)
      (fun running n => { n with desk := { n.desk with running } })
      (markSeen P env (.ofNat sender) sequence)) with
    | .error _ => pure ()
    | .ok () => minding fun d => d.hasRemembered sender sequence
  else pure ()

def witnessing (env : Env) (learned : Admitted) (frame : Bytes) : Act :=
  match learned.bindingFrom with
  | none => pure ()
  | some member => journaling (witness P env (station.memberId member) frame)

def handing (t : Turn) (sending : Sending) (frame : Bytes) (anchor due start : Nat) : Act :=
  minding fun d =>
    d.handedOver ⟨sending, frame, anchor, due, start, t.airs sending, d.split⟩

def openRound (t : Turn) : Act := do
  let n ← read
  if n.mind.began = none ∧ t.opening = true then do
    let next := n.desk.running.journal.state.nextSequence
    -- the label has 32 bits; a number that does not fit is a broken invariant
    if 2 ^ 32 ≤ next.toNat then halt
    else do
      let round : RoundId := ⟨authorOf station.options.index, .ofNat next.toNat⟩
      minding fun d => { d with round }
      match ← building (buildTrigger P C station.fleet station.options station.keys
        (t.envs .opening 0) station.subject round) with
      | .error _ => pure ()
      | .ok frame => do
        let start := t.now .opening 0
        handing t .opening frame start start start
        -- the anchor is when the frame ends
        let air := fromMillis (wallMs station.options (airtimeMs frame.length))
        minding fun d => { d with began := some (t.now .opening 1 + air) }
  else pure ()

/-- Nothing to schedule against yet: listen for a frame that begins the round. -/
def await (t : Turn) : Act := do
  match t.received with
  | none => pure ()
  | some frame => do
    let n ← read
    if isReplay frame n.mind.tally.windows = true ∨ fromOutsideTheFleet station frame = true then
      pure ()
    else
      match triggerRound station frame with
      | some (round, opener, sequence) => do
        tallying fun y => y.marked opener sequence
        rememberSeen P (t.envs .anchor 0) opener sequence
        minding fun d =>
          { d with
            round
            began := some (t.now .anchor 0)
            tally := d.tally.hasReceived station frame }
      | none =>
        match lateAnchor station frame (t.now .anchor 0) with
        | none => pure ()
        | some late => do
          tallying fun y => y.marked late.author late.sequence
          rememberSeen P (t.envs .anchor 0) late.author late.sequence
          minding fun d =>
            { d with
              round := late.round
              began := some late.origin
              tally := d.tally.hasReceived station frame }
          -- the frame that gave the round away is offered like any other
          let learned ← offering station frame (t.clock .anchor)
          tallying fun y => y.held learned frame
          minding fun d => (d.heardFrom learned).acknowledgedBy station learned
          witnessing P station (t.envs .anchor 1) learned frame

/-- Offer what was held, in the order of the members. -/
def drain (t : Turn) : List (Nat × Bytes) → Act
  | [] => pure ()
  | (member, frame) :: rest => do
    tallying fun y => y.draining (t.clock (.drained member))
    let learned ← offering station frame (t.clock (.drained member))
    minding fun d => (d.heardFrom learned).acknowledgedBy station learned
    witnessing P station (t.envs (.drained member) 0) learned frame
    drain t rest

def closing (t : Turn) : Act := do
  let n ← read
  if n.mind.tally.closed = false ∧
      certainlyAfter (t.clock .closing 0) station.subject.consultationCutoff = true then
    match n.mind.tally.case.closeConsultation fun i => t.clock .closing (i + 1) with
    | .error _ => pure ()
    | .ok case => do
      tallying fun y => { y with case, closed := true, early := ∅ }
      drain P station t n.mind.tally.early.toList
  else pure ()

/-- How often a stage's frame may be sent. Only the binding vote is worth repeating. -/
def allowed (stage : Stage) : Nat :=
  if stage = .bindingSupport then station.options.attempts else 1

def rememberOwn (env : Env) (frame : Bytes) : Act :=
  match peekFrameHeader frame with
  | .error _ => pure ()
  | .ok (_, sequence) => rememberSeen P env station.options.index sequence

/-- One's own utterance is admitted without a radio, once. -/
def admitOwn (t : Turn) (stage : Stage) (frame : Bytes) : Act := do
  let n ← read
  if n.mind.tally.ownAdmitted stage = false then do
    tallying fun y => y.admittedOwn stage
    let learned ← offering station frame (t.clock (.own stage))
    minding fun d => d.heardFrom learned
  else pure ()

def jitter (d : Deliberation) (draw : UInt64) : UInt64 :=
  if d.split = true then
    entropyBelow draw
      (wallMs station.options (stageWindowS station.options station.fleet.size * 1000))
  else 0

def speak (t : Turn) (anchor : Nat) (stage : Stage) : Act := do
  let n ← read
  let due := n.mind.dueAt station anchor stage
  if allowed station stage ≤ n.mind.attempts stage ∨ n.mind.sent stage = true ∨
      t.now (.own stage) 0 < due ∨ (stage = .bindingSupport ∧ n.mind.tally.closed = false) then
    pure ()
  -- a slot that has gone is not caught up outside the slot
  else if due + slotWall station.options < t.now (.own stage) 1 then
    minding fun d => d.spent station anchor stage 0
  else if stage = .bindingSupport ∧ 0 < n.mind.attempts stage ∧ n.mind.acknowledged = true then
    minding fun d => d.done stage
  else do
    match ← building (build P C station.fleet station.options station.keys (t.envs (.own stage))
      stage station.subject n.mind.heard n.mind.round) with
    | .error _ => minding fun d =>
      { d.done stage with
        attempts := Function.update d.attempts stage (allowed station stage) }
    | .ok frame => do
      -- spent whether or not it went out
      handing t (.stage stage) frame anchor due (t.now (.own stage) 2)
      minding fun d => d.spent station anchor stage (jitter station d (t.entropy stage))
      tallying fun y => y.ownMarked station frame
      rememberOwn P station (t.envs (.own stage) 2) frame
      admitOwn station t stage frame
      if allowed station stage = 1 then minding fun d => d.done stage else pure ()

/-- Ask for the votes one lacks, saying which one has, once in a repair round. -/
def askForRepair (t : Turn) (anchor : Nat) : Act := do
  let n ← read
  let size := station.fleet.size
  match repairRound station.options size anchor (t.now .asking 0) with
  | none => pure ()
  | some round =>
    let due := requestDue station.options size anchor round
    if n.mind.tally.closed = true ∧ n.mind.nackedRounds ≤ round ∧ due ≤ t.now .asking 1 then do
      minding fun d => { d with nackedRounds := round + 1 }
      let missing := (List.range size).filter fun m =>
        decide (m ≠ station.options.index) && !n.mind.heard.contains m
      if missing = [] then pure ()
      else do
        match ← building (buildNack P C station.fleet station.options station.keys
          (t.envs .asking 0) station.subject n.mind.heard n.mind.round) with
        | .error _ => pure ()
        | .ok frame => handing t .request frame anchor due (t.now .asking 2)
    else pure ()

/-- One frame a slot, in the queue's order. -/
def resend (t : Turn) (anchor : Nat) : Act := do
  let n ← read
  match n.mind.repairDue with
  | none => pure ()
  | some due =>
    if due ≤ t.now .resending 0 then do
      minding fun d => { d with repairDue := none }
      match n.mind.forwards.takeNext with
      | none => pure ()
      | some (carried, forwards) => do
        minding fun d => { d with forwards }
        handing t .resend carried.bytes anchor due (t.now .resending 1)
    else pure ()

/-- A verified frame is marked, kept if it is a vote that came too early, answered if it asks
for repair and compared with our round; a vote that was counted is witnessed. -/
def learn (t : Turn) (anchor : Nat) (frame : Bytes) (learned : Admitted) : Act := do
  match learned.verified with
  | none => pure ()
  | some (sender, sequence) => do
    tallying fun y => y.marked sender sequence
    rememberSeen P (t.envs .received 0) sender sequence
    tallying fun y => y.held learned frame
    let n ← read
    let journal := n.desk.running.journal
    minding fun d => d.answering station anchor journal learned sender (t.now .received 0)
    minding fun d => d.compared station anchor learned frame fun i => t.now .received (i + 1)
    minding fun d => (d.heardFrom learned).acknowledgedBy station learned
    witnessing P station (t.envs .received 1) learned frame

def approved (case : Case) : Bool :=
  match Quorum.evaluate station.policy case.bindingSupporters with
  | .error _ => false
  | .ok outcome => outcome.approved

/-- Listening stops when endorsement is expected, or with the schedule once there is a
quorum. -/
def ending (t : Turn) (anchor : Nat) : Act := do
  let n ← read
  let options := station.options
  let horizon := anchor + fromMillis (wallMs options (endorsementTargetSeconds * 1000))
  let scheduledEnd :=
    anchor + fromMillis (wallMs options (finish options station.fleet.size * 1000))
  let endorsedNow :=
    decide (scheduledEnd ≤ t.now .ending 0) && approved station n.mind.tally.case
  if horizon ≤ t.now .ending 1 ∨ endorsedNow = true then
    minding fun d => { d with finished := true }
  else pure ()

/-- At most one frame a turn. What is dropped by its header, and what opens a round, goes past
the end of the turn. -/
def hear (t : Turn) (anchor : Nat) : Act := do
  match t.received with
  | none => ending station t anchor
  | some frame => do
    let n ← read
    tallying fun y => y.hasReceived station frame
    if isReplay frame n.mind.tally.windows = true ∨ fromOutsideTheFleet station frame = true then
      pure ()
    else
      match triggerRound station frame with
      | some (other, opener, sequence) => do
        tallying fun y => y.marked opener sequence
        rememberSeen P (t.envs .received 0) opener sequence
        minding fun d => d.openedAgain other opener frame
      | none => do
        let learned ← offering station frame (t.clock .received)
        learn P station t anchor frame learned
        ending station t anchor

def turn (t : Turn) : Act := do
  openRound P station t
  let n ← read
  match n.mind.began with
  | none => await P station t
  | some anchor => do
    closing P station t
    speak P station t anchor .independent
    speak P station t anchor .consultation
    speak P station t anchor .bindingSupport
    askForRepair P station t anchor
    resend t anchor
    hear P station t anchor

/-! ## Lives -/

/-- The votes a restart puts back before the close: those witnessed, and its own. -/
def restoredEarly (state : State) : Map Nat Bytes :=
  let witnessed := state.witnessed.toList.foldl (fun early p =>
    match station.memberIndex p.1 with
    | none => early
    | some index => early.insert index p.2) ∅
  match (values state.pending).head? with
  | some frame =>
    if lockKey station.subject (station.memberId station.options.index) ∈ state.locks then
      witnessed.insert station.options.index frame.bytes
    else witnessed
  | none => witnessed

/-- Whether a restart finds its own vote and puts it back. -/
def recoveredVote (state : State) : Bool :=
  decide (lockKey station.subject (station.memberId station.options.index) ∈ state.locks) &&
    (values state.pending).head?.isSome

def resumedWindows (state : State) : List ReplayWindow :=
  (List.range station.fleet.size).map fun index =>
    if index < 65536 then
      match state.seen[UInt16.ofNat index]? with
      | none => .new
      | some sequence => .resumed sequence
    else .new

def Tally.begin (state : State) (taken : List (Nat × Bytes)) : Tally where
  case := .open station.subject
  closed := false
  early := restoredEarly station state
  windows := resumedWindows station state
  ownAdmitted stage := decide (stage = .bindingSupport) && recoveredVote station state
  trace :=
    { restored := (restoredEarly station state).toList.map Prod.snd
      received := []
      counted := []
      lapsed := false
      taken }

/-- What a life begins with in mind. -/
def Deliberation.begin (state : State) (past : Past) : Deliberation where
  tally := .begin station state past.taken
  heard := .none
  acknowledged := false
  round := .none
  began := none
  attempts _ := 0
  sent _ := false
  nextDue _ := none
  nackedRounds := 0
  repairedRound := none
  repairDue := none
  forwards := .withCapacity 64 (64 * maxFrameBytes)
  foreign := ∅
  split := false
  evidence := []
  finished := false
  remembered := past.remembered
  handed := []
  handedBefore := past.handed

/-- A member's lives over one journal: dead, there is the file and what the ghosts remember. -/
inductive Lives where
  | dead (disk : Disk Path) (sealed : List Sealing) (past : Past)
  | alive (node : Node)

/-- What can happen to a member. A life that ends by itself ends like one that is ended. -/
inductive Happening where
  | boot (entropy : UInt64) (opening entering : Env)
  | turn (t : Turn)
  | crash

/-- Open the journal and enter the mission's epoch, or do not run at all. -/
def boot (path : Path) (entropy : UInt64) (opening entering : Env) :
    Prog (Disk Path) Empty Journal := fun d =>
  match openWithEntropy P opening path entropy d with
  | (.error _, d) => (.error .died, d)
  | (.ok journal, d) =>
    -- a manifest older than the epoch the journal has run under is refused
    if (journal.state.epoch.any fun seen => decide (station.fleet.missionEpoch < seen)) = true then
      (.error .died, d)
    else
      match enterEpoch P entering station.fleet.missionEpoch ⟨d, journal⟩ with
      | (.error _, s) => (.error .died, s.disk)
      | (.ok (), s) => (.ok s.journal, s.disk)

namespace Lives

def ended (node : Node) : Lives :=
  .dead node.desk.running.disk node.desk.sealed
    ⟨node.mind.tally.trace.taken, node.mind.remembered,
      node.mind.handedBefore ++ node.mind.handed⟩

def next (path : Path) : Lives → Happening → Lives
  | .dead disk sealed past, .boot entropy opening entering =>
    match boot P station path entropy opening entering disk with
    | (.error _, disk) => .dead disk sealed past
    | (.ok journal, disk) =>
      .alive ⟨⟨⟨disk, journal⟩, sealed⟩, .begin station journal.state past⟩
  | .alive node, .turn t =>
    -- a node whose loop has ended has only its report left
    if node.mind.finished = true then .alive node
    else
      match NodeLoop.turn P station t node with
      | (.error _, node) => ended node
      | (.ok (), node) => .alive node
  | .alive node, .crash => ended node
  | lives, _ => lives

def after (path : Path) (lives : Lives) (happenings : List Happening) : Lives :=
  happenings.foldl (next P station path) lives

end Lives
end NodeLoop
