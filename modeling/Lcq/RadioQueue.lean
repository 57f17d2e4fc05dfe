import Lcq.JournalState

/-!
# What is waiting to go out

A bounded queue in two classes, distress before routine with a share kept for
routine, and a bounded memory of the identities it has taken in.
-/

namespace RadioQueue

open ByteFormat Contracts JournalState OrderedMap

inductive QueueError where
  | full
  | duplicate
  deriving DecidableEq

def QueueError.message : QueueError → String
  | full => "queue is at capacity"
  | duplicate => "frame already seen"

inductive Priority where
  | routine
  | distress
  deriving DecidableEq

structure Queue where
  distress : List OutgoingFrame
  routine : List OutgoingFrame
  seen : Keys UInt64
  seenOrder : List UInt64
  maxItems : Nat
  maxBytes : Nat
  queuedBytes : Nat
  distressStreak : UInt8

/-- Distress frames sent one behind the other before routine traffic gets a turn. -/
def distressBurst : UInt8 := 8

def maxDedupEntries : Nat := 1024

/-- Drop the oldest identities until few enough are left. -/
def evict (seen : Keys UInt64) : List UInt64 → Keys UInt64 × List UInt64
  | [] => (seen, [])
  | oldest :: order =>
    if maxDedupEntries < (oldest :: order).length then evict (seen.erase oldest) order
    else (seen, oldest :: order)

namespace Queue

def withCapacity (maxItems maxBytes : Nat) : Queue where
  distress := []
  routine := []
  seen := ∅
  seenOrder := []
  maxItems
  maxBytes
  queuedBytes := 0
  distressStreak := 0

variable (q : Queue)

def length : Nat := q.distress.length + q.routine.length

def remember (sequence : UInt64) : Queue :=
  let (seen, seenOrder) := evict (q.seen.insert sequence) (q.seenOrder ++ [sequence])
  { q with seen, seenOrder }

def offer (frame : OutgoingFrame) (priority : Priority) : Except QueueError Queue :=
  if frame.sequence ∈ q.seen then .error .duplicate
  else if q.maxItems ≤ q.length ∨ q.maxBytes < q.queuedBytes + frame.bytes.length then
    .error .full
  else
    let q := q.remember frame.sequence
    let q := { q with queuedBytes := q.queuedBytes + frame.bytes.length }
    match priority with
    | .distress => .ok { q with distress := q.distress ++ [frame] }
    | .routine => .ok { q with routine := q.routine ++ [frame] }

/-- Forget an identity, so that the same frame may be offered again. -/
def forget (sequence : UInt64) : Queue :=
  if sequence ∈ q.seen then
    { q with
      seen := q.seen.erase sequence
      seenOrder := q.seenOrder.filter fun remembered => decide (remembered ≠ sequence) }
  else q

def counted (frame : OutgoingFrame) : Queue :=
  { q with queuedBytes := q.queuedBytes - frame.bytes.length }

def takeRoutine : Option (OutgoingFrame × Queue) :=
  match q.routine with
  | [] => none
  | frame :: routine => some (frame, { q with routine }.counted frame)

def takeNext : Option (OutgoingFrame × Queue) :=
  if (q.distress = [] ∨ distressBurst ≤ q.distressStreak) ∧ q.routine ≠ [] then
    { q with distressStreak := 0 }.takeRoutine
  else
    match q.distress with
    | frame :: distress =>
      let streak := if q.distressStreak = 255 then 255 else q.distressStreak + 1
      some (frame, { q with distress, distressStreak := streak }.counted frame)
    | [] => q.takeRoutine

/-- Discard the frames whose validity has passed, and count the others afresh. -/
def dropExpired (now : Timestamp) : Queue :=
  let expired (frame : OutgoingFrame) :=
    frame.expiresAt.any fun deadline => decide (deadline.secs < now.secs)
  let distress := q.distress.filter fun frame => !expired frame
  let routine := q.routine.filter fun frame => !expired frame
  { q with
    distress
    routine
    queuedBytes := ((distress ++ routine).map fun frame => frame.bytes.length).sum }

end Queue
end RadioQueue
