import Lcq.ArrivalOrder
import Lcq.WitnessedVotes

/-!
# Votes over a restart

What a node has verified when it dies, it has again when it is back, or can
have again: the vote is held from the beginning of the next life, or its number
is above the mark, so that the frame is read when it is sent again; and what is
held is counted when consultation closes. Held votes are the exception: their
mark is made durable, and they are not, until they are counted.
-/

namespace RestoredVotes

open Admission ArrivalOrder ByteFormat CastVotes Contracts CrashSafety FileSystem FirstVotes
  JournalOutcomes JournalRecords JournalRuns JournalState JournaledTurns LogJournal NodeLoop
  NodeSteps OrderedMap Program ReplayWindows SafeTurns SeenOnce Supporters Transitions Undisturbed
  Utterances Wire WitnessedVotes

variable {P : Postcard} {C : Primitives} {station : Station C} {path : Path}

/-! ## What a restart puts back -/

section restarts

variable (station) (state : State)

/-- The frame a restart puts back for a member: what is on record of it, or, for the node
itself, the first frame pending, if its vote is locked. -/
def restored (member : Nat) : Option Bytes :=
  if member = station.options.index ∧
      lockKey station.subject (station.memberId member) ∈ state.locks then
    ((values state.pending).head?.map OutgoingFrame.bytes).or
      state.witnessed[station.memberId member]?
  else state.witnessed[station.memberId member]?

/-- A restart puts back no vote under another member's place. -/
def attributed : Bool :=
  (restoredEarly station state).toList.all fun p =>
    (castBy station p.2).all fun author => decide (author = p.1)

end restarts

section conditions

variable (P) (station) (path)

/-- What the second node has counted and the first has not. -/
def newlyCounted (n m : Node) : List (Nat × Bytes) :=
  m.mind.tally.trace.counted.filter fun p => !n.mind.tally.trace.counted.contains p

/-- The vote that a turn reads before consultation closes, if it comes to its radio. -/
def interrupted (t : Turn) (n : Node) : List (Nat × Bytes) :=
  match untilRadio P station t n, t.received with
  | (.ok anchor, k), some frame =>
    if (anchor.isSome || (lateAnchor station frame (t.now .anchor 0)).isSome)
        && !dropped station frame k.mind.tally && decide (k.mind.tally.case.phase = .consulting)
        && !certainlyAfter (atOffer t anchor 0) k.mind.tally.case.expiresAt then
      (castBy station frame).toList.map fun member => (member, frame)
    else []
  | _, _ => []

/-- The end of a life: the node when its last turn began, the node when it died, and the vote
that was being read. -/
structure Ending where
  before : Node
  after : Node
  reading : List (Nat × Bytes)

def ends : Lives → Happening → Option Ending
  | .alive n, .crash => some ⟨n, n, []⟩
  | .alive n, .turn t =>
    if n.mind.finished = true then none
    else
      match NodeLoop.turn P station t n with
      | (.error _, m) => some ⟨n, m, interrupted P station t n⟩
      | (.ok (), _) => none
  | _, _ => none

end conditions

/-! ## A life -/

/-- Every vote counted is on record, or is the node's own. -/
structure Recorded (P : Postcard) (station : Station C) (path : Path) (n : Node) : Prop where
  sound : Sound P path n.desk.running
  counted : Counted station n.mind.tally
  noted : ∀ p ∈ n.mind.tally.trace.counted, ownVote station n p = true ∨
    (records n)[station.memberId p.1]? = some p.2

section turns

variable {n m : Node} {t : Turn} (mild : ∀ spot i, Mild (t.envs spot i))
  (apart : path.extension ≠ some "compacting")
include mild apart

variable (station) in
/-- What is on record when a turn begins is on record wherever it stops. -/
theorem turn_keeps (sound : Sound P path n.desk.running) :
    let J := fun s : State => ∀ (author : String) frame, (records n)[author]? = some frame →
      s.witnessed[author]? = some frame
    Leads (turn P station t) n (fun _ m => J m.desk.running.journal.state)
      fun m => J (replay P (m.desk.running.disk.read path)).1 := by
  intro J
  have turned {s : State} {e : Entry} (_ : Turned e) (kept : J s) : J (s.apply e) :=
    fun author frame here => Witnesses.witnessed_apply s e (kept author frame here)
  have lasting : Lasting P station path fun _ s => J s := Lasting.journal apart turned
  exact (safe_turn lasting mild apart n ⟨sound, fun _ _ here => here⟩).weaken
    (fun _ _ stands => stands.2) fun _ fell => fell

/-- A turn that is survived puts on record what it counts. -/
theorem Recorded.turn (recorded : Recorded P station path n)
    (unopposed : ∀ p ∈ newlyCounted n m, ownVote station m p = true ∨
      WitnessedVotes.unopposed station P n.desk.running.journal.state p = true)
    (ran : NodeLoop.turn P station t n = (.ok (), m)) : Recorded P station path m := by
  have recording := turn_records mild apart
    (Recording.start recorded.sound recorded.counted) () m ran
  have kept := (turn_keeps station mild apart recorded.sound).returned () m ran
  refine ⟨recording.sound, recording.counted, fun p mem => ?_⟩
  by_cases before : p ∈ n.mind.tally.trace.counted
  · rcases recorded.noted p before with own | noted
    · exact Or.inl (ownVote_grows recording.spoken own)
    · exact Or.inr (kept _ _ noted)
  · rcases recording.noted p mem with old | own | opposed | owed | noted
    · exact absurd old before
    · exact Or.inl own
    · refine (unopposed p ?_).imp_right fun free => ?_
      · simp [newlyCounted, mem, before]
      · rw [opposed] at free
        cases free
    · cases owed
    · exact Or.inr noted

end turns

/-- What is held for a member casts no vote of another. -/
def Attributed (station : Station C) (y : Tally) : Prop :=
  ∀ (member : Nat) frame, y.early[member]? = some frame → ∀ author,
    castBy station frame = some author → author = member

section tallies

variable {y : Tally} {t : Turn} {p : Nat × Bytes}

/-- What a part of a turn does with the votes held: nothing, or the frame read is put in its
author's place, or they are all drained. -/
inductive Refiled (station : Station C) (t : Turn) (y z : Tally) : Prop
  | same (closed : z.closed = y.closed) (early : z.early = y.early)
  | filed {member : Nat} {frame : Bytes} (received : t.received = some frame)
      (cast : castBy station frame = some member) (closed : z.closed = y.closed)
      (early : z.early = y.early.insert member frame)
  | drained (closed : z.closed = true) (early : z.early = ∅)

theorem Refiled.aside {y z x : Tally} (refiled : Refiled station t y z) (closed : x.closed = z.closed)
    (early : x.early = z.early) : Refiled station t y x := by
  cases refiled with
  | same closed' early' => exact .same (closed.trans closed') (early.trans early')
  | filed received cast closed' early' =>
    exact .filed received cast (closed.trans closed') (early.trans early')
  | drained closed' early' => exact .drained (closed.trans closed') (early.trans early')

theorem Attributed.refiled {z : Tally} (attributed : Attributed station y)
    (refiled : Refiled station t y z) : Attributed station z := by
  intro member frame here author casts
  cases refiled with
  | same closed early => exact attributed member frame (early ▸ here) author casts
  | filed received cast closed early =>
    rw [early, get_insert] at here
    split at here
    · rename_i own
      cases here
      exact (Option.some.inj (casts.symm.trans cast)).trans own
    · exact attributed member frame here author casts
  | drained closed early =>
    rw [early] at here
    simp at here

/-- Once it is held, a vote waits until consultation closes. -/
def Waiting (p : Nat × Bytes) (y : Tally) : Prop := y.closed = true ∨ y.early[p.1]? = some p.2

theorem Waiting.refiled {z : Tally} (waiting : Waiting p y) (refiled : Refiled station t y z)
    (alone : ∀ frame, t.received = some frame → castBy station frame = some p.1 →
      frame = p.2) : Waiting p z := by
  cases refiled with
  | same closed early => exact waiting.imp closed.trans fun here => early ▸ here
  | filed received cast closed early =>
    refine waiting.imp closed.trans fun here => ?_
    rw [early, get_insert]
    split
    · rename_i own
      exact congrArg some (alone _ received (own ▸ cast))
    · exact here
  | drained closed early => exact Or.inl closed

section windows

variable {member : Nat}

end windows

end tallies

/-! ## The node a restart begins -/

/-- A turn reads a frame: it is received, its header does not drop it, and the node is in a round
or the frame gives it one. -/
structure Reads (station : Station C) (t : Turn) (anchor : Option Nat) (frame : Bytes)
    (y : Tally) : Prop where
  received : t.received = some frame
  undropped : dropped station frame y = false
  joined : anchor.isSome = true ∨ (lateAnchor station frame (t.now .anchor 0)).isSome = true

section restarted

variable {t : Turn} {anchor : Option Nat} {k z : Node} {p : Nat × Bytes}

end restarted

/-! ## Lives -/

theorem after_append (lives : Lives) (earlier later : List Happening) :
    lives.after P station path (earlier ++ later) =
      (lives.after P station path earlier).after P station path later := List.foldl_append

/-- What a node that is alive holds for a vote's member, whether it drops the vote's frame, and
what it has counted. -/
def standing (station : Station C) (p : Nat × Bytes) :
    Lives → Option (Option Bytes × Bool × List (Nat × Bytes))
  | .dead .. => none
  | .alive node => some (node.mind.tally.early[p.1]?, dropped station p.2 node.mind.tally,
    node.mind.tally.trace.counted)

def beginning : List Happening :=
  [.boot 0 (fun _ => .done) (fun _ => .done),
    .turn { heardEarly 0 [] with opening := true, received := none }]

end RestoredVotes
