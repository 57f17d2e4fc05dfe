import Lcq.FailedAppends
import Lcq.NodeLoop

/-!
# What a turn does to a node's mind

The journal aside, a turn that is survived changes what a node has in mind by
functions of what it was given and of the frames that were built; no vote is
locked but by building one. Everything later goes by these functions.
-/

namespace NodeSteps

open Admission ByteFormat Contracts FailedAppends FileSystem JournalOutcomes JournalRecords
  JournalState LogJournal NodeLoop OrderedMap Program ReplayWindows Schedule Transitions
  Utterances Wire

variable {P : Postcard} {C : Primitives} {station : Station C}

/-! ## What the calls leave alone -/

section keeps

variable {env : Env} {I : State → Prop}

theorem markSeen_keeps (marks : ∀ s seen, I s → I { s with seen }) (sender : UInt16)
    (sequence : UInt64) :
    Keeps (fun s : Running => I s.journal.state) (markSeen P env sender sequence) :=
  Keeps.read.bind fun _ => recordUnless_keeps _ _ fun _ held => marks _ _ held

theorem witness_keeps (writes : ∀ s witnessed, I s → I { s with witnessed }) (author : String)
    (frame : Bytes) :
    Keeps (fun s : Running => I s.journal.state) (witness P env author frame) :=
  Keeps.read.bind fun _ => recordUnless_keeps _ _ fun _ held => writes _ _ held

variable (numbers : ∀ s nextSequence, I s → I { s with nextSequence })
include numbers

theorem reserveSequence_keeps :
    Keeps (fun s : Running => I s.journal.state) (reserveSequence P env) := by
  refine Keeps.read.bind fun s => ?_
  refine (record_keeps 0 _ fun _ held => numbers _ _ held).bind fun _ => ?_
  exact compactIfLarge_keeps.bind fun _ => Keeps.pure _

variable {subject : Subject} {heard : Heard} {round : RoundId}

theorem utter_keeps (stage verdict : UInt8) :
    Keeps (fun d : Desk => I d.running.journal.state)
      (utter P C station.fleet station.options station.keys env subject stage verdict heard
        round) := by
  refine Keeps.bind (Keeps.zoom (reserveSequence_keeps numbers).mapError fun _ _ => rfl)
    fun sequence => ?_
  refine Keeps.bind (Keeps.ofExcept _) fun signed => Keeps.bind ?_ fun frame => Keeps.pure _
  refine Keeps.bind (Keeps.change ?_) fun _ => Keeps.ofExcept _
  exact fun _ held => held

theorem buildNack_keeps : Keeps (fun d : Desk => I d.running.journal.state)
    (buildNack P C station.fleet station.options station.keys env subject heard round) :=
  (utter_keeps numbers _ _).bind fun _ => Keeps.pure _

theorem buildTrigger_keeps : Keeps (fun d : Desk => I d.running.journal.state)
    (buildTrigger P C station.fleet station.options station.keys env subject round) :=
  (utter_keeps numbers _ _).bind fun _ => Keeps.pure _

omit numbers in
theorem commitVote_keeps (commits : ∀ s locks nextSequence pending, I s →
    I { s with locks, nextSequence, pending }) (voter : String) (frame : OutgoingFrame) :
    Keeps (fun s : Running => I s.journal.state) (commitVote P env subject voter frame) := by
  refine Keeps.read.bind fun s => ?_
  dsimp only
  split
  · exact Keeps.fail _
  · exact (record_keeps 0 _ fun _ held => commits _ _ _ _ held).bind fun _ => compactIfLarge_keeps

omit numbers in
theorem build_keeps (commits : ∀ s locks nextSequence pending, I s →
    I { s with locks, nextSequence, pending }) (envs : Nat → Env) (stage : Stage) :
    Keeps (fun d : Desk => I d.running.journal.state)
      (build P C station.fleet station.options station.keys envs stage subject heard round) := by
  refine Keeps.read.bind fun d => ?_
  split
  · split
    · exact Keeps.fail _
    · exact Keeps.pure _
  · refine (utter_keeps (fun s next held => commits s s.locks next s.pending held) _ _).bind
      fun uttered => ?_
    split
    · exact Keeps.fail _
    · split
      · exact (Keeps.zoom (commitVote_keeps commits _ _).mapError fun _ _ => rfl).bind fun _ =>
          Keeps.pure _
      · exact Keeps.pure _

end keeps

/-! ## Vote locks in memory -/

section locks

variable {env : Env} {L : Keys String}

/-- A commitment that is refused locks nothing. -/
theorem commitVote_refused {s t : Running} {subject : Subject} {voter : String}
    {frame : OutgoingFrame} {e : JournalError}
    (refused : commitVote P env subject voter frame s = (.error (.failed e), t)) :
    t.journal.state = s.journal.state := by
  simp only [commitVote, bind_apply, read_apply, andThen_ok] at refused
  split at refused
  · cases refused
    rfl
  · obtain ⟨-, ⟨error, -, rfl⟩ | ⟨r, -, rfl⟩⟩ := record_refused (recorded_refused refused)
    · rfl
    · rfl

variable {subject : Subject} {heard : Heard} {round : RoundId}

/-- Nothing is locked but by a binding vote that is built. -/
theorem build_locks {envs : Nat → Env} {stage : Stage} {d t : Desk}
    {out : Except (Stop BuildError) Bytes}
    (ran : build P C station.fleet station.options station.keys envs stage subject heard round d =
      (out, t)) (lives : out ≠ .error .died)
    (refused : stage = .bindingSupport → ∀ frame, out ≠ .ok frame) :
    t.running.journal.state.locks = d.running.journal.state.locks := by
  simp only [build, bind_apply, read_apply, andThen_ok] at ran
  split at ran
  · cases first : (pending d.running.journal).head? with
    | none =>
      rw [first] at ran
      cases ran
      rfl
    | some frame =>
      rw [first] at ran
      cases ran
      rfl
  · have keeps : Keeps
        (fun u : Desk => u.running.journal.state.locks = d.running.journal.state.locks)
        (utter P C station.fleet station.options station.keys (envs 0) subject (stageCode stage) 1
          heard round) :=
      utter_keeps (I := fun state => state.locks = d.running.journal.state.locks)
        (fun _ _ held => held) (stageCode stage) 1
    have kept := keeps d rfl
    cases uttered : utter P C station.fleet station.options station.keys (envs 0) subject
      (stageCode stage) 1 heard round d with
    | mk answer u =>
    rw [bind_apply, uttered] at ran
    rw [uttered] at kept
    obtain (e | _) | r := answer
    · cases ran
      exact kept (by simp)
    · cases ran
      exact absurd rfl lives
    · have same := kept (by simp)
      simp only [andThen_ok] at ran
      split at ran
      · cases ran
        exact same
      · split at ran
        · rename_i binding
          simp only [onJournal, bind_apply, zoom_apply, mapError] at ran
          cases committed : commitVote P (envs 1) subject
              (station.fleet.id station.options.index) (.new r.2 r.1) u.running with
          | mk answer v =>
            rw [committed] at ran
            obtain (e | _) | a := answer
            · cases ran
              exact (congrArg State.locks (commitVote_refused committed)).trans same
            · cases ran
              exact absurd rfl lives
            · cases ran
              exact absurd rfl (refused binding r.2)
        · cases ran
          exact same

end locks

/-! ## The parts of a turn, the journal aside -/

def locks (n : Node) : Keys String := n.desk.running.journal.state.locks

/-- The stage a frame was handed over for, if it was for one. -/
def stageFrame (h : Handed) : Option (Stage × Bytes) :=
  match h.sending with
  | .stage stage => some (stage, h.frame)
  | _ => none

/-- The frames of the stages handed over in this life. -/
def spoken (n : Node) : List (Stage × Bytes) := n.mind.handed.filterMap stageFrame

/-- A node has come to the tally `y`; no vote has been locked, and no stage's frame sent. -/
structure Became (n : Node) (y : Tally) (m : Node) : Prop where
  tally : m.mind.tally = y
  locks : NodeSteps.locks m = NodeSteps.locks n
  spoken : NodeSteps.spoken m = NodeSteps.spoken n

theorem Became.trans {n m k : Node} {y z : Tally} (first : Became n y m)
    (second : Became m z k) : Became n z k :=
  ⟨second.tally, second.locks.trans first.locks, second.spoken.trans first.spoken⟩

section pieces

variable {n : Node}

theorem yields_nothing : Yields (pure () : Act) n fun _ m => Became n n.mind.tally m :=
  Yields.pure ⟨rfl, rfl, rfl⟩

theorem yields_minding {f : Deliberation → Deliberation} {g : Tally → Tally}
    (does : ∀ d, (f d).tally = g d.tally ∧ (f d).handed = d.handed) :
    Yields (minding f) n fun _ m => Became n (g n.mind.tally) m :=
  Yields.change ⟨(does n.mind).1, rfl, congrArg (List.filterMap stageFrame) (does n.mind).2⟩

theorem yields_tallying (g : Tally → Tally) :
    Yields (tallying g) n fun _ m => Became n (g n.mind.tally) m :=
  yields_minding fun _ => ⟨rfl, rfl⟩

/-- What only goes into schedules and acknowledgements does not touch the tally. -/
theorem yields_aside {f : Deliberation → Deliberation}
    (keeps : ∀ d, (f d).tally = d.tally ∧ (f d).handed = d.handed) :
    Yields (minding f) n fun _ m => Became n n.mind.tally m :=
  yields_minding (g := id) keeps

/-- What is handed over for no stage. -/
theorem yields_handing {t : Turn} (sending : Sending) (other : ∀ stage, sending ≠ .stage stage)
    (frame : Bytes) (anchor due start : Nat) :
    Yields (handing t sending frame anchor due start) n fun _ m => Became n n.mind.tally m := by
  refine Yields.change ⟨rfl, rfl, ?_⟩
  have none : stageFrame ⟨sending, frame, anchor, due, start, t.airs sending, n.mind.split⟩ =
      none := by
    cases sending with
    | stage stage => exact absurd rfl (other stage)
    | _ => rfl
  simp [spoken, Deliberation.handedOver, none]

theorem yields_onDisk {p : Prog Running JournalError Unit}
    (kept : ∀ L, Keeps (fun s : Running => s.journal.state.locks = L) p) :
    Yields (caught (zoom (fun n : Node => n.desk.running)
      (fun running n => { n with desk := { n.desk with running } }) p) :
        Prog Node Empty (Except JournalError Unit)) n fun _ m => Became n n.mind.tally m := by
  refine (Yields.caught _).weaken ?_
  rintro out m ⟨rfl, lives, -⟩
  refine ⟨rfl, ?_, rfl⟩
  exact kept (locks n) n.desk.running rfl lives

theorem yields_journaling {p : Prog Running JournalError Unit}
    (kept : ∀ L, Keeps (fun s : Running => s.journal.state.locks = L) p) :
    Yields (journaling p) n fun _ m => Became n n.mind.tally m :=
  Yields.bind (yields_onDisk kept) fun _ _ became => Yields.pure became

theorem yields_building (p : Prog Desk BuildError Bytes) :
    Yields (building p) n fun out m => m.mind = n.mind ∧ (p n.desk).1 ≠ .error .died ∧
      m.desk = (p n.desk).2 ∧ (∀ frame, out = .ok frame → p n.desk = (.ok frame, m.desk)) ∧
      ∀ e, out = .error e → p n.desk = (.error (.failed e), m.desk) := by
  refine (Yields.caught _).weaken ?_
  rintro out m ⟨rfl, lives, built, failed⟩
  refine ⟨rfl, lives, rfl, fun frame ok => ?_, fun e no => ?_⟩
  · exact Prod.ext (congrArg Prod.fst (built frame ok) :) rfl
  · exact Prod.ext (congrArg Prod.fst (failed e no) :) rfl

theorem yields_building_kept {p : Prog Desk BuildError Bytes}
    (kept : ∀ L, Keeps (fun d : Desk => d.running.journal.state.locks = L) p) :
    Yields (building p) n fun _ m => Became n n.mind.tally m := by
  refine (yields_building p).weaken ?_
  rintro out m ⟨mind, lives, desk, -⟩
  refine ⟨congrArg Deliberation.tally mind, ?_, ?_⟩
  · rw [locks, desk]
    exact kept (locks n) n.desk rfl lives
  · rw [spoken, mind, spoken]

theorem yields_offering (frame : Bytes) (clock : Clock) :
    Yields (offering station frame clock) n fun learned m =>
      learned = (n.mind.tally.offered station frame clock).1 ∧
        Became n (n.mind.tally.offered station frame clock).2 m := by
  rintro _ _ ⟨⟩
  exact ⟨rfl, rfl, rfl, rfl⟩

theorem yields_rememberSeen (env : Env) (sender : Nat) (sequence : UInt64) :
    Yields (rememberSeen P env sender sequence) n fun _ m => Became n n.mind.tally m := by
  unfold rememberSeen
  split
  · refine Yields.bind (yields_onDisk fun L =>
      markSeen_keeps (I := fun state => state.locks = L) (fun _ _ held => held) _ _)
        fun out m marked => ?_
    cases out with
    | error e => exact Yields.pure marked
    | ok =>
      refine Yields.weaken (yields_aside ?_) fun _ k noted => ?_
      · exact fun _ => ⟨rfl, rfl⟩
      · have all := marked.trans noted
        rwa [marked.tally] at all
  · exact yields_nothing

theorem yields_rememberOwn (env : Env) (frame : Bytes) :
    Yields (rememberOwn P station env frame) n fun _ m => Became n n.mind.tally m := by
  unfold rememberOwn
  split
  · exact yields_nothing
  · exact yields_rememberSeen _ _ _

theorem yields_witnessing (env : Env) (learned : Admitted) (frame : Bytes) :
    Yields (witnessing P station env learned frame) n fun _ m => Became n n.mind.tally m := by
  unfold witnessing
  split
  · exact yields_nothing
  · exact yields_journaling fun L =>
      witness_keeps (I := fun state => state.locks = L) (fun _ _ held => held) _ _

theorem heardFrom_aside (d : Deliberation) (learned : Admitted) :
    (d.heardFrom learned).tally = d.tally ∧ (d.heardFrom learned).handed = d.handed := by
  unfold Deliberation.heardFrom
  split <;> exact ⟨rfl, rfl⟩

theorem acknowledgedBy_aside (d : Deliberation) (learned : Admitted) :
    (d.acknowledgedBy station learned).tally = d.tally ∧
      (d.acknowledgedBy station learned).handed = d.handed := by
  unfold Deliberation.acknowledgedBy
  split <;> exact ⟨rfl, rfl⟩

theorem yields_crediting (learned : Admitted) :
    Yields (minding fun d => (d.heardFrom learned).acknowledgedBy station learned) n fun _ m =>
      Became n n.mind.tally m := by
  refine yields_aside fun d => ?_
  obtain ⟨tally, handed⟩ := heardFrom_aside d learned
  obtain ⟨tally', handed'⟩ :
      ((d.heardFrom learned).acknowledgedBy station learned).tally = (d.heardFrom learned).tally ∧
        ((d.heardFrom learned).acknowledgedBy station learned).handed =
          (d.heardFrom learned).handed := acknowledgedBy_aside _ learned
  exact ⟨tally'.trans tally, handed'.trans handed⟩

theorem openedAgain_aside (d : Deliberation) (other : RoundId) (opener : Nat) (frame : Bytes) :
    (d.openedAgain other opener frame).tally = d.tally ∧
      (d.openedAgain other opener frame).handed = d.handed := by
  unfold Deliberation.openedAgain
  split <;> exact ⟨rfl, rfl⟩

theorem compared_aside (d : Deliberation) (anchor : Nat) (learned : Admitted) (frame : Bytes)
    (now : Nat → Nat) : (d.compared station anchor learned frame now).tally = d.tally ∧
      (d.compared station anchor learned frame now).handed = d.handed := by
  unfold Deliberation.compared
  split
  · exact ⟨rfl, rfl⟩
  · dsimp only
    split <;> exact ⟨rfl, rfl⟩

theorem answering_aside (d : Deliberation) (anchor : Nat) (journal : Journal)
    (learned : Admitted) (requester now : Nat) :
    (d.answering station anchor journal learned requester now).tally = d.tally ∧
      (d.answering station anchor journal learned requester now).handed = d.handed := by
  unfold Deliberation.answering
  split
  · exact ⟨rfl, rfl⟩
  split
  · exact ⟨rfl, rfl⟩
  · dsimp only
    split <;> split <;> exact ⟨rfl, rfl⟩

end pieces

/-! ## The tally behind each part -/

section tallies

variable (station) (t : Turn) (y : Tally)

/-- A frame is read: offered, marked if it verified, kept if it came too early. -/
def reading (frame : Bytes) (clock : Clock) : Tally :=
  let (learned, y) := y.offered station frame clock
  match learned.verified with
  | none => y
  | some (sender, sequence) => (y.marked sender sequence).held learned frame

def hearing : Tally :=
  match t.received with
  | none => y
  | some frame =>
    let heard := y.hasReceived station frame
    if isReplay frame y.windows = true ∨ fromOutsideTheFleet station frame = true then heard
    else
      match triggerRound station frame with
      | some (_, opener, sequence) => heard.marked opener sequence
      | none => reading station heard frame (t.clock .received)

/-- A late joiner offers the frame that gave the round away. -/
def anchoring (frame : Bytes) (clock : Clock) : Tally :=
  let (learned, y) := y.offered station frame clock
  y.held learned frame

def awaiting : Tally :=
  match t.received with
  | none => y
  | some frame =>
    if isReplay frame y.windows = true ∨ fromOutsideTheFleet station frame = true then y
    else
      match triggerRound station frame with
      | some (_, opener, sequence) => (y.marked opener sequence).hasReceived station frame
      | none =>
        match lateAnchor station frame (t.now .anchor 0) with
        | none => y
        | some late =>
          anchoring station ((y.marked late.author late.sequence).hasReceived station frame) frame
            (t.clock .anchor)

def draining (p : Nat × Bytes) : Tally :=
  ((y.draining (t.clock (.drained p.1))).offered station p.2 (t.clock (.drained p.1))).2

def closed (case : Case) : Tally :=
  y.early.toList.foldl (draining station t) { y with case, closed := true, early := ∅ }

def closing : Tally :=
  if y.closed = false ∧
      certainlyAfter (t.clock .closing 0) station.subject.consultationCutoff = true then
    match y.case.closeConsultation fun i => t.clock .closing (i + 1) with
    | .error _ => y
    | .ok case => closed station t y case
  else y

def admittingOwn (stage : Stage) (frame : Bytes) : Tally :=
  if y.ownAdmitted stage = false then
    ((y.admittedOwn stage).offered station frame (t.clock (.own stage))).2
  else y

def sending (stage : Stage) (frame : Bytes) : Tally :=
  admittingOwn station t (y.ownMarked station frame) stage frame

end tallies

variable (station) in
/-- Noting a frame as received changes nothing else. -/
theorem hasReceived_rest (y : Tally) (frame : Bytes) :
    ∃ received, y.hasReceived station frame = { y with trace := { y.trace with received } } := by
  unfold Tally.hasReceived
  split <;> exact ⟨_, rfl⟩

/-- Keeping a frame changes what is held and what has been taken. -/
theorem held_rest (y : Tally) (learned : Admitted) (frame : Bytes) :
    ∃ early taken, y.held learned frame = { y with early, trace := { y.trace with taken } } := by
  unfold Tally.held
  split
  · exact ⟨_, _, rfl⟩
  · split <;> exact ⟨_, _, rfl⟩

/-- About to be offered, a held vote may have lapsed; nothing else has changed. -/
theorem draining_rest (y : Tally) (clock : Clock) :
    ∃ lapsed, y.draining clock = { y with trace := { y.trace with lapsed } } := by
  unfold Tally.draining
  split <;> exact ⟨_, rfl⟩

variable {t : Turn} {n : Node}

/-- What a drained vote does not break, a drain does not. -/
theorem drained_keeps {I : Tally → Prop} (step : ∀ {y} p, I y → I (draining station t y p))
    {y : Tally} (held : I y) (rest : List (Nat × Bytes)) :
    I (rest.foldl (draining station t) y) := by
  induction rest generalizing y with
  | nil => exact held
  | cons p rest ih => exact ih (step p held)

/-- A close leaves the tally as it was, or begins the drain. -/
theorem closing_keeps {I : Tally → Prop} (step : ∀ {y} p, I y → I (draining station t y p))
    {y : Tally} (held : I y)
    (shut : ∀ case, (y.case.closeConsultation fun i => t.clock .closing (i + 1)) = .ok case →
      I { y with case, closed := true, early := ∅ }) :
    I (closing station t y) := by
  unfold closing
  split
  · split
    · exact held
    · rename_i case ok
      exact drained_keeps step (shut case ok) _
  · exact held

/-! ## The parts of a turn come to that -/

theorem yields_openRound : Yields (openRound P station t) n fun _ m =>
    Became n n.mind.tally m := by
  refine Yields.reading ?_
  split
  · dsimp only
    split
    · exact Yields.halt
    · refine Yields.bind (yields_aside fun _ => ⟨rfl, rfl⟩) fun _ m named =>
        Yields.bind (yields_building_kept fun L =>
          buildTrigger_keeps (I := fun state => state.locks = L) fun _ _ held => held)
            fun out k built => ?_
      rw [named.tally] at built
      have all := named.trans built
      cases out with
      | error e => exact Yields.pure all
      | ok frame =>
        refine Yields.bind (yields_handing .opening nofun _ _ _ _) fun _ l handed => ?_
        refine Yields.weaken (yields_aside ?_) fun _ u joined => ?_
        · exact fun _ => ⟨rfl, rfl⟩
        · have all := (all.trans handed).trans joined
          rwa [handed.tally, built.tally] at all
  · exact yields_nothing

theorem yields_await : Yields (await P station t) n fun _ m =>
    Became n (awaiting station t n.mind.tally) m := by
  unfold await awaiting
  cases t.received with
  | none => exact yields_nothing
  | some frame =>
    refine Yields.reading ?_
    dsimp only
    split
    · exact yields_nothing
    cases triggerRound station frame with
    | some opened =>
      obtain ⟨round, opener, sequence⟩ := opened
      refine Yields.bind (yields_tallying _) fun _ m marked =>
        Yields.bind (yields_rememberSeen _ _ _) fun _ k remembered => ?_
      refine Yields.weaken (yields_minding (g := fun y => y.hasReceived station frame) ?_)
        fun _ l joined => ?_
      · exact fun _ => ⟨rfl, rfl⟩
      have all := (marked.trans remembered).trans joined
      rwa [remembered.tally, marked.tally] at all
    | none =>
      dsimp only
      cases lateAnchor station frame (t.now .anchor 0) with
      | none => exact yields_nothing
      | some late =>
        refine Yields.bind (yields_tallying _) fun _ m marked =>
          Yields.bind (yields_rememberSeen _ _ _) fun _ k remembered =>
            Yields.bind (yields_minding (g := fun y => y.hasReceived station frame) ?_)
              fun _ l joined => Yields.bind (yields_offering _ _) ?_
        · exact fun _ => ⟨rfl, rfl⟩
        rintro _ u ⟨rfl, offered⟩
        refine Yields.bind (yields_tallying _) fun _ v kept =>
          Yields.bind (yields_crediting _) fun _ w credited =>
            (yields_witnessing _ _ _).weaken fun _ x witnessed => ?_
        have all := (((((marked.trans remembered).trans joined).trans offered).trans
          kept).trans credited).trans witnessed
        rwa [credited.tally, kept.tally, offered.tally, joined.tally, remembered.tally,
          marked.tally] at all

theorem yields_drain (early : List (Nat × Bytes)) : Yields (drain P station t early) n fun _ m =>
    Became n (early.foldl (draining station t) n.mind.tally) m := by
  induction early generalizing n with
  | nil => exact yields_nothing
  | cons p early ih =>
    obtain ⟨member, frame⟩ := p
    refine Yields.bind (yields_tallying _) fun _ m begun =>
      Yields.bind (yields_offering _ _) ?_
    rintro _ k ⟨rfl, offered⟩
    refine Yields.bind (yields_crediting _) fun _ l credited =>
      Yields.bind (yields_witnessing _ _ _) fun _ u witnessed =>
        ih.weaken fun _ v drained => ?_
    have all := (((begun.trans offered).trans credited).trans witnessed).trans drained
    rwa [witnessed.tally, credited.tally, offered.tally, begun.tally] at all

theorem yields_closing : Yields (NodeLoop.closing P station t) n fun _ m =>
    Became n (closing station t n.mind.tally) m := by
  refine Yields.reading ?_
  unfold closing
  split
  · cases n.mind.tally.case.closeConsultation fun i => t.clock .closing (i + 1) with
    | error e => exact yields_nothing
    | ok case =>
      refine Yields.bind (yields_tallying _) fun _ m shut =>
        (yields_drain _).weaken fun _ k drained => ?_
      have all := shut.trans drained
      rwa [shut.tally] at all
  · exact yields_nothing

theorem yields_askForRepair (anchor : Nat) : Yields (askForRepair P station t anchor) n fun _ m =>
    Became n n.mind.tally m := by
  refine Yields.reading ?_
  dsimp only
  split
  · exact yields_nothing
  split
  · refine Yields.bind (yields_aside fun _ => ⟨rfl, rfl⟩) fun _ m counted => ?_
    split
    · exact Yields.pure counted
    · refine Yields.bind (yields_building_kept fun L =>
        buildNack_keeps (I := fun state => state.locks = L) fun _ _ held => held)
          fun out k asked => ?_
      have all := counted.trans asked
      rw [counted.tally] at all
      cases out with
      | error e => exact Yields.pure all
      | ok frame =>
        refine (yields_handing .request nofun _ _ _ _).weaken fun _ l handed => ?_
        have all := all.trans handed
        rwa [asked.tally, counted.tally] at all
  · exact yields_nothing

theorem yields_resend (anchor : Nat) : Yields (NodeLoop.resend t anchor) n fun _ m =>
    Became n n.mind.tally m := by
  refine Yields.reading ?_
  split
  · exact yields_nothing
  split
  · refine Yields.bind (yields_aside fun _ => ⟨rfl, rfl⟩) fun _ m cleared => ?_
    split
    · exact Yields.pure cleared
    · refine Yields.bind (yields_aside fun _ => ⟨rfl, rfl⟩) fun _ k taken =>
        (yields_handing .resend nofun _ _ _ _).weaken fun _ l handed => ?_
      have all := (cleared.trans taken).trans handed
      rwa [taken.tally, cleared.tally] at all
  · exact yields_nothing

theorem yields_ending (anchor : Nat) : Yields (ending station t anchor) n fun _ m =>
    Became n n.mind.tally m := by
  refine Yields.reading ?_
  dsimp only
  split
  · refine yields_aside ?_
    exact fun _ => ⟨rfl, rfl⟩
  · exact yields_nothing

/-- What a frame that was read teaches the tally. -/
theorem yields_learn (anchor : Nat) (frame : Bytes) (learned : Admitted) :
    Yields (learn P station t anchor frame learned) n fun _ m =>
      Became n (match learned.verified with
        | none => n.mind.tally
        | some (sender, sequence) =>
          (n.mind.tally.marked sender sequence).held learned frame) m := by
  unfold learn
  cases learned.verified with
  | none => exact yields_nothing
  | some verified =>
    obtain ⟨sender, sequence⟩ := verified
    refine Yields.bind (yields_tallying _) fun _ l marked =>
      Yields.bind (yields_rememberSeen _ _ _) fun _ u remembered =>
        Yields.bind (yields_tallying _) fun _ v kept => Yields.reading ?_
    refine Yields.bind (yields_aside fun d => answering_aside d _ _ _ _ _) fun _ a answered =>
      Yields.bind (yields_aside fun d => compared_aside d _ _ _ _) fun _ b compared =>
        Yields.bind (yields_crediting _) fun _ w credited =>
          (yields_witnessing _ _ _).weaken fun _ x witnessed => ?_
    have all := (((((marked.trans remembered).trans kept).trans answered).trans compared).trans
      credited).trans witnessed
    rwa [credited.tally, compared.tally, answered.tally, kept.tally, remembered.tally,
      marked.tally] at all

theorem yields_hear (anchor : Nat) : Yields (hear P station t anchor) n fun _ m =>
    Became n (hearing station t n.mind.tally) m := by
  unfold hear hearing
  cases t.received with
  | none => exact yields_ending anchor
  | some frame =>
    refine Yields.reading ?_
    refine Yields.bind (yields_tallying _) fun _ m received => ?_
    dsimp only
    split
    · exact Yields.pure received
    cases triggerRound station frame with
    | some opened =>
      obtain ⟨round, opener, sequence⟩ := opened
      refine Yields.bind (yields_tallying _) fun _ k marked =>
        Yields.bind (yields_rememberSeen _ _ _) fun _ l remembered => ?_
      refine (yields_aside fun d => openedAgain_aside d _ _ _).weaken fun _ u opened => ?_
      have all := ((received.trans marked).trans remembered).trans opened
      rwa [remembered.tally, marked.tally, received.tally] at all
    | none =>
      refine Yields.bind (yields_offering _ _) ?_
      rintro _ k ⟨rfl, offered⟩
      have read := received.trans offered
      rw [received.tally] at read ⊢
      refine Yields.bind (yields_learn anchor _ _) fun _ l learnt =>
        (yields_ending anchor).weaken fun _ u ended => ?_
      have all := (read.trans learnt).trans ended
      rwa [learnt.tally, read.tally] at all

theorem yields_admitOwn (stage : Stage) (frame : Bytes) :
    Yields (admitOwn station t stage frame) n fun _ m =>
      Became n (admittingOwn station t n.mind.tally stage frame) m := by
  refine Yields.reading ?_
  unfold admittingOwn
  split
  · refine Yields.bind (yields_tallying _) fun _ m noted => Yields.bind (yields_offering _ _) ?_
    rintro _ k ⟨rfl, offered⟩
    refine (yields_aside fun d => heardFrom_aside d _).weaken fun _ l credited => ?_
    have all := (noted.trans offered).trans credited
    rwa [offered.tally, noted.tally] at all
  · exact yields_nothing

/-- How a stage's part can end: with the tally as it was, or with a frame handed over. -/
inductive Spoke (P : Postcard) (station : Station C) (t : Turn) (stage : Stage) (n : Node) :
    Node → Prop
  | silent {m : Node} (became : Became n n.mind.tally m) : Spoke P station t stage n m
  | sent {m : Node} {frame : Bytes} {desk : Desk}
      (due : stage = .bindingSupport → n.mind.tally.closed = true)
      (built : build P C station.fleet station.options station.keys (t.envs (.own stage)) stage
        station.subject n.mind.heard n.mind.round n.desk = (.ok frame, desk))
      (tally : m.mind.tally = sending station t n.mind.tally stage frame)
      (locks : stage ≠ .bindingSupport → NodeSteps.locks m = NodeSteps.locks n)
      (spoken : NodeSteps.spoken m = NodeSteps.spoken n ++ [(stage, frame)]) :
      Spoke P station t stage n m

theorem yields_speak (anchor : Nat) (stage : Stage) :
    Yields (speak P station t anchor stage) n fun _ m => Spoke P station t stage n m := by
  refine Yields.reading ?_
  dsimp only
  split
  · exact yields_nothing.weaken fun _ _ became => .silent became
  rename_i due
  split
  · refine Yields.weaken (yields_aside ?_) fun _ _ became => .silent became
    exact fun _ => ⟨rfl, rfl⟩
  split
  · refine Yields.weaken (yields_aside ?_) fun _ _ became => .silent became
    exact fun _ => ⟨rfl, rfl⟩
  refine Yields.bind (yields_building _) ?_
  rintro out m ⟨mind, lives, desk, built, failed⟩
  have kept : spoken m = spoken n := by rw [spoken, mind, spoken]
  cases out with
  | error e =>
    have same := build_locks (failed e rfl) (by simp) (by simp)
    refine Yields.weaken (yields_aside ?_) fun _ k gone => .silent ?_
    · exact fun _ => ⟨rfl, rfl⟩
    · rw [mind] at gone
      exact ⟨gone.tally, gone.locks.trans same, gone.spoken.trans kept⟩
  | ok frame =>
    have made := built frame rfl
    have handed : Yields (handing t (.stage stage) frame anchor (n.mind.dueAt station anchor stage)
        (t.now (.own stage) 2)) m fun _ k => k.mind.tally = n.mind.tally ∧ locks k = locks m ∧
          spoken k = spoken n ++ [(stage, frame)] := by
      have tally : m.mind.tally = n.mind.tally := by rw [mind]
      refine Yields.change ⟨tally, rfl, ?_⟩
      rw [← kept]
      simp [spoken, Deliberation.handedOver, stageFrame]
    refine Yields.bind handed ?_
    rintro _ k ⟨tally, locked, told⟩
    refine Yields.bind (yields_aside fun _ => ⟨rfl, rfl⟩) fun _ l spent =>
      Yields.bind (yields_tallying _) fun _ u marked =>
        Yields.bind (yields_rememberOwn _ _) fun _ v remembered =>
          Yields.bind (yields_admitOwn _ _) fun _ w admitted => ?_
    have all := ((spent.trans marked).trans remembered).trans admitted
    rw [remembered.tally, marked.tally, spent.tally, tally] at all
    have ended : Yields (if allowed station stage = 1 then minding fun d => d.done stage
        else pure ()) w fun _ x => Became w w.mind.tally x := by
      split
      · refine yields_aside ?_
        exact fun _ => ⟨rfl, rfl⟩
      · exact yields_nothing
    refine ended.weaken fun _ x last => ?_
    refine .sent ?_ made (last.tally.trans all.tally) (fun other => ?_) ?_
    · rintro rfl
      simpa using fun open_ => due (Or.inr (Or.inr (Or.inr ⟨rfl, open_⟩)))
    · refine ((last.locks.trans all.locks).trans locked).trans ?_
      exact build_locks made (by simp) fun same => absurd same other
    · exact (last.spoken.trans all.spoken).trans told

/-! ## A turn up to its radio -/

section radio

variable (P : Postcard) (station : Station C) (t : Turn)

/-- A turn until it reads its radio, and the beginning of the round it is in. -/
def untilRadio : Prog Node Empty (Option Nat) := do
  openRound P station t
  let n ← read
  match n.mind.began with
  | none => pure none
  | some anchor => do
    NodeLoop.closing P station t
    speak P station t anchor .independent
    speak P station t anchor .consultation
    speak P station t anchor .bindingSupport
    askForRepair P station t anchor
    NodeLoop.resend t anchor
    pure (some anchor)

/-- What it does then. -/
def atRadio : Option Nat → Act
  | none => await P station t
  | some anchor => hear P station t anchor

theorem turn_radio : turn P station t = (do
    let anchor ← untilRadio P station t
    atRadio P station t anchor) := by
  simp only [turn, untilRadio, bind_assoc]
  congr
  funext _
  congr
  funext n
  cases n.mind.began with
  | none => rfl
  | some anchor => simp only [bind_assoc, pure_bind, atRadio]

/-- Whether a frame is dropped by what its header says. -/
def dropped (frame : Bytes) (y : Tally) : Bool :=
  isReplay frame y.windows || fromOutsideTheFleet station frame

end radio

/-- Up to its radio: what holds before holds behind the opening; in a round the turn has then
closed, spoken three times, asked and resent. -/
theorem yields_untilRadio {I A : Node → Prop} (opening : ∀ m, Became n n.mind.tally m → I m)
    (close : ∀ m k, I m → Became m (closing station t m.mind.tally) k → A k)
    (speak : ∀ stage m k, A m → Spoke P station t stage m k → A k)
    (aside : ∀ m k, A m → Became m m.mind.tally k → A k) :
    Yields (untilRadio P station t) n fun anchor k => match anchor with
      | none => I k
      | some _ => A k := by
  refine Yields.bind yields_openRound fun _ m opened => Yields.reading ?_
  have here := opening m opened
  split
  · exact Yields.pure here
  · refine Yields.bind yields_closing fun _ k shut => ?_
    have behind := close m k here shut
    refine Yields.bind (yields_speak _ _) fun _ l first =>
      Yields.bind (yields_speak _ _) fun _ u second =>
        Yields.bind (yields_speak _ _) fun _ v third =>
          Yields.bind (yields_askForRepair _) fun _ w asked =>
            Yields.bind (yields_resend _) fun _ x resent => Yields.pure ?_
    have spoken := speak _ _ _ (speak _ _ _ (speak _ _ _ behind first) second) third
    exact aside w x (aside v w spoken asked) resent

/-- What closing and sending keep of a tally is kept up to the radio. -/
theorem tally_untilRadio {I : Tally → Prop} (close : ∀ {y}, I y → I (closing station t y))
    (send : ∀ {y} stage frame, I y → I (sending station t y stage frame))
    (held : I n.mind.tally) :
    Yields (untilRadio P station t) n fun _ k => I k.mind.tally := by
  refine (yields_untilRadio (I := fun m => I m.mind.tally) (A := fun m => I m.mind.tally)
    ?_ ?_ ?_ ?_).weaken ?_
  · intro m became
    rw [became.tally]
    exact held
  · intro m k held became
    rw [became.tally]
    exact close held
  · intro stage m k held spoke
    cases spoke with
    | silent became =>
      rw [became.tally]
      exact held
    | sent _ _ tally =>
      rw [tally]
      exact send stage _ held
  · intro m k held became
    rw [became.tally]
    exact held
  · intro anchor k held
    cases anchor with
    | none => exact held
    | some anchor => exact held

/-- Something about tallies that no part of a turn takes back. -/
structure TallyKept (station : Station C) (t : Turn) (I : Tally → Prop) : Prop where
  awaiting : ∀ {y}, I y → I (awaiting station t y)
  closing : ∀ {y}, I y → I (closing station t y)
  sending : ∀ {y} stage frame, I y → I (sending station t y stage frame)
  hearing : ∀ {y}, I y → I (hearing station t y)

theorem TallyKept.atRadio {I : Tally → Prop} (kept : TallyKept station t I)
    (held : I n.mind.tally) (anchor : Option Nat) :
    Yields (atRadio P station t anchor) n fun _ m => I m.mind.tally := by
  cases anchor with
  | none =>
    refine yields_await.weaken fun _ m became => ?_
    rw [became.tally]
    exact kept.awaiting held
  | some anchor =>
    refine (yields_hear anchor).weaken fun _ m became => ?_
    rw [became.tally]
    exact kept.hearing held

theorem TallyKept.turn {I : Tally → Prop} (kept : TallyKept station t I)
    (held : I n.mind.tally) :
    Yields (turn P station t) n fun _ m => I m.mind.tally := by
  rw [turn_radio]
  exact Yields.bind (tally_untilRadio (I := I) kept.closing kept.sending held)
    fun anchor k held => kept.atRadio held anchor

end NodeSteps
