import Lcq.JournalOutcomes

/-!
# Runs of a journal

A world is a disk and the process that has the journal open, if one is alive.
In a run operations are called, the process dies and the journal is opened
again, in any order; every call of the operating system has its own fate.
-/

namespace JournalRuns

open ByteFormat Contracts FileSystem JournalOutcomes JournalRecords JournalState LogJournal
  OrderedMap Program

inductive Op where
  | commitVote (subject : Subject) (voter : String) (frame : OutgoingFrame)
  | reserveSequence
  | acknowledge (sequence : UInt64)
  | dropExpired (now : Timestamp)
  | witness (author : String) (frame : Bytes)
  | enterEpoch (epoch : UInt16)
  | markSeen (sender : UInt16) (sequence : UInt64)
  | compact

inductive Answer where
  | unit
  | number (n : UInt64)
  | flag (changed : Bool)
  deriving DecidableEq

inductive Refusal where
  | journal (error : JournalError)
  | io (error : IoError)
  deriving DecidableEq

variable (P : Postcard)

def answering {α : Type} (answer : α → Answer) (p : Prog Running JournalError α) :
    Prog Running Refusal Answer := do
  let a ← mapError .journal p
  pure (answer a)

def Op.run (env : Env) : Op → Prog Running Refusal Answer
  | .commitVote subject voter frame =>
    answering (fun _ => .unit) (LogJournal.commitVote P env subject voter frame)
  | .reserveSequence => answering .number (LogJournal.reserveSequence P env)
  | .acknowledge sequence => answering .flag (LogJournal.acknowledge P env sequence)
  | .dropExpired now => answering (fun _ => .unit) (LogJournal.dropExpired P env now)
  | .witness author frame =>
    answering (fun _ => .unit) (LogJournal.witness P env author frame)
  | .enterEpoch epoch => answering (fun _ => .unit) (LogJournal.enterEpoch P env epoch)
  | .markSeen sender sequence =>
    answering (fun _ => .unit) (LogJournal.markSeen P env sender sequence)
  | .compact => do
    mapError .io (LogJournal.compact P env)
    pure .unit

/-- What the operation sets out to record, one entry for each append. -/
def Op.entries (state : State) : Op → List Entry
  | .commitVote subject voter frame =>
    if lockKey subject voter ∈ state.locks then [] else [voteEntry (lockKey subject voter) frame]
  | .reserveSequence => [.sequence (saturatingAdd state.nextSequence 1)]
  | .acknowledge sequence => if state.pending.contains sequence then [.retired sequence] else []
  | .dropExpired now => (expired state now).map .retired
  | .witness author frame =>
    if state.witnessed.contains author then [] else [.witnessed author frame]
  | .enterEpoch epoch =>
    if state.epoch.any fun held => decide (epoch ≤ held) then [] else [.epoch epoch]
  | .markSeen sender sequence =>
    if state.seen[sender]?.any fun held => decide (sequence ≤ held) then []
    else [.seen sender sequence]
  | .compact => []

/-- The entries that make a record. -/
def recordable (es : List Entry) : List Entry := es.filter fun e => (P.format.encode e).isSome

structure World where
  disk : Disk Path
  process : Option Journal

/-- A step of a run. With a hasher's output the journal is opened as a node opens it. -/
inductive Event where
  | operate (op : Op) (env : Env)
  | reopen (entropy : Option UInt64) (env : Env)
  | crash

def openWith (env : Env) (path : Path) :
    Option UInt64 → Prog (Disk Path) IoError Journal
  | none => openJournal P env path
  | some finish => openWithEntropy P env path finish

/-- What opening as a node sets out to record: a fresh log gets its start. -/
def startEntries (b : Bytes) (finish : UInt64) : List Entry :=
  if good P b = [] ∧ (replay P b).1.nextSequence = 0 then [.sequence (randomStart finish)] else []

variable (path : Path)

namespace World

/-- The process an outcome leaves behind. -/
def left {ε α : Type} : Except (Stop ε) α × Running → World
  | (.error .died, s) => ⟨s.disk, none⟩
  | (_, s) => ⟨s.disk, some s.journal⟩

theorem left_recovered {ε α : Type} (out : Except (Stop ε) α × Running) :
    (replay P ((left out).disk.read path)).1 = (replay P (out.2.disk.read path)).1 := by
  unfold left
  split <;> rfl

theorem left_alive {ε α : Type} {answer : Except (Stop ε) α} (survived : answer ≠ .error .died)
    (s : Running) : left (answer, s) = ⟨s.disk, some s.journal⟩ := by
  cases answer with
  | ok a => rfl
  | error stop =>
    cases stop with
    | died => exact absurd rfl survived
    | failed e => rfl

/-- Operations need a process, an opening needs that there is none. -/
def next (w : World) : Event → World
  | .operate op env =>
    match w.process with
    | none => w
    | some journal => left (op.run P env ⟨w.disk, journal⟩)
  | .reopen entropy env =>
    match w.process with
    | some _ => w
    | none =>
      match openWith P env path entropy w.disk with
      | (.ok journal, d) => ⟨d, some journal⟩
      | (.error _, d) => ⟨d, none⟩
  | .crash => { w with process := none }

/-- What the caller of an operation gets to see, if it lives. -/
def answer (w : World) : Event → Option (Except Refusal Answer)
  | .operate op env =>
    match w.process with
    | none => none
    | some journal =>
      match (op.run P env ⟨w.disk, journal⟩).1 with
      | .ok a => some (.ok a)
      | .error (.failed e) => some (.error e)
      | .error .died => none
  | _ => none

/-- An operation answers `Ok` when it runs to its end in a live process. -/
theorem answer_ok {w : World} {op : Op} {env : Env} {a : Answer}
    (ok : w.answer P (.operate op env) = some (.ok a)) :
    ∃ j t, w.process = some j ∧ op.run P env ⟨w.disk, j⟩ = (.ok a, t) ∧
      w.next P path (.operate op env) = ⟨t.disk, some t.journal⟩ := by
  cases alive : w.process with
  | none => simp [answer, alive] at ok
  | some j =>
    simp only [answer, alive] at ok
    cases ran : op.run P env ⟨w.disk, j⟩ with
    | mk out t =>
      rw [ran] at ok
      rcases out with (e | _) | b
      · cases ok
      · cases ok
      · cases ok
        exact ⟨j, t, rfl, ran, by simp [next, alive, ran, left]⟩

theorem answer_error {w : World} {op : Op} {env : Env} {e : Refusal}
    (refused : w.answer P (.operate op env) = some (.error e)) :
    ∃ j t, w.process = some j ∧ op.run P env ⟨w.disk, j⟩ = (.error (.failed e), t) ∧
      w.next P path (.operate op env) = ⟨t.disk, some t.journal⟩ := by
  cases alive : w.process with
  | none => simp [answer, alive] at refused
  | some j =>
    simp only [answer, alive] at refused
    cases ran : op.run P env ⟨w.disk, j⟩ with
    | mk out t =>
      rw [ran] at refused
      rcases out with (e | _) | b
      · cases refused
        exact ⟨j, t, rfl, ran, by simp [next, alive, ran, left]⟩
      · cases refused
      · cases refused

def after (w : World) (events : List Event) : World := events.foldl (next P path) w

/-- The state of the journal in use. -/
def live (w : World) : Option State := w.process.map Journal.state

/-- What an opening would find. -/
def recovered (w : World) : State := (replay P (w.disk.read path)).1

/-- What a step sets out to record. -/
def entries (w : World) : Event → List Entry
  | .operate op _ =>
    match w.process with
    | none => []
    | some journal => op.entries journal.state
  | .reopen entropy _ =>
    match w.process, entropy with
    | none, some finish => startEntries P (w.disk.read path) finish
    | _, _ => []
  | .crash => []

end World

/-- A run tells a list of entries: all of a step's records if the process is alive behind
it, and the first few of them if it died there. -/
inductive History : World → List Event → List Entry → Prop
  | nil {w : World} : History w [] []
  | cons {w : World} {event : Event} {events : List Event} {es : List Entry} (k : Nat)
      (full : (w.next P path event).process ≠ none →
        (recordable P (w.entries P path event)).length ≤ k)
      (rest : History (w.next P path event) events es) :
      History w (event :: events) ((recordable P (w.entries P path event)).take k ++ es)

def NoFailure (env : Env) : Prop := ∀ c, (env c).isFailure = false

/-- Nothing fails in the step; the process may die at any call. -/
def Event.noFailure : Event → Prop
  | .operate _ env => NoFailure env
  | .reopen _ env => NoFailure env
  | .crash => True

/-- Nothing fails but, perhaps, compactions up to their rename. -/
def Mild (env : Env) : Prop := ∀ c, (env c).isFailure = true → early c = true

def Event.mild : Event → Prop
  | .operate _ env => Mild env
  | .reopen _ env => Mild env
  | .crash => True

theorem NoFailure.mild {env : Env} (calls : NoFailure env) : Mild env := by
  intro c fails
  rw [calls c] at fails
  cases fails

theorem Event.noFailure.mild {event : Event} (calls : event.noFailure) : event.mild := by
  cases event with
  | operate op env => exact NoFailure.mild calls
  | reopen entropy env => exact NoFailure.mild calls
  | crash => trivial

/-! ## Environments and a subject for runs on fixed inputs -/

/-- Every call of the operating system succeeds. -/
def calm : Env := fun _ => .done

theorem calm_noFailure : NoFailure calm := fun _ => rfl

/-- One call fails behind some part of its work, everything else succeeding. -/
def failingAt (c : Call) (part : Nat) : Env := fun d => if d = c then .fails part else .done

theorem failingAt_mild {c : Call} (listed : early c = true) (part : Nat) :
    Mild (failingAt c part) := by
  intro d fails
  by_cases here : d = c
  · rw [here]
    exact listed
  · simp [failingAt, if_neg here, Fate.isFailure] at fails

/-- The process dies at one call, everything else succeeding. -/
def dyingAt (c : Call) (part : Nat) : Env := fun d => if d = c then .dies part else .done

theorem dyingAt_noFailure (c : Call) (part : Nat) : NoFailure (dyingAt c part) := by
  intro d
  simp only [dyingAt]
  split <;> rfl

def someSubject : Subject where
  mission := "m"
  event := "e"
  revision := 1
  contentHash := ⟨List.replicate 32 7, by decide⟩
  startedAt := ⟨1000⟩
  named := by decide

end JournalRuns
