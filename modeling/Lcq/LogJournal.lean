import Lcq.FileSystem
import Lcq.JournalRecords
import Lcq.Program

/-!
# The journal on disk

The operations of the log journal as programs over a disk and a running
journal, call by call in the order of the source. What the operating system
does at each call is an environment; within one operation every call has its
own name, an append its number.
-/

namespace LogJournal

open ByteFormat Contracts FileSystem JournalRecords JournalState OrderedMap Program

/-- A path as its last part without the extension, whatever precedes it included, and the
extension. -/
structure Path where
  stem : String
  extension : Option String
  deriving DecidableEq

def Path.withExtension (p : Path) (extension : String) : Path :=
  { p with extension := some extension }

inductive JournalError where
  | alreadyVoted
  | notDurable
  deriving DecidableEq

def JournalError.message : JournalError → String
  | alreadyVoted => "a binding vote is already recorded for this case"
  | notDurable => "the journal could not be made durable"

structure Journal where
  file : Handle
  path : Path
  state : State
  bytesOnDisk : Nat
  lastIoError : Option IoError

/-- A journal in memory and the disk under it. -/
structure Running where
  disk : Disk Path
  journal : Journal

inductive Call where
  | openFile
  | syncParent
  | readToEnd
  | setLen
  | syncCut
  | seekEnd
  | write (append : Nat)
  | sync (append : Nat)
  | create
  | scratchWrite (record : Nat)
  | scratchSync
  | rename
  | syncRenamed
  | reopen
  | seekReopened
  deriving DecidableEq

abbrev Env : Type := Call → Fate

def compactThresholdBytes : Nat := 256 * 1024

namespace Running

/-- Write at the journal's handle, which moves on behind what it wrote. -/
def put (s : Running) (bytes : Bytes) : Running where
  disk := s.disk.write s.journal.file bytes
  journal :=
    { s.journal with
      file := { s.journal.file with cursor := s.journal.file.cursor + bytes.length } }

def counted (s : Running) (n : Nat) : Running :=
  { s with journal := { s.journal with bytesOnDisk := s.journal.bytesOnDisk + n } }

def failedWith (s : Running) (error : IoError) : Running :=
  { s with journal := { s.journal with lastIoError := some error } }

def update (s : Running) (f : State → State) : Running :=
  { s with journal := { s.journal with state := f s.journal.state } }

end Running

variable (P : Postcard) (env : Env)

/-! ## Opening -/

/-- Cut the partial tail off before anything is appended after it. -/
def cutTail (file length validLen : Nat) : Prog (Disk Path) IoError Unit :=
  if validLen ≠ length then do
    step (env .setLen) .os fun d => d.setLen file validLen
    step (env .syncCut) .os id
  else pure ()

def openJournal (path : Path) : Prog (Disk Path) IoError Journal := do
  step (env .openFile) .os fun d => d.make path
  -- a new file's own existence is durable only with its directory entry
  step (env .syncParent) .os id
  step (env .readToEnd) .os id
  let d ← read
  match d.names path with
  | none => fail .os
  | some file => do
    let bytes := d.content file
    let (state, validLen) := replay P bytes
    cutTail env file bytes.length validLen
    step (env .seekEnd) .os id
    let d ← read
    pure
      { file := ⟨file, (d.content file).length⟩
        path := path
        state := state
        bytesOnDisk := validLen
        lastIoError := none }

/-! ## Appending -/

def tryAppend (i : Nat) (entry : Entry) : Prog Running IoError Unit := do
  let record ← ofExcept (encode P entry)
  call (env (.write i)) .os (fun n s => s.put (record.take n)) fun s => s.put record
  step (env (.sync i)) .os id
  change fun s => s.counted record.length

def append (i : Nat) (entry : Entry) : Prog Running JournalError Unit := do
  match ← caught (tryAppend P env i entry) with
  | .ok () => pure ()
  | .error error => do
    change fun s => s.failedWith error
    fail .notDurable

/-- A starting sequence from a hasher's output: at least 2^24, below 2^31. -/
def randomStart (finish : UInt64) : UInt64 :=
  16777216 + finish % (2147483648 - 16777216)

theorem randomStart_lt (finish : UInt64) : (randomStart finish).toNat < 2 ^ 31 := by
  have floor : (16777216 : UInt64).toNat = 16777216 := rfl
  have span : (2147483648 - 16777216 : UInt64).toNat = 2130706432 := rfl
  have below := Nat.mod_lt finish.toNat (show 0 < 2130706432 by decide)
  rw [randomStart, UInt64.toNat_add, UInt64.toNat_mod, floor, span, Nat.mod_eq_of_lt (by omega)]
  omega

def openWithEntropy (path : Path) (finish : UInt64) : Prog (Disk Path) IoError Journal := fun d =>
  match openJournal P env path d with
  | (.error stop, d) => (.error stop, d)
  | (.ok journal, d) =>
    if journal.bytesOnDisk = 0 ∧ journal.state.nextSequence = 0 then
      let start := randomStart finish
      match tryAppend P env 0 (.sequence start) ⟨d, journal⟩ with
      | (.error stop, s) => (.error stop, s.disk)
      | (.ok (), s) =>
        (.ok (s.update fun state => { state with nextSequence := start }).journal, s.disk)
    else (.ok journal, d)

/-! ## Compaction -/

/-- Write the records one after the other through a handle; the bytes written so far. -/
def writeScratch (file : Nat) : Nat → Nat → List Entry → Prog Running IoError Nat
  | _, written, [] => pure written
  | i, written, entry :: entries => do
    let record ← ofExcept (encode P entry)
    call (env (.scratchWrite i)) .os
      (fun n s => { s with disk := s.disk.write ⟨file, written⟩ (record.take n) })
      fun s => { s with disk := s.disk.write ⟨file, written⟩ record }
    writeScratch file (i + 1) (written + record.length) entries

/-- Rename the scratch file over the journal and go on writing at its end. -/
def install (path temporary : Path) (written : Nat) : Prog Running IoError Unit := do
  step (env .rename) .os fun s => { s with disk := s.disk.rename temporary path }
  step (env .syncRenamed) .os id
  let s ← read
  match s.disk.names path with
  | none => fail .os
  | some file => do
    step (env .reopen) .os fun s => { s with journal := { s.journal with file := ⟨file, 0⟩ } }
    step (env .seekReopened) .os fun s =>
      { s with journal := { s.journal with file := ⟨file, (s.disk.content file).length⟩ } }
    change fun s => { s with journal := { s.journal with bytesOnDisk := written } }

def compact : Prog Running IoError Unit := do
  let s ← read
  let path := s.journal.path
  let temporary := path.withExtension "compacting"
  let entries := s.journal.state.snapshot
  -- created if absent, emptied if not
  step (env .create) .os fun s =>
    let disk := s.disk.make temporary
    match disk.names temporary with
    | none => { s with disk := disk }
    | some file => { s with disk := disk.put file [] }
  let s ← read
  match s.disk.names temporary with
  | none => fail .os
  | some fresh => do
    let written ← writeScratch P env fresh 0 0 entries
    step (env .scratchSync) .os id
    install env path temporary written

/-- A failed compaction is not a failed write. -/
def compactIfLarge : Prog Running JournalError Unit := do
  let s ← read
  if s.journal.bytesOnDisk ≤ compactThresholdBytes then pure ()
  else
    match ← caught (compact P env) with
    | .ok () => pure ()
    | .error error => change fun s => s.failedWith error

/-! ## The operations -/

/-- Disk first, memory second: what every operation that records a fact does. -/
def record (i : Nat) (entry : Entry) (update : State → State) : Prog Running JournalError Unit := do
  append P env i entry
  change fun s => s.update update

def commitVote (subject : Subject) (voter : String) (frame : OutgoingFrame) :
    Prog Running JournalError Unit := do
  let s ← read
  let key := lockKey subject voter
  if key ∈ s.journal.state.locks then fail .alreadyVoted
  else do
    record P env 0 (voteEntry key frame) fun state =>
      { state with
        locks := state.locks.insert key
        nextSequence := max state.nextSequence (saturatingAdd frame.sequence 1)
        pending := state.pending.insert frame.sequence frame }
    compactIfLarge P env

def reserveSequence : Prog Running JournalError UInt64 := do
  let s ← read
  let reserved := s.journal.state.nextSequence
  let next := saturatingAdd reserved 1
  record P env 0 (.sequence next) fun state => { state with nextSequence := next }
  compactIfLarge P env
  pure reserved

/-- Retire a pending frame. -/
def retire (i : Nat) (sequence : UInt64) : Prog Running JournalError Unit :=
  record P env i (.retired sequence) fun state =>
    { state with pending := state.pending.erase sequence }

def acknowledge (sequence : UInt64) : Prog Running JournalError Bool := do
  let s ← read
  if s.journal.state.pending.contains sequence = false then pure false
  else
    match ← caught (retire P env 0 sequence) with
    | .error _ => pure false
    | .ok () => do
      compactIfLarge P env
      pure true

/-- The numbers of the pending frames whose validity has passed. -/
def expired (state : State) (now : Timestamp) : List UInt64 :=
  ((values state.pending).filter fun frame =>
    frame.expiresAt.any fun deadline => decide (deadline.secs < now.secs)).map
      OutgoingFrame.sequence

def retireAll : Nat → List UInt64 → Prog Running JournalError Unit
  | _, [] => pure ()
  | i, sequence :: rest => do
    -- a frame that could not be retired stays pending for the next sweep
    let _ ← caught (retire P env i sequence)
    retireAll (i + 1) rest

def dropExpired (now : Timestamp) : Prog Running JournalError Unit := do
  let s ← read
  retireAll P env 0 (expired s.journal.state now)
  compactIfLarge P env

/-- Record a fact, unless the live state has it already. -/
def recordUnless (known : Bool) (entry : Entry) (update : State → State) :
    Prog Running JournalError Unit :=
  if known then pure ()
  else do
    record P env 0 entry update
    compactIfLarge P env

def witness (author : String) (frame : Bytes) : Prog Running JournalError Unit := do
  let s ← read
  recordUnless P env (s.journal.state.witnessed.contains author) (.witnessed author frame)
    fun state => { state with witnessed := state.witnessed.insert author frame }

def enterEpoch (epoch : UInt16) : Prog Running JournalError Unit := do
  let s ← read
  recordUnless P env (s.journal.state.epoch.any fun held => decide (epoch ≤ held)) (.epoch epoch)
    fun state => { state with seen := ∅, epoch := some epoch }

def markSeen (sender : UInt16) (sequence : UInt64) : Prog Running JournalError Unit := do
  let s ← read
  recordUnless P env (s.journal.state.seen[sender]?.any fun held => decide (sequence ≤ held))
    (.seen sender sequence)
    fun state => { state with seen := state.seen.insert sender sequence }

def hasVoted (journal : Journal) (subject : Subject) (voter : String) : Bool :=
  decide (lockKey subject voter ∈ journal.state.locks)

/-- The frames waiting to go out, in the order of their numbers. -/
def pending (journal : Journal) : List OutgoingFrame := values journal.state.pending

def epoch (journal : Journal) : Option UInt16 := journal.state.epoch

def highestSeen (journal : Journal) (sender : UInt16) : Option UInt64 :=
  journal.state.seen[sender]?

end LogJournal
