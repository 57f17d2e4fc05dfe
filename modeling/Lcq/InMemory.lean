import Lcq.JournalRuns

/-!
# The journal in memory

The same operations on maps changed in place, with nothing written anywhere,
and the restart that comes with it: a journal rebuilt from a snapshot.
-/

namespace InMemory

open ByteFormat Contracts JournalRecords JournalRuns JournalState LogJournal OrderedMap

/-- A restorable view of everything that must survive a restart. -/
structure JournalSnapshot where
  epoch : Option UInt16
  seen : List (UInt16 × UInt64)
  voteLocks : List (String × UInt64)
  pending : List OutgoingFrame
  nextSequence : UInt64
  witnessed : List (String × Bytes)
  deriving DecidableEq

structure MemoryJournal where
  epoch : Option UInt16
  seen : Map UInt16 UInt64
  locks : Keys String
  pending : Map UInt64 OutgoingFrame
  nextSequence : UInt64
  witnessed : Map String Bytes

namespace MemoryJournal

def default : MemoryJournal where
  epoch := none
  seen := ∅
  locks := ∅
  pending := ∅
  nextSequence := 0
  witnessed := ∅

/-- Rebuild from a snapshot, as a node would after a restart. -/
def restored (snapshot : JournalSnapshot) : MemoryJournal where
  epoch := snapshot.epoch
  seen := gather snapshot.seen
  locks := collect (snapshot.voteLocks.map Prod.fst)
  pending := gather (snapshot.pending.map fun frame => (frame.sequence, frame))
  nextSequence := snapshot.nextSequence
  witnessed := gather snapshot.witnessed

def snapshot (m : MemoryJournal) : JournalSnapshot where
  epoch := m.epoch
  seen := m.seen.toList
  voteLocks := m.locks.toList.map fun key => (key, 0)
  pending := values m.pending
  nextSequence := m.nextSequence
  witnessed := m.witnessed.toList

variable (m : MemoryJournal)

def commitVote (subject : Subject) (voter : String) (frame : OutgoingFrame) :
    Except JournalError Unit × MemoryJournal :=
  let key := lockKey subject voter
  if key ∈ m.locks then (.error .alreadyVoted, m)
  else
    (.ok (), { m with
      locks := m.locks.insert key
      nextSequence := max m.nextSequence (saturatingAdd frame.sequence 1)
      pending := m.pending.insert frame.sequence frame })

def hasVoted (subject : Subject) (voter : String) : Bool :=
  decide (lockKey subject voter ∈ m.locks)

def reserveSequence : UInt64 × MemoryJournal :=
  (m.nextSequence, { m with nextSequence := saturatingAdd m.nextSequence 1 })

def acknowledge (sequence : UInt64) : Bool × MemoryJournal :=
  (m.pending.contains sequence, { m with pending := m.pending.erase sequence })

def dropExpired (now : Timestamp) : MemoryJournal :=
  { m with
    pending := m.pending.filter fun _ frame =>
      frame.expiresAt.all fun deadline => decide (now.secs ≤ deadline.secs) }

def witness (author : String) (frame : Bytes) : MemoryJournal :=
  { m with witnessed := m.witnessed.insertIfNew author frame }

def enterEpoch (epoch : UInt16) : MemoryJournal :=
  if m.epoch.any fun held => decide (epoch ≤ held) then m
  else { m with seen := ∅, epoch := some epoch }

def highestSeen (sender : UInt16) : Option UInt64 := m.seen[sender]?

def markSeen (sender : UInt16) (sequence : UInt64) : MemoryJournal :=
  { m with seen := m.seen.insert sender (max (m.seen[sender]?.getD 0) sequence) }

end MemoryJournal

/-! ## One interface -/

/-- What can be asked of a journal without changing it. -/
inductive Query where
  | hasVoted (subject : Subject) (voter : String)
  | nextSequence
  | pending
  | witnessed
  | epoch
  | highestSeen (sender : UInt16)
  | snapshot

inductive View where
  | flag (held : Bool)
  | number (n : UInt64)
  | frames (waiting : List OutgoingFrame)
  | votes (kept : List (String × Bytes))
  | epoch (highest : Option UInt16)
  | mark (highest : Option UInt64)
  | snapshot (whole : JournalSnapshot)
  deriving DecidableEq

/-- The file's side of the interface. -/
def logSnapshot (journal : Journal) : JournalSnapshot where
  epoch := journal.state.epoch
  seen := journal.state.seen.toList
  voteLocks := journal.state.locks.toList.map fun key => (key, 0)
  pending := values journal.state.pending
  nextSequence := journal.state.nextSequence
  witnessed := journal.state.witnessed.toList

def Query.ofLog (journal : Journal) : Query → View
  | .hasVoted subject voter => .flag (LogJournal.hasVoted journal subject voter)
  | .nextSequence => .number journal.state.nextSequence
  | .pending => .frames (LogJournal.pending journal)
  | .witnessed => .votes journal.state.witnessed.toList
  | .epoch => .epoch journal.state.epoch
  | .highestSeen sender => .mark (LogJournal.highestSeen journal sender)
  | .snapshot => .snapshot (logSnapshot journal)

def Query.ofMemory (m : MemoryJournal) : Query → View
  | .hasVoted subject voter => .flag (m.hasVoted subject voter)
  | .nextSequence => .number m.nextSequence
  | .pending => .frames (values m.pending)
  | .witnessed => .votes m.witnessed.toList
  | .epoch => .epoch m.epoch
  | .highestSeen sender => .mark (m.highestSeen sender)
  | .snapshot => .snapshot m.snapshot

/-- An operation in memory. There is nothing to compact. -/
def MemoryJournal.run (m : MemoryJournal) : Op → Except JournalError Answer × MemoryJournal
  | .commitVote subject voter frame =>
    let out := m.commitVote subject voter frame
    (out.1.map fun _ => .unit, out.2)
  | .reserveSequence => (.ok (.number m.reserveSequence.1), m.reserveSequence.2)
  | .acknowledge sequence => (.ok (.flag (m.acknowledge sequence).1), (m.acknowledge sequence).2)
  | .dropExpired now => (.ok .unit, m.dropExpired now)
  | .witness author frame => (.ok .unit, m.witness author frame)
  | .enterEpoch epoch => (.ok .unit, m.enterEpoch epoch)
  | .markSeen sender sequence => (.ok .unit, m.markSeen sender sequence)
  | .compact => (.ok .unit, m)

/-! ## What both of them mean -/

/-- A journal in memory as the state a log stands for. -/
def MemoryJournal.meaning (m : MemoryJournal) : State where
  epoch := m.epoch
  seen := m.seen
  locks := m.locks
  pending := m.pending
  nextSequence := m.nextSequence
  witnessed := m.witnessed

@[simp] theorem meaning_default : MemoryJournal.default.meaning = State.initial := rfl

theorem meaning_injective {m n : MemoryJournal} (same : m.meaning = n.meaning) : m = n := by
  obtain ⟨⟩ := m
  obtain ⟨⟩ := n
  simp only [MemoryJournal.meaning, State.mk.injEq] at same
  obtain ⟨rfl, rfl, rfl, rfl, rfl, rfl⟩ := same
  rfl

/-- The answer an operation deserves in a state. -/
def deserved (state : State) : Op → Except JournalError Answer
  | .commitVote subject voter _ =>
    if lockKey subject voter ∈ state.locks then .error .alreadyVoted else .ok .unit
  | .reserveSequence => .ok (.number state.nextSequence)
  | .acknowledge sequence => .ok (.flag (state.pending.contains sequence))
  | _ => .ok .unit

theorem ofLog_meaning {journal : Journal} {m : MemoryJournal} (same : journal.state = m.meaning)
    (query : Query) : query.ofLog journal = query.ofMemory m := by
  cases query <;>
    simp only [Query.ofLog, Query.ofMemory, LogJournal.hasVoted, MemoryJournal.hasVoted,
      LogJournal.pending, LogJournal.highestSeen, MemoryJournal.highestSeen, logSnapshot,
      MemoryJournal.snapshot, same, MemoryJournal.meaning]

/-- Retiring the frames whose validity has passed, one by one, leaves the others. -/
theorem applyAll_retired (s : State) (sequences : List UInt64) :
    s.applyAll (sequences.map .retired) =
      { s with pending := sequences.foldl (fun pending k => pending.erase k) s.pending } := by
  induction sequences generalizing s with
  | nil => rfl
  | cons k sequences ih => exact ih _

theorem mem_expired {s : State} (filed : Filed s) (now : Timestamp) (k : UInt64) :
    k ∈ expired s now ↔ ∃ f, s.pending[k]? = some f ∧
      (f.expiresAt.any fun deadline => decide (deadline.secs < now.secs)) = true := by
  simp only [expired, values, List.mem_map, List.mem_filter, Prod.exists,
    Std.ExtTreeMap.mem_toList_iff_getElem?_eq_some]
  constructor
  · rintro ⟨f, ⟨⟨j, _, found, rfl⟩, old⟩, rfl⟩
    obtain ⟨own, -⟩ := filed _ _ found
    rw [own]
    exact ⟨_, found, old⟩
  · rintro ⟨f, found, old⟩
    exact ⟨f, ⟨⟨k, f, found, rfl⟩, old⟩, (filed k f found).1⟩

theorem sweep {s : State} (filed : Filed s) (now : Timestamp) :
    (expired s now).foldl (fun pending k => pending.erase k) s.pending =
      s.pending.filter fun _ frame =>
        frame.expiresAt.all fun deadline => decide (now.secs ≤ deadline.secs) := by
  apply get_ext
  intro a
  rw [get_foldl_erase, Std.ExtTreeMap.getElem?_filter']
  cases found : s.pending[a]? with
  | none => simp
  | some f =>
    have listed := mem_expired filed now a
    simp only [found, Option.some.injEq, exists_eq_left'] at listed
    cases deadline : f.expiresAt with
    | none => simp [listed, deadline, Option.filter]
    | some limit => simp [listed, deadline, Option.filter, ← UInt64.not_le]

/-- In memory too, an operation is the fold of its entries and answers what it deserves. -/
theorem run_meaning {m : MemoryJournal} (filed : Filed m.meaning) (op : Op) :
    (m.run op).1 = deserved m.meaning op ∧
      (m.run op).2.meaning = m.meaning.applyAll (op.entries m.meaning) := by
  cases op with
  | commitVote subject voter frame =>
    have same : m.meaning.locks = m.locks := rfl
    simp only [MemoryJournal.run, MemoryJournal.commitVote, deserved, Op.entries, same]
    by_cases held : lockKey subject voter ∈ m.locks
    · simp only [if_pos held]
      exact ⟨rfl, rfl⟩
    · simp only [if_neg held]
      rw [State.applyAll_cons, apply_vote]
      exact ⟨rfl, rfl⟩
  | reserveSequence =>
    refine ⟨rfl, ?_⟩
    rw [Op.entries, State.applyAll_cons, apply_reserved]
    rfl
  | acknowledge sequence =>
    refine ⟨rfl, ?_⟩
    simp only [Op.entries]
    split
    · rfl
    · rename_i absent
      have absent : m.pending.contains sequence = false := Bool.eq_false_iff.mpr absent
      simp only [MemoryJournal.run, MemoryJournal.acknowledge, erase_absent absent,
        State.applyAll_nil]
  | dropExpired now =>
    refine ⟨rfl, ?_⟩
    rw [Op.entries, applyAll_retired, sweep filed]
    rfl
  | witness author frame =>
    refine ⟨rfl, ?_⟩
    simp only [Op.entries]
    split
    · rename_i known
      have known : m.witnessed.contains author = true := known
      simp only [MemoryJournal.run, MemoryJournal.witness, insertIfNew_held known,
        State.applyAll_nil]
    · rfl
  | enterEpoch epoch =>
    refine ⟨rfl, ?_⟩
    have same : m.meaning.epoch = m.epoch := rfl
    simp only [Op.entries, MemoryJournal.run, MemoryJournal.enterEpoch, same]
    by_cases held : (m.epoch.any fun held => decide (epoch ≤ held)) = true
    · simp only [if_pos held]
      rfl
    · simp only [if_neg held]
      rw [State.applyAll_cons, apply_later_epoch (Bool.eq_false_iff.mpr held)]
      rfl
  | markSeen sender sequence =>
    refine ⟨rfl, ?_⟩
    simp only [Op.entries]
    split
    · rename_i known
      have mark : m.meaning.seen = m.seen := rfl
      cases found : m.seen[sender]? with
      | none => simp [mark, found] at known
      | some held =>
        have top : max held sequence = held := by
          have le : sequence ≤ held := by simpa [mark, found] using known
          apply UInt64.toNat_inj.mp
          rw [max64_toNat]
          exact Nat.max_eq_left (UInt64.le_iff_toNat_le.mp le)
        simp only [MemoryJournal.run, MemoryJournal.markSeen, found, Option.getD_some, top,
          insert_same found, State.applyAll_nil]
    · rfl
  | compact => exact ⟨rfl, rfl⟩

/-! ## A restart from a snapshot -/

theorem restored_snapshot {m : MemoryJournal} (filed : Filed m.meaning) :
    MemoryJournal.restored m.snapshot = m := by
  have locks : collect ((m.locks.toList.map fun key => (key, (0 : UInt64))).map Prod.fst) =
      m.locks := by
    rw [List.map_map, show Prod.fst ∘ (fun key : String => (key, (0 : UInt64))) = id from rfl,
      List.map_id]
    exact foldl_insert_toList m.locks
  have pending : gather ((values m.pending).map fun frame => (frame.sequence, frame)) =
      m.pending := by
    have listing : (values m.pending).map (fun frame => (frame.sequence, frame)) =
        m.pending.toList := by
      rw [values, List.map_map, List.map_congr_left (g := id), List.map_id]
      intro p mem
      have found := Std.ExtTreeMap.mem_toList_iff_getElem?_eq_some.mp mem
      exact Prod.ext (filed p.1 p.2 found).1 rfl
    rw [listing, gather_toList]
  simp only [MemoryJournal.restored, MemoryJournal.snapshot, locks, pending, gather_toList]

end InMemory
