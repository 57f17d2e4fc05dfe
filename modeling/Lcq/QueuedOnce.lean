import Lcq.NodeSteps
import Lcq.QueueRuns
import Lcq.QuietParts

/-!
# One frame for an identity

The memory of identities is apart from the queue. As long as no identity is
forgotten or pushed out of it while a frame with it waits, no identity waits
twice; a node forgets an identity before it offers it again for repair.
-/

namespace QueuedOnce

open Admission ByteFormat Contracts FileSystem JournalRecords JournalState NodeLoop NodeSteps
  OrderedMap Program QueueRuns QuietParts RadioQueue Schedule Utterances Wire
open LogJournal (Env Journal Path)
open Transitions (Clock)

/-! ## What waits, and what is remembered of it -/

/-- The identities of the frames in the queue. -/
def identities (q : Queue) : List UInt64 :=
  (q.distress ++ q.routine).map OutgoingFrame.sequence

/-- No identity waits twice, and whoever offers one that waits is told so. -/
structure Unrepeated (q : Queue) : Prop where
  once : (identities q).Nodup
  known : ∀ frame priority, frame.sequence ∈ identities q →
    (answer q (.offer frame priority)).1 = .offered (.error .duplicate)

/-- There is room for the frame, and its identity is not remembered. -/
def Accepts (q : Queue) (frame : OutgoingFrame) : Prop :=
  frame.sequence ∉ q.seen ∧ q.length < q.maxItems ∧
    q.queuedBytes + frame.bytes.length ≤ q.maxBytes

/-- No identity goes out of the memory while a frame with it waits: neither one that is
forgotten, nor the oldest of a full memory that has to take in another. -/
def Careful (q : Queue) : Call → Prop
  | .forget id => id ∉ identities q
  | .offer frame _ => Accepts q frame → q.seenOrder.length = maxDedupEntries →
      ∀ oldest, q.seenOrder.head? = some oldest → oldest ∉ identities q
  | _ => True

/-- All through a run. -/
def AlwaysCareful : Queue → List Call → Prop
  | _, [] => True
  | q, call :: calls => Careful q call ∧ AlwaysCareful (answer q call).2 calls

/-- What waits is remembered, and waits once. -/
structure Guarded (q : Queue) : Prop where
  once : (identities q).Nodup
  remembered : ∀ id ∈ identities q, id ∈ q.seen

theorem offer_duplicate {q : Queue} {frame : OutgoingFrame} {priority : Priority} :
    (answer q (.offer frame priority)).1 = .offered (.error .duplicate) ↔
      frame.sequence ∈ q.seen := by
  unfold answer offerInPlace
  dsimp only
  constructor
  · intro told
    by_contra fresh
    rw [if_neg fresh] at told
    split at told
    · cases told
    · cases priority <;> cases told
  · intro seen
    rw [if_pos seen]

theorem unrepeated_iff (q : Queue) : Unrepeated q ↔ Guarded q := by
  constructor
  · rintro ⟨once, known⟩
    refine ⟨once, fun id mem => ?_⟩
    obtain ⟨frame, -, rfl⟩ := List.mem_map.mp mem
    exact offer_duplicate.mp (known frame .routine mem)
  · rintro ⟨once, remembered⟩
    exact ⟨once, fun frame priority mem => offer_duplicate.mpr (remembered _ mem)⟩

theorem accepts_ok {q r : Queue} {frame : OutgoingFrame} {priority : Priority}
    (ok : q.offer frame priority = .ok r) : Accepts q frame := by
  obtain ⟨fresh, room, bytes, -⟩ := offer_ok ok
  exact ⟨fresh, room, bytes⟩

/-- A frame accepted adds its identity to those waiting. -/
theorem identities_offer {q r : Queue} {frame : OutgoingFrame} {priority : Priority}
    (ok : q.offer frame priority = .ok r) :
    (identities r).Perm (frame.sequence :: identities q) := by
  obtain ⟨-, -, -, mine, others, -⟩ := offer_ok ok
  unfold identities
  cases priority with
  | distress =>
    have same : r.routine = q.routine := others .routine (by decide)
    have longer : r.distress = q.distress ++ [frame] := mine
    rw [same, longer, ← List.map_cons]
    refine List.Perm.map _ ?_
    rw [List.append_assoc]
    exact List.perm_middle
  | routine =>
    have same : r.distress = q.distress := others .distress (by decide)
    have longer : r.routine = q.routine ++ [frame] := mine
    rw [same, longer, ← List.map_cons, ← List.append_assoc]
    exact List.Perm.map _ (List.perm_append_singleton _ _)

theorem identities_take {q r : Queue} {frame : OutgoingFrame} {priority : Priority}
    (took : Took q priority frame r) : (identities r).Sublist (identities q) := by
  have front := took.front
  unfold identities
  refine List.Sublist.map _ ?_
  cases priority with
  | distress =>
    have same : r.routine = q.routine := took.other .routine (by decide)
    have shorter : q.distress = frame :: r.distress := front
    rw [same, shorter]
    exact (List.sublist_cons_self _ _).append_right _
  | routine =>
    have same : r.distress = q.distress := took.other .distress (by decide)
    have shorter : q.routine = frame :: r.routine := front
    rw [same, shorter]
    exact (List.sublist_cons_self _ _).append_left _

theorem identities_drop (q : Queue) (now : Timestamp) :
    (identities (q.dropExpired now)).Sublist (identities q) := by
  unfold identities
  refine List.Sublist.map _ ?_
  exact List.filter_sublist.append List.filter_sublist

theorem forget_lines (q : Queue) (id : UInt64) : identities (q.forget id) = identities q := by
  unfold Queue.forget
  split <;> rfl

theorem seen_forget {q : Queue} {id x : UInt64} : x ∈ (q.forget id).seen ↔ x ≠ id ∧ x ∈ q.seen := by
  unfold Queue.forget
  split
  · rw [Std.ExtTreeSet.mem_erase, ne_eq, Std.compare_eq_iff_eq, ne_eq, eq_comm]
  · rename_i absent
    constructor
    · intro mem
      refine ⟨?_, mem⟩
      rintro rfl
      exact absent mem
    · exact And.right

/-- What an accepted offer leaves remembered. -/
theorem seen_offer {q r : Queue} (sound : Sound q) {frame : OutgoingFrame} {priority : Priority}
    (ok : q.offer frame priority = .ok r) (id : UInt64) :
    id ∈ r.seen ↔ id = frame.sequence ∨ id ∈ q.seen ∧
      ¬ (q.seenOrder.length = maxDedupEntries ∧ q.seenOrder.head? = some id) := by
  obtain ⟨fresh, -, -, -, -, seen, -⟩ := offer_ok ok
  obtain ⟨left, alike, -⟩ := remember_spec sound fresh
  have few := sound.few
  have absent : frame.sequence ∉ q.seenOrder := fun mem => fresh ((sound.remembered _).mpr mem)
  rw [seen, alike, left, sound.remembered]
  by_cases full : q.seenOrder.length = maxDedupEntries
  · have one : q.seenOrder.length + 1 - maxDedupEntries = 1 := by omega
    rw [one]
    cases order : q.seenOrder with
    | nil =>
      rw [order] at full
      cases full
    | cons oldest rest =>
      have once := sound.once
      rw [order, List.nodup_cons] at once
      rw [List.cons_append, List.drop_succ_cons, List.drop_zero, List.mem_append,
        List.mem_singleton, List.mem_cons, List.head?_cons, Option.some.injEq]
      rw [order] at full
      constructor
      · rintro (mem | here)
        · refine Or.inr ⟨Or.inr mem, ?_⟩
          rintro ⟨-, rfl⟩
          exact once.1 mem
        · exact Or.inl here
      · rintro (here | ⟨first | mem, other⟩)
        · exact Or.inr here
        · exact absurd ⟨full, first.symm⟩ other
        · exact Or.inl mem
  · have none : q.seenOrder.length + 1 - maxDedupEntries = 0 := by omega
    rw [none, List.drop_zero, List.mem_append, List.mem_singleton]
    constructor
    · rintro (mem | here)
      · exact Or.inr ⟨mem, fun out => full out.1⟩
      · exact Or.inl here
    · rintro (here | ⟨mem, -⟩)
      · exact Or.inr here
      · exact Or.inl mem

/-- A call keeps what waits guarded exactly if it is careful. -/
theorem guarded_answer {q : Queue} (sound : Sound q) (guarded : Guarded q) (call : Call) :
    Guarded (answer q call).2 ↔ Careful q call := by
  obtain ⟨once, remembered⟩ := guarded
  have done := did q call
  revert done
  generalize (answer q call).1 = a
  generalize (answer q call).2 = r
  intro done
  cases done with
  | @accepted frame priority r ok =>
    have waiting := identities_offer ok
    have fresh : frame.sequence ∉ identities q := fun mem => (accepts_ok ok).1 (remembered _ mem)
    constructor
    · rintro ⟨-, kept⟩ - full oldest first mem
      have waits : oldest ∈ identities r := waiting.symm.subset (List.mem_cons_of_mem _ mem)
      rcases (seen_offer sound ok oldest).mp (kept oldest waits) with rfl | ⟨-, other⟩
      · exact fresh mem
      · exact other ⟨full, first⟩
    · intro careful
      refine ⟨waiting.nodup_iff.mpr (List.nodup_cons.mpr ⟨fresh, once⟩), ?_⟩
      intro id mem
      rw [seen_offer sound ok]
      rcases List.mem_cons.mp (waiting.subset mem) with here | old
      · exact Or.inl here
      · refine Or.inr ⟨remembered id old, ?_⟩
        rintro ⟨full, first⟩
        exact careful (accepts_ok ok) full id first old
  | @refused frame priority e refused =>
    constructor
    · rintro - ⟨fresh, room, bytes⟩
      unfold Queue.offer at refused
      rw [if_neg fresh, if_neg (by omega)] at refused
      cases priority <;> cases refused
    · intro _
      exact ⟨once, remembered⟩
  | took took =>
    have fewer := identities_take took
    refine ⟨fun _ => trivial, fun _ => ⟨once.sublist fewer, ?_⟩⟩
    intro id mem
    rw [took.rest.1]
    exact remembered id (fewer.subset mem)
  | empty => exact ⟨fun _ => trivial, fun _ => ⟨once, remembered⟩⟩
  | forgot id =>
    constructor
    · rintro ⟨-, kept⟩ mem
      rw [forget_lines] at kept
      exact (seen_forget.mp (kept id mem)).1 rfl
    · intro careful
      have careful : id ∉ identities q := careful
      refine ⟨?_, ?_⟩
      · rw [forget_lines]
        exact once
      · rw [forget_lines]
        intro x mem
        rw [seen_forget]
        refine ⟨?_, remembered x mem⟩
        rintro rfl
        exact careful mem
  | dropped now =>
    have fewer := identities_drop q now
    refine ⟨fun _ => trivial, fun _ => ⟨once.sublist fewer, ?_⟩⟩
    exact fun id mem => remembered id (fewer.subset mem)

/-- All through a run, exactly if every call is careful. -/
theorem guarded_run (calls : List Call) {q : Queue} {maxItems maxBytes : Nat}
    (capped : Capped maxItems maxBytes q) (guarded : Guarded q) :
    (∀ earlier, earlier <+: calls → Guarded (after q earlier)) ↔ AlwaysCareful q calls := by
  induction calls generalizing q with
  | nil =>
    refine ⟨fun _ => trivial, fun _ earlier before => ?_⟩
    rw [List.prefix_nil.mp before]
    exact guarded
  | cons call calls ih =>
    have next := guarded_answer capped.sound guarded call
    constructor
    · intro all
      have here : Guarded (answer q call).2 := all [call] (List.prefix_append [call] calls)
      refine ⟨next.mp here, (ih (capped.answer call) here).mp fun earlier before => ?_⟩
      exact all (call :: earlier) ((List.prefix_cons_inj call).mpr before)
    · rintro ⟨careful, rest⟩ earlier before
      cases earlier with
      | nil => exact guarded
      | cons first earlier =>
        obtain ⟨rfl, inside⟩ := List.cons_prefix_cons.mp before
        exact (ih (capped.answer first) (next.mpr careful)).mpr rest earlier inside

/-! ## What a node does to its queue -/

section calls

variable (P : Postcard) {C : Primitives} (station : Station C)

/-- Frames asked for again are forgotten and offered, one by one. -/
def againCalls (priority : Priority) (frames : List OutgoingFrame) : List Call :=
  frames.flatMap fun frame => [.forget frame.sequence, .offer frame priority]

/-- What a repair request makes of the queue. -/
def answeringCalls (d : Deliberation) (anchor : Nat) (journal : Journal) (learned : Admitted)
    (requester now : Nat) : List Call :=
  match repairRound station.options station.fleet.size anchor now with
  | none => []
  | some round =>
    if learned.nack = false ∨ d.repairedRound = some round then []
    else
      let routine :=
        if learned.heard.contains station.options.index = true then
          carriedVotes station journal.state requester learned.heard
        else []
      againCalls .routine routine ++
        againCalls .distress (owedVote station journal learned.heard).toList

/-- What a turn takes for its slot of the resend window. -/
def resendCalls (t : Turn) (d : Deliberation) : List Call :=
  match d.repairDue with
  | none => []
  | some due => if due ≤ t.now .resending 0 then [.takeNext] else []

/-- What a frame read in a round puts down to be sent again. -/
def hearCalls (t : Turn) (anchor : Nat) (k : Node) : List Call :=
  match t.received with
  | none => []
  | some frame =>
    if dropped station frame k.mind.tally = true ∨ (triggerRound station frame).isSome = true then
      []
    else
      let learned := (admitFrame station frame k.mind.tally.case (t.clock .received)).1
      match learned.verified with
      | none => []
      | some (sender, sequence) =>
        let marked := (rememberSeen P (t.envs .received 0) sender sequence k).2
        answeringCalls station k.mind anchor marked.desk.running.journal learned sender
          (t.now .received 0)

/-- What a turn that is survived does to the queue. -/
def turnCalls (t : Turn) (n : Node) : List Call :=
  match untilRadio P station t n with
  | (.ok (some anchor), k) => resendCalls t n.mind ++ hearCalls P station t anchor k
  | _ => []

/-- What a life has done to its queue, one happening further on. -/
def callsNext (calls : List Call) : Lives → Happening → List Call
  | .alive node, .turn t =>
    if node.mind.finished = true then calls else calls ++ turnCalls P station t node
  | .dead .., .boot .. => []
  | _, _ => calls

def callsAfter (path : Path) : Lives → List Call → List Happening → List Call
  | _, calls, [] => calls
  | lives, calls, happening :: rest =>
    callsAfter path (lives.next P station path happening) (callsNext P station calls lives happening)
      rest

end calls

variable {P : Postcard} {C : Primitives} {station : Station C}

theorem after_append (q : Queue) (calls more : List Call) :
    after q (calls ++ more) = after (after q calls) more := List.foldl_append

theorem queueAgain_calls (priority : Priority) (queued : Queue × Nat) (frame : OutgoingFrame) :
    (queueAgain priority queued frame).1 =
      after queued.1 [.forget frame.sequence, .offer frame priority] := by
  change _ = (answer (queued.1.forget frame.sequence) (.offer frame priority)).2
  unfold queueAgain answer
  dsimp only
  rw [offerInPlace_eq]
  cases (queued.1.forget frame.sequence).offer frame priority <;> rfl

theorem again_calls (priority : Priority) (frames : List OutgoingFrame) (queued : Queue × Nat) :
    (frames.foldl (queueAgain priority) queued).1 =
      after queued.1 (againCalls priority frames) := by
  induction frames generalizing queued with
  | nil => rfl
  | cons frame frames ih =>
    have first : againCalls priority (frame :: frames) =
        [.forget frame.sequence, .offer frame priority] ++ againCalls priority frames := rfl
    rw [List.foldl_cons, ih, queueAgain_calls, first, after_append]

theorem answering_calls (d : Deliberation) (anchor : Nat) (journal : Journal) (learned : Admitted)
    (requester now : Nat) :
    (d.answering station anchor journal learned requester now).forwards =
      after d.forwards (answeringCalls station d anchor journal learned requester now) := by
  unfold Deliberation.answering answeringCalls
  cases repairRound station.options station.fleet.size anchor now with
  | none => rfl
  | some round =>
    dsimp only
    by_cases idle : learned.nack = false ∨ d.repairedRound = some round
    · rw [if_pos idle, if_pos idle]
      rfl
    · rw [if_neg idle, if_neg idle, after_append, ← again_calls .routine _ (d.forwards, 0),
        ← again_calls, apply_ite Deliberation.forwards]
      exact ite_self _

theorem answeringCalls_congr {d e : Deliberation} (same : d.repairedRound = e.repairedRound)
    (anchor : Nat) (journal : Journal) (learned : Admitted) (requester now : Nat) :
    answeringCalls station d anchor journal learned requester now =
      answeringCalls station e anchor journal learned requester now := by
  unfold answeringCalls
  rw [same]

theorem resendCalls_congr {d e : Deliberation} (same : d.repairDue = e.repairDue) (t : Turn) :
    resendCalls t d = resendCalls t e := by
  unfold resendCalls
  rw [same]

/-- What repair has in mind. -/
structure Waits (q : Queue) (due : Option Nat) (repaired : Option Nat) (n : Node) : Prop where
  forwards : n.mind.forwards = q
  repairDue : n.mind.repairDue = due
  repairedRound : n.mind.repairedRound = repaired

section turns

variable {q : Queue} {due repaired : Option Nat} {t : Turn} {anchor : Nat}

theorem waits_steady {n m : Node} (waits : Waits q due repaired n)
    (steady : Steady n.mind m.mind) : Waits q due repaired m := by
  constructor
  · rw [steady.forwards, waits.forwards]
  · rw [steady.repairDue, waits.repairDue]
  · rw [steady.repairedRound, waits.repairedRound]

theorem waits_quiet {n m : Node} (waits : Waits q due repaired n) (quiet : Quiet n.mind m.mind) :
    Waits q due repaired m := waits_steady waits quiet.steady

theorem yields_resend {n : Node} (waits : Waits q due repaired n) :
    Yields (NodeLoop.resend t anchor) n fun _ m =>
      m.mind.forwards = after q (resendCalls t n.mind) ∧ m.mind.repairedRound = repaired := by
  refine Yields.reading ?_
  unfold resendCalls
  cases n.mind.repairDue with
  | none => exact Yields.pure ⟨waits.forwards, waits.repairedRound⟩
  | some instant =>
    dsimp only
    split
    · have taking : after q [.takeNext] = (answer q .takeNext).2 := rfl
      refine Yields.bind (Yields.change (Q := fun _ m => m.mind.forwards = q ∧
        m.mind.repairedRound = repaired) ⟨waits.forwards, waits.repairedRound⟩) ?_
      rintro _ m ⟨same, round⟩
      rw [waits.forwards]
      cases taken : q.takeNext with
      | none =>
        refine Yields.pure ⟨same.trans ?_, round⟩
        rw [taking, answer, taken]
      | some p =>
        obtain ⟨carried, rest⟩ := p
        have left : after q [.takeNext] = rest := by rw [taking, answer, taken]
        refine Yields.bind (Yields.change (Q := fun _ m => m.mind.forwards = rest ∧
          m.mind.repairedRound = repaired) ⟨rfl, round⟩) ?_
        rintro _ k ⟨now, round⟩
        exact Yields.change ⟨now.trans left.symm, round⟩
    · exact Yields.pure ⟨waits.forwards, waits.repairedRound⟩

theorem rememberSeen_desk {n m : Node} (same : n.desk = m.desk) (env : Env) (sender : Nat)
    (sequence : UInt64) : (rememberSeen P env sender sequence n).2.desk =
      (rememberSeen P env sender sequence m).2.desk := by
  unfold rememberSeen
  split
  · simp only [bind_apply, caught, zoom_apply, same]
    generalize LogJournal.markSeen P env (.ofNat sender) sequence m.desk.running = out
    obtain ⟨(e | _) | a, running⟩ := out <;> rfl
  · exact same

/-- A frame that was read and verified is answered with what the journal holds by then. -/
theorem yields_learn {frame : Bytes} {learned : Admitted} {n k : Node}
    (waits : Waits q due repaired n) (again : k.mind.repairedRound = repaired)
    (desk : n.desk = k.desk) :
    Yields (learn P station t anchor frame learned) n fun _ m =>
      m.mind.forwards = after q (match learned.verified with
        | none => []
        | some (sender, sequence) =>
          answeringCalls station k.mind anchor
            (rememberSeen P (t.envs .received 0) sender sequence k).2.desk.running.journal learned
            sender (t.now .received 0)) := by
  unfold learn
  cases learned.verified with
  | none => exact Yields.pure waits.forwards
  | some verified =>
  obtain ⟨sender, sequence⟩ := verified
  dsimp only
  have steady {m : Node} {f : Deliberation → Deliberation} {r : Queue} (held : m.mind.forwards = r)
      (same : ∀ d, (f d).forwards = d.forwards) :
      Yields (minding f) m fun _ l => l.mind.forwards = r := Yields.change ((same _).trans held)
  refine Yields.bind (R := fun _ u => Waits q due repaired u ∧ u.desk = k.desk)
    (Yields.change ⟨waits_quiet waits ⟨_, _, _, _, rfl⟩, desk⟩) ?_
  rintro _ u ⟨marked, desk⟩
  refine Yields.bind (R := fun _ v => Waits q due repaired v ∧
    v.desk = (rememberSeen P (t.envs .received 0) sender sequence k).2.desk) ?_ ?_
  · intro a v ran
    refine ⟨((always_rememberSeen waits_quiet _ _ _).leads marked).returned a v ran, ?_⟩
    rw [← rememberSeen_desk desk, ran]
  rintro _ v ⟨remembered, noted⟩
  refine Yields.bind (R := fun _ w => Waits q due repaired w ∧ w.desk = v.desk)
    (Yields.change ⟨waits_quiet remembered ⟨_, _, _, _, rfl⟩, rfl⟩) ?_
  rintro _ w ⟨held, same⟩
  have answered : (w.mind.answering station anchor w.desk.running.journal learned sender
      (t.now .received 0)).forwards = after q (answeringCalls station k.mind anchor
        (rememberSeen P (t.envs .received 0) sender sequence k).2.desk.running.journal learned
        sender (t.now .received 0)) := by
    rw [answering_calls, held.forwards, same, noted,
      answeringCalls_congr (held.repairedRound.trans again.symm)]
  refine Yields.reading (Yields.bind
    (Yields.change (Q := fun _ (x : Node) => x.mind.forwards = _) answered) fun _ x forwards => ?_)
  refine Yields.bind (steady forwards fun d => ?_) fun _ y forwards => ?_
  · unfold Deliberation.compared
    split
    · rfl
    · dsimp only
      split <;> rfl
  refine Yields.bind (steady forwards fun d => ?_) fun _ z forwards => ?_
  · obtain ⟨_, _, _, _, same⟩ := (quiet_heardFrom d learned).trans
      (@quiet_acknowledgedBy _ station _ learned)
    rw [same]
  have stable {a b : Node} (held : a.mind.forwards = z.mind.forwards)
      (quiet : Quiet a.mind b.mind) : b.mind.forwards = z.mind.forwards :=
    quiet.steady.forwards.trans held
  refine ((always_witnessing stable _ _ _).leads rfl).returned.weaken fun _ m kept => ?_
  exact kept.trans forwards

/-- In a round a frame puts down what it asks for. -/
theorem yields_hear {k : Node} (waits : Waits q due repaired k) :
    Yields (hear P station t anchor) k fun _ m =>
      m.mind.forwards = after q (hearCalls P station t anchor k) := by
  unfold hear hearCalls
  cases t.received with
  | none =>
    exact ((always_ending waits_steady).leads waits).returned.weaken fun _ m kept => kept.forwards
  | some frame =>
    refine Yields.reading ?_
    have case : (k.mind.tally.hasReceived station frame).case = k.mind.tally.case :=
      hasReceived_case _ _
    refine Yields.bind (R := fun _ l => Waits q due repaired l ∧ l.desk = k.desk ∧
      l.mind.tally.case = k.mind.tally.case) (Yields.change ⟨?_, rfl, case⟩) ?_
    · exact waits_quiet waits ⟨_, _, _, _, rfl⟩
    rintro _ l ⟨heard, desk, case⟩
    dsimp only
    by_cases out : dropped station frame k.mind.tally = true
    · have gone : isReplay frame k.mind.tally.windows = true ∨
          fromOutsideTheFleet station frame = true := by simpa [dropped] using out
      rw [if_pos gone, if_pos (Or.inl out)]
      exact Yields.pure heard.forwards
    have inside : ¬ (isReplay frame k.mind.tally.windows = true ∨
        fromOutsideTheFleet station frame = true) := by simpa [dropped] using out
    rw [if_neg inside]
    cases trigger : triggerRound station frame with
    | some opened =>
      obtain ⟨other, opener, sequence⟩ := opened
      have opens : dropped station frame k.mind.tally = true ∨
          (some (other, opener, sequence)).isSome = true := Or.inr rfl
      rw [if_pos opens]
      refine Yields.bind ((always_tallying waits_quiet _).leads heard).returned
        fun _ u marked => ?_
      refine Yields.bind ((always_rememberSeen waits_quiet _ _ _).leads marked).returned
        fun _ v remembered => Yields.change ?_
      refine Eq.trans ?_ remembered.forwards
      change (v.mind.openedAgain other opener frame).forwards = v.mind.forwards
      unfold Deliberation.openedAgain
      split <;> rfl
    | none =>
      have closed : ¬ (dropped station frame k.mind.tally = true ∨
          (none : Option (RoundId × Nat × UInt64)).isSome = true) := by
        rintro (gone | opens)
        · exact out gone
        · cases opens
      rw [if_neg closed]
      refine Yields.bind (R := fun learned u =>
        learned = (admitFrame station frame k.mind.tally.case (t.clock .received)).1 ∧
          Waits q due repaired u ∧ u.desk = k.desk) ?_ ?_
      · rintro _ _ ⟨⟩
        rw [← case]
        exact ⟨offered_fst _ _ _, waits_quiet heard ⟨_, _, _, _, rfl⟩, desk⟩
      rintro learned u ⟨rfl, offered, desk⟩
      refine Yields.bind (yields_learn offered waits.repairedRound desk) fun _ v forwards => ?_
      have stable {a b : Node} (held : a.mind.forwards = v.mind.forwards)
          (steady : Steady a.mind b.mind) : b.mind.forwards = v.mind.forwards :=
        steady.forwards.trans held
      refine ((always_ending stable).leads rfl).returned.weaken fun _ m kept => ?_
      exact kept.trans forwards

/-- Before a turn reads its radio, only the resend takes anything. -/
theorem yields_untilRadio {n : Node} (waits : Waits q due repaired n) :
    Yields (untilRadio P station t) n fun began k => match began with
      | none => k.mind.forwards = q
      | some _ => ∃ later, Waits (after q (resendCalls t n.mind)) later repaired k := by
  refine Yields.bind ((always_openRound waits_steady).leads waits).returned fun _ m opened =>
    Yields.reading ?_
  split
  · exact Yields.pure opened.forwards
  refine Yields.bind ((always_closing waits_quiet t).leads opened).returned fun _ a closed =>
    Yields.bind ((always_speak waits_steady _).leads closed).returned fun _ b first =>
    Yields.bind ((always_speak waits_steady _).leads first).returned fun _ c second =>
    Yields.bind ((always_speak waits_steady _).leads second).returned fun _ d third =>
    Yields.bind ((always_askForRepair waits_steady).leads third).returned fun _ e asked =>
    Yields.bind (yields_resend asked) ?_
  rintro _ f ⟨forwards, round⟩
  rw [resendCalls_congr (asked.repairDue.trans waits.repairDue.symm)] at forwards
  exact Yields.pure ⟨_, forwards, rfl, round⟩

/-- A turn that is survived has made its calls on the queue, and no others. -/
theorem yields_turn {n : Node} : Yields (turn P station t) n fun _ m =>
    m.mind.forwards = after n.mind.forwards (turnCalls P station t n) := by
  have begun : Waits n.mind.forwards n.mind.repairDue n.mind.repairedRound n := ⟨rfl, rfl, rfl⟩
  rw [turn_radio]
  intro a m ran
  obtain ⟨began, k, came, rest⟩ := andThen_eq_ok ran
  have waits := yields_untilRadio begun began k came
  unfold turnCalls
  rw [came]
  cases began with
  | none =>
    have stable {a b : Node} (held : a.mind.forwards = k.mind.forwards)
        (steady : Steady a.mind b.mind) : b.mind.forwards = k.mind.forwards :=
      steady.forwards.trans held
    exact (((always_await stable).leads rfl).returned a m rest).trans waits
  | some anchor =>
    obtain ⟨later, waits⟩ := waits
    have forwards := yields_hear waits a m rest
    rw [after_append]
    exact forwards

end turns

/-! ## Runs -/

/-- A living node's queue is what the calls of its life have made of it. -/
def Traced (calls : List Call) : Lives → Prop
  | .dead _ _ _ => True
  | .alive node => node.mind.forwards = after (.withCapacity 64 (64 * maxFrameBytes)) calls

theorem traced_next (path : Path) {lives : Lives} {calls : List Call} (happening : Happening)
    (traced : Traced calls lives) :
    Traced (callsNext P station calls lives happening) (lives.next P station path happening) := by
  cases lives with
  | dead disk sealed past =>
    cases happening with
    | boot entropy opening entering =>
      unfold Lives.next
      dsimp only
      split
      · trivial
      · rfl
    | turn t => trivial
    | crash => trivial
  | alive node =>
    cases happening with
    | boot entropy opening entering => exact traced
    | crash => trivial
    | turn t =>
      unfold Lives.next callsNext
      dsimp only
      split
      · exact traced
      split
      · trivial
      · rename_i m ran
        refine (yields_turn () m ran).trans ?_
        rw [after_append]
        exact congrArg (after · _) traced

theorem traced_after (path : Path) (happenings : List Happening) {lives : Lives}
    {calls : List Call} (traced : Traced calls lives) :
    Traced (callsAfter P station path lives calls happenings)
      (lives.after P station path happenings) := by
  induction happenings generalizing lives calls with
  | nil => exact traced
  | cons happening rest ih => exact ih (traced_next path happening traced)

theorem guarded_capacity (maxItems maxBytes : Nat) : Guarded (.withCapacity maxItems maxBytes) := by
  refine ⟨List.nodup_nil, ?_⟩
  rintro id ⟨⟩

/-- In every state of a run of the queue no identity waits twice and every one that waits is
refused as a duplicate, exactly if no call lets an identity out of the memory while a frame with
it waits; and a node's queue is a run of the calls its life has made, so that it holds no vote
twice as long as they are careful. -/
theorem queued_once (maxItems maxBytes : Nat) (offers : List Call) (P : Postcard) {C : Primitives}
    (station : Station C) (path : Path) (disk : Disk Path) (sealed : List Sealing) (past : Past)
    (happenings : List Happening) :
    ((∀ earlier, earlier <+: offers →
        Unrepeated (after (.withCapacity maxItems maxBytes) earlier)) ↔
      AlwaysCareful (.withCapacity maxItems maxBytes) offers) ∧
    ∀ node,
      let start : Lives := .dead disk sealed past
      let calls := callsAfter P station path start [] happenings
      start.after P station path happenings = .alive node →
        node.mind.forwards = after (.withCapacity 64 (64 * maxFrameBytes)) calls ∧
          (AlwaysCareful (.withCapacity 64 (64 * maxFrameBytes)) calls →
            Unrepeated node.mind.forwards) := by
  constructor
  · have capped : Capped maxItems maxBytes (.withCapacity maxItems maxBytes) := capped_after _ _ []
    rw [← guarded_run offers capped (guarded_capacity _ _)]
    simp only [unrepeated_iff]
  · intro node start calls reached
    have begun : Traced [] start := trivial
    have traced := @traced_after P C station path happenings _ _ begun
    rw [reached] at traced
    refine ⟨traced, fun careful => ?_⟩
    have capped : Capped 64 (64 * maxFrameBytes) (.withCapacity 64 (64 * maxFrameBytes)) :=
      capped_after _ _ []
    have guarded := (guarded_run calls capped (guarded_capacity _ _)).mpr careful calls
      (List.prefix_refl _)
    rw [traced, unrepeated_iff]
    exact guarded

/-- Offered, forgotten while it waits, and offered again. -/
theorem queued_twice : ∃ (maxItems maxBytes : Nat) (calls : List Call),
    ¬ (identities (after (.withCapacity maxItems maxBytes) calls)).Nodup := by
  refine ⟨64, 16320, [.offer (.new [1, 2, 3] 77) .routine, .forget 77,
    .offer (.new [1, 2, 3] 77) .routine], ?_⟩
  decide

end QueuedOnce
