import Lcq.RadioQueue
import Lcq.WaitingLines
import Mathlib.Data.List.Chain

/-!
# Runs of the radio queue

Offers, takes, forgotten identities and dropped frames in any order: what the
queue counts and remembers, what becomes of every frame it accepts, and which
class is served when.
-/

namespace QueueRuns

open ByteFormat Contracts JournalState OrderedMap RadioQueue WaitingLines

/-! ## Calls -/

inductive Call where
  | offer (frame : OutgoingFrame) (priority : Priority)
  | takeNext
  | forget (sequence : UInt64)
  | dropExpired (now : Timestamp)

inductive Answer where
  | offered (result : Except QueueError Unit)
  | taken (frame : Option OutgoingFrame)
  | done

/-- What `offer` does to the queue it borrows, write by write. -/
def offerInPlace (q : Queue) (frame : OutgoingFrame) (priority : Priority) :
    Except QueueError Unit × Queue :=
  if frame.sequence ∈ q.seen then (.error .duplicate, q)
  else if q.maxItems ≤ q.length ∨ q.maxBytes < q.queuedBytes + frame.bytes.length then
    (.error .full, q)
  else
    let q := q.remember frame.sequence
    let q := { q with queuedBytes := q.queuedBytes + frame.bytes.length }
    match priority with
    | .distress => (.ok (), { q with distress := q.distress ++ [frame] })
    | .routine => (.ok (), { q with routine := q.routine ++ [frame] })

/-- What a call returns and leaves. -/
def answer (q : Queue) : Call → Answer × Queue
  | .offer frame priority =>
    let (result, q) := offerInPlace q frame priority
    (.offered result, q)
  | .takeNext =>
    match q.takeNext with
    | none => (.taken none, q)
    | some (frame, q) => (.taken (some frame), q)
  | .forget sequence => (.done, q.forget sequence)
  | .dropExpired now => (.done, q.dropExpired now)

def after (q : Queue) (calls : List Call) : Queue :=
  calls.foldl (fun q call => (answer q call).2) q

def answers : Queue → List Call → List Answer
  | _, [] => []
  | q, call :: calls => (answer q call).1 :: answers (answer q call).2 calls

theorem offerInPlace_eq (q : Queue) (frame : OutgoingFrame) (priority : Priority) :
    offerInPlace q frame priority =
      match q.offer frame priority with
      | .error e => (.error e, q)
      | .ok after => (.ok (), after) := by
  unfold offerInPlace Queue.offer
  split
  · rfl
  · split
    · rfl
    · cases priority <;> rfl

theorem after_snoc (q : Queue) (calls : List Call) (call : Call) :
    after q (calls ++ [call]) = (answer (after q calls) call).2 := by
  rw [after, List.foldl_append]
  rfl

theorem answers_snoc (q : Queue) (calls : List Call) (call : Call) :
    answers q (calls ++ [call]) = answers q calls ++ [(answer (after q calls) call).1] := by
  induction calls generalizing q with
  | nil => rfl
  | cons first calls ih =>
    rw [List.cons_append, answers, answers, ih, List.cons_append]
    rfl

theorem length_answers (q : Queue) (calls : List Call) :
    (answers q calls).length = calls.length := by
  induction calls generalizing q with
  | nil => rfl
  | cons call calls ih => rw [answers, List.length_cons, List.length_cons, ih]

/-! ## What one call does -/

def line (q : Queue) : Priority → List OutgoingFrame
  | .distress => q.distress
  | .routine => q.routine

def bytesOf (frames : List OutgoingFrame) : Nat :=
  (frames.map fun frame => frame.bytes.length).sum

def expired (now : Timestamp) (frame : OutgoingFrame) : Bool :=
  frame.expiresAt.any fun deadline => decide (deadline.secs < now.secs)

/-- A class is served where the other is empty or its turn has come. -/
def Turn (q : Queue) : Priority → Prop
  | .distress => q.routine = [] ∨ q.distressStreak < distressBurst
  | .routine => q.distress = [] ∨ distressBurst ≤ q.distressStreak

/-- How many distress frames have been served one behind the other. -/
def streakAfter (streak : UInt8) : Priority → UInt8
  | .distress => if streak = 255 then 255 else streak + 1
  | .routine => 0

/-- A frame is taken off the front of its class. -/
structure Took (q : Queue) (priority : Priority) (frame : OutgoingFrame) (r : Queue) : Prop where
  turn : Turn q priority
  front : line q priority = frame :: line r priority
  other : ∀ p, p ≠ priority → line r p = line q p
  bytes : r.queuedBytes = q.queuedBytes - frame.bytes.length
  streak : r.distressStreak = streakAfter q.distressStreak priority
  rest : r.seen = q.seen ∧ r.seenOrder = q.seenOrder ∧ r.maxItems = q.maxItems ∧
    r.maxBytes = q.maxBytes

theorem takeNext_none {q : Queue} : q.takeNext = none ↔ q.distress = [] ∧ q.routine = [] := by
  unfold Queue.takeNext Queue.takeRoutine
  cases distress : q.distress <;> cases routine : q.routine <;> simp
  split <;> simp

theorem takeNext_some {q r : Queue} {frame : OutgoingFrame}
    (taken : q.takeNext = some (frame, r)) : ∃ priority, Took q priority frame r := by
  unfold Queue.takeNext at taken
  split at taken
  · rename_i turn
    refine ⟨.routine, ?_⟩
    unfold Queue.takeRoutine at taken
    dsimp only at taken
    split at taken
    · cases taken
    · rename_i routine
      cases taken
      refine ⟨turn.1, routine, ?_, rfl, rfl, rfl, rfl, rfl, rfl⟩
      intro p other
      cases p with
      | distress => rfl
      | routine => exact absurd rfl other
  · rename_i turn
    split at taken
    · rename_i distress
      cases taken
      refine ⟨.distress, ?_, distress, ?_, rfl, rfl, rfl, rfl, rfl, rfl⟩
      · by_cases none : q.routine = []
        · exact Or.inl none
        · refine Or.inr (UInt8.not_le.mp fun spent => turn ⟨Or.inr spent, none⟩)
      · intro p other
        cases p with
        | distress => exact absurd rfl other
        | routine => rfl
    · rename_i distress
      -- with no distress frame there is nothing at all, or it was routine's turn
      unfold Queue.takeRoutine at taken
      split at taken
      · cases taken
      · rename_i routine
        refine absurd ⟨Or.inl distress, ?_⟩ turn
        rw [routine]
        exact List.cons_ne_nil _ _

/-! ## What the queue counts and remembers -/

/-- What a queue says of itself is so. -/
structure Sound (q : Queue) : Prop where
  bytes : q.queuedBytes = bytesOf (q.distress ++ q.routine)
  items : q.length ≤ q.maxItems
  capacity : q.queuedBytes ≤ q.maxBytes
  remembered : ∀ id, id ∈ q.seen ↔ id ∈ q.seenOrder
  once : q.seenOrder.Nodup
  few : q.seenOrder.length ≤ maxDedupEntries

theorem bytesOf_append (frames others : List OutgoingFrame) :
    bytesOf (frames ++ others) = bytesOf frames + bytesOf others := by
  rw [bytesOf, List.map_append, List.sum_append]
  rfl

theorem bytesOf_cons (frame : OutgoingFrame) (frames : List OutgoingFrame) :
    bytesOf (frame :: frames) = frame.bytes.length + bytesOf frames := rfl

theorem bytesOf_filter (keep : OutgoingFrame → Bool) (frames : List OutgoingFrame) :
    bytesOf (frames.filter keep) ≤ bytesOf frames := by
  induction frames with
  | nil => exact Nat.le_refl _
  | cons frame frames ih =>
    rw [List.filter_cons, bytesOf_cons]
    split
    · rw [bytesOf_cons]
      omega
    · omega

theorem sound_capacity (maxItems maxBytes : Nat) : Sound (.withCapacity maxItems maxBytes) := by
  refine ⟨rfl, Nat.zero_le _, Nat.zero_le _, ?_, List.nodup_nil, Nat.zero_le _⟩
  intro id
  simp [Queue.withCapacity]

/-- What is evicted is forgotten, and only that. -/
theorem evict_spec (order : List UInt64) (seen : Keys UInt64)
    (remembered : ∀ id, id ∈ seen ↔ id ∈ order) (once : order.Nodup) :
    (evict seen order).2 = order.drop (order.length - maxDedupEntries) ∧
      ∀ id, id ∈ (evict seen order).1 ↔ id ∈ (evict seen order).2 := by
  induction order generalizing seen with
  | nil => exact ⟨rfl, remembered⟩
  | cons oldest order ih =>
    rw [evict]
    obtain ⟨fresh, rest⟩ := List.nodup_cons.mp once
    split
    · rename_i many
      rw [List.length_cons] at many
      have erased : ∀ id, id ∈ seen.erase oldest ↔ id ∈ order := by
        intro id
        rw [Std.ExtTreeSet.mem_erase, remembered, List.mem_cons]
        constructor
        · rintro ⟨other, rfl | mem⟩
          · exact absurd Std.ReflCmp.compare_self other
          · exact mem
        · intro mem
          refine ⟨?_, Or.inr mem⟩
          rintro same
          rw [Std.compare_eq_iff_eq] at same
          subst same
          exact fresh mem
      obtain ⟨left, alike⟩ := ih _ erased rest
      refine ⟨?_, alike⟩
      rw [left, List.length_cons, show order.length + 1 - maxDedupEntries =
        order.length - maxDedupEntries + 1 by omega, List.drop_succ_cons]
    · rename_i few
      rw [Nat.not_lt] at few
      refine ⟨?_, remembered⟩
      rw [Nat.sub_eq_zero_of_le few, List.drop_zero]

/-- A new identity goes to the end, and at most the oldest is forgotten for it. -/
theorem remember_spec {q : Queue} (sound : Sound q) {id : UInt64} (fresh : id ∉ q.seen) :
    (q.remember id).seenOrder =
        (q.seenOrder ++ [id]).drop (q.seenOrder.length + 1 - maxDedupEntries) ∧
      (∀ x, x ∈ (q.remember id).seen ↔ x ∈ (q.remember id).seenOrder) ∧
      (q.remember id).seenOrder.Nodup ∧
      (q.remember id).seenOrder.length ≤ maxDedupEntries := by
  have absent : id ∉ q.seenOrder := fun mem => fresh ((sound.remembered id).mpr mem)
  have inserted : ∀ x, x ∈ q.seen.insert id ↔ x ∈ q.seenOrder ++ [id] := by
    intro x
    rw [mem_insert_iff, sound.remembered, List.mem_append, List.mem_singleton, or_comm, eq_comm]
  have once : (q.seenOrder ++ [id]).Nodup := by
    rw [List.nodup_append]
    refine ⟨sound.once, by simp, ?_⟩
    intro a mem b last
    rw [List.mem_singleton.mp last]
    rintro rfl
    exact absent mem
  obtain ⟨left, alike⟩ := evict_spec _ _ inserted once
  have size : (q.seenOrder ++ [id]).length = q.seenOrder.length + 1 := by
    rw [List.length_append, List.length_singleton]
  rw [size] at left
  refine ⟨left, alike, ?_, ?_⟩
  · change (evict _ _).2.Nodup
    rw [left]
    exact once.sublist (List.drop_sublist _ _)
  · change (evict _ _).2.length ≤ _
    have few := sound.few
    rw [left, List.length_drop, size]
    omega

/-- How an offer ends that is accepted. -/
theorem offer_ok {q r : Queue} {frame : OutgoingFrame} {priority : Priority}
    (accepted : q.offer frame priority = .ok r) :
    frame.sequence ∉ q.seen ∧ q.length < q.maxItems ∧
      q.queuedBytes + frame.bytes.length ≤ q.maxBytes ∧
      line r priority = line q priority ++ [frame] ∧
      (∀ p, p ≠ priority → line r p = line q p) ∧
      r.seen = (q.remember frame.sequence).seen ∧
      r.seenOrder = (q.remember frame.sequence).seenOrder ∧
      r.queuedBytes = q.queuedBytes + frame.bytes.length ∧
      r.maxItems = q.maxItems ∧ r.maxBytes = q.maxBytes ∧
      r.distressStreak = q.distressStreak := by
  unfold Queue.offer at accepted
  split at accepted
  · cases accepted
  · rename_i fresh
    split at accepted
    · cases accepted
    · rename_i room
      rw [not_or, Nat.not_le, Nat.not_lt] at room
      cases priority with
      | distress =>
        cases accepted
        refine ⟨fresh, room.1, room.2, rfl, ?_, rfl, rfl, rfl, rfl, rfl, rfl⟩
        intro p other
        cases p with
        | distress => exact absurd rfl other
        | routine => rfl
      | routine =>
        cases accepted
        refine ⟨fresh, room.1, room.2, rfl, ?_, rfl, rfl, rfl, rfl, rfl, rfl⟩
        intro p other
        cases p with
        | distress => rfl
        | routine => exact absurd rfl other

/-- Bytes and frames of both classes together. -/
theorem split_lines (q : Queue) (priority : Priority) : ∃ other, other ≠ priority ∧
    bytesOf (q.distress ++ q.routine) = bytesOf (line q priority) + bytesOf (line q other) ∧
    q.length = (line q priority).length + (line q other).length := by
  cases priority with
  | distress => exact ⟨.routine, by decide, bytesOf_append _ _, rfl⟩
  | routine =>
    refine ⟨.distress, by decide, ?_, Nat.add_comm _ _⟩
    rw [bytesOf_append, Nat.add_comm]
    rfl

theorem lines_same {q r : Queue} {priority other : Priority} (differ : other ≠ priority)
    (same : line r other = line q other) :
    bytesOf (r.distress ++ r.routine) = bytesOf (line r priority) + bytesOf (line q other) ∧
      r.length = (line r priority).length + (line q other).length := by
  cases priority with
  | distress =>
    cases other with
    | distress => exact absurd rfl differ
    | routine =>
      refine ⟨?_, ?_⟩
      · rw [bytesOf_append, ← same]
        rfl
      · rw [← same]
        rfl
  | routine =>
    cases other with
    | distress =>
      refine ⟨?_, ?_⟩
      · rw [bytesOf_append, ← same, Nat.add_comm]
        rfl
      · rw [← same, Nat.add_comm]
        rfl
    | routine => exact absurd rfl differ

theorem sound_offer {q r : Queue} (sound : Sound q) {frame : OutgoingFrame} {priority : Priority}
    (accepted : q.offer frame priority = .ok r) : Sound r := by
  obtain ⟨fresh, room, bytes, line, other, seen, order, queued, items, most, -⟩ :=
    offer_ok accepted
  obtain ⟨-, alike, once, few⟩ := remember_spec sound fresh
  obtain ⟨p, differ, total, count⟩ := split_lines q priority
  obtain ⟨total', count'⟩ := lines_same differ (other p differ)
  have before := sound.bytes
  constructor
  · rw [queued, total', line, bytesOf_append, bytesOf_cons]
    have none : bytesOf [] = 0 := rfl
    omega
  · rw [count', line, items, List.length_append, List.length_singleton]
    omega
  · rw [queued, most]
    exact bytes
  · rw [seen, order]
    exact alike
  · rw [order]
    exact once
  · rw [order]
    exact few

theorem sound_take {q r : Queue} (sound : Sound q) {frame : OutgoingFrame} {priority : Priority}
    (took : Took q priority frame r) : Sound r := by
  obtain ⟨p, differ, total, count⟩ := split_lines q priority
  obtain ⟨total', count'⟩ := lines_same differ (took.other p differ)
  obtain ⟨seen, order, items, most⟩ := took.rest
  have before := sound.bytes
  have within := sound.items
  have full := sound.capacity
  have queued := took.bytes
  rw [took.front, bytesOf_cons] at total
  rw [took.front, List.length_cons] at count
  constructor
  · omega
  · omega
  · omega
  · rw [seen, order]
    exact sound.remembered
  · rw [order]
    exact sound.once
  · rw [order]
    exact sound.few

theorem sound_forget {q : Queue} (sound : Sound q) (id : UInt64) : Sound (q.forget id) := by
  unfold Queue.forget
  split
  · refine ⟨sound.bytes, sound.items, sound.capacity, ?_, sound.once.filter _, ?_⟩
    · intro x
      rw [Std.ExtTreeSet.mem_erase, sound.remembered, List.mem_filter, decide_eq_true_eq]
      constructor
      · rintro ⟨other, mem⟩
        refine ⟨mem, ?_⟩
        rintro rfl
        exact other Std.ReflCmp.compare_self
      · rintro ⟨mem, other⟩
        refine ⟨fun same => other ?_, mem⟩
        rw [Std.compare_eq_iff_eq] at same
        exact same.symm
    · exact Nat.le_trans (List.length_filter_le _ _) sound.few
  · exact sound

theorem line_dropExpired (q : Queue) (now : Timestamp) (priority : Priority) :
    line (q.dropExpired now) priority = (line q priority).filter fun f => !expired now f := by
  cases priority <;> rfl

theorem sound_dropExpired {q : Queue} (sound : Sound q) (now : Timestamp) :
    Sound (q.dropExpired now) := by
  have distress := List.length_filter_le (fun f => !expired now f) q.distress
  have routine := List.length_filter_le (fun f => !expired now f) q.routine
  have items := sound.items
  have capacity := sound.capacity
  constructor
  · rfl
  · change (q.distress.filter fun f => !expired now f).length +
      (q.routine.filter fun f => !expired now f).length ≤ q.maxItems
    unfold Queue.length at items
    omega
  · change bytesOf ((q.distress.filter fun f => !expired now f) ++
      q.routine.filter fun f => !expired now f) ≤ q.maxBytes
    have less := bytesOf_filter (fun f => !expired now f) (q.distress ++ q.routine)
    rw [List.filter_append] at less
    rw [sound.bytes] at capacity
    omega
  · exact sound.remembered
  · exact sound.once
  · exact sound.few

/-- What each call leaves, and what it answers. -/
inductive Did (q : Queue) : Call → Answer → Queue → Prop where
  | accepted {frame priority r} (ok : q.offer frame priority = .ok r) :
      Did q (.offer frame priority) (.offered (.ok ())) r
  | refused {frame priority e} (refused : q.offer frame priority = .error e) :
      Did q (.offer frame priority) (.offered (.error e)) q
  | took {frame priority r} (took : Took q priority frame r) :
      Did q .takeNext (.taken (some frame)) r
  | empty (bare : q.distress = [] ∧ q.routine = []) : Did q .takeNext (.taken none) q
  | forgot (id : UInt64) : Did q (.forget id) .done (q.forget id)
  | dropped (now : Timestamp) : Did q (.dropExpired now) .done (q.dropExpired now)

theorem did (q : Queue) (call : Call) : Did q call (answer q call).1 (answer q call).2 := by
  cases call with
  | offer frame priority =>
    unfold answer
    dsimp only
    rw [offerInPlace_eq]
    cases offered : q.offer frame priority with
    | error e => exact .refused offered
    | ok r => exact .accepted offered
  | takeNext =>
    unfold answer
    dsimp only
    cases taken : q.takeNext with
    | none => exact .empty (takeNext_none.mp taken)
    | some p =>
      obtain ⟨frame, r⟩ := p
      obtain ⟨priority, took⟩ := takeNext_some taken
      exact .took took
  | forget id => exact .forgot id
  | dropExpired now => exact .dropped now

/-- The caps are those the queue was made with. -/
structure Capped (maxItems maxBytes : Nat) (q : Queue) : Prop where
  sound : Sound q
  items : q.maxItems = maxItems
  bytes : q.maxBytes = maxBytes

variable {maxItems maxBytes : Nat}

theorem Capped.answer {q : Queue} (capped : Capped maxItems maxBytes q) (call : Call) :
    Capped maxItems maxBytes (answer q call).2 := by
  obtain ⟨sound, items, bytes⟩ := capped
  have done := did q call
  revert done
  generalize (QueueRuns.answer q call).1 = said
  generalize (QueueRuns.answer q call).2 = r
  intro done
  cases done with
  | accepted ok =>
    obtain ⟨-, -, -, -, -, -, -, -, items', bytes', -⟩ := offer_ok ok
    exact ⟨sound_offer sound ok, items'.trans items, bytes'.trans bytes⟩
  | refused => exact ⟨sound, items, bytes⟩
  | took took =>
    obtain ⟨-, -, items', bytes'⟩ := took.rest
    exact ⟨sound_take sound took, items'.trans items, bytes'.trans bytes⟩
  | empty => exact ⟨sound, items, bytes⟩
  | forgot id =>
    refine ⟨sound_forget sound id, ?_, ?_⟩
    · unfold Queue.forget
      split <;> exact items
    · unfold Queue.forget
      split <;> exact bytes
  | dropped now => exact ⟨sound_dropExpired sound now, items, bytes⟩

theorem capped_after (maxItems maxBytes : Nat) (calls : List Call) :
    Capped maxItems maxBytes (after (.withCapacity maxItems maxBytes) calls) := by
  induction calls using List.reverseRecOn with
  | nil => exact ⟨sound_capacity _ _, rfl, rfl⟩
  | append_singleton calls call ih =>
    rw [after_snoc]
    exact ih.answer call

/-! ## What becomes of every frame -/

/-- The frames of a class that a run has accepted, in the order they were offered. -/
def acceptedIn (priority : Priority) (calls : List Call) (said : List Answer) :
    List OutgoingFrame :=
  (calls.zip said).filterMap fun
    | (.offer frame p, .offered (.ok ())) => if p = priority then some frame else none
    | _ => none

def frameOf : Answer → List OutgoingFrame
  | .taken (some frame) => [frame]
  | _ => []

/-- What the call of a turn has returned to be sent. -/
def takenIn (turn : Nat) (said : List Answer) : List OutgoingFrame := said[turn]?.elim [] frameOf

/-- The call of a turn drops what has expired, and the frame has. -/
def ExpiredIn (calls : List Call) (turn : Nat) (frame : OutgoingFrame) : Prop :=
  ∃ now, calls[turn]? = some (.dropExpired now) ∧ expired now frame = true

/-- A book for each class in which every frame accepted stands with what became of it. -/
structure Booked (calls : List Call) (said : List Answer) (q : Queue)
    (book : Priority → List (Entry OutgoingFrame)) : Prop where
  accepted : ∀ p, items (book p) = acceptedIn p calls said
  waits : ∀ p, waiting (book p) = line q p
  returned : ∀ turn, servedIn turn (book .distress) ++ servedIn turn (book .routine) =
    takenIn turn said
  dropped : ∀ p, ∀ e ∈ book p, ∀ turn, e.fate = .dropped turn → ExpiredIn calls turn e.item
  inOrder : ∀ p, InOrder (book p)
  past : ∀ p, Until calls.length (book p)

theorem booked_none (maxItems maxBytes : Nat) :
    Booked [] [] (.withCapacity maxItems maxBytes) fun _ => [] := by
  refine ⟨fun p => rfl, ?_, ?_, ?_, fun p => List.Pairwise.nil, ?_⟩
  · intro p
    cases p <;> rfl
  · intro turn
    rfl
  · rintro p e ⟨⟩
  · rintro p e ⟨⟩

theorem ExpiredIn.snoc {calls : List Call} {turn : Nat} {frame : OutgoingFrame}
    (out : ExpiredIn calls turn frame) (call : Call) : ExpiredIn (calls ++ [call]) turn frame := by
  obtain ⟨now, made, expired⟩ := out
  refine ⟨now, ?_, expired⟩
  obtain ⟨here, -⟩ := List.getElem?_eq_some_iff.mp made
  rw [List.getElem?_append_left here, made]

theorem acceptedIn_snoc {calls : List Call} {said : List Answer}
    (size : said.length = calls.length) (priority : Priority) (call : Call) (a : Answer) :
    acceptedIn priority (calls ++ [call]) (said ++ [a]) =
      acceptedIn priority calls said ++ acceptedIn priority [call] [a] := by
  unfold acceptedIn
  rw [List.zip_append size.symm, List.filterMap_append]

theorem takenIn_snoc (turn : Nat) (said : List Answer) (a : Answer) :
    takenIn turn (said ++ [a]) =
      if turn = said.length then frameOf a else takenIn turn said := by
  unfold takenIn
  split
  · rename_i here
    rw [here, List.getElem?_concat_length]
    rfl
  · rename_i other
    by_cases before : turn < said.length
    · rw [List.getElem?_append_left before]
    · rw [List.getElem?_eq_none (by rw [List.length_append, List.length_singleton]; omega),
        List.getElem?_eq_none (by omega)]

section step

variable {calls : List Call} {said : List Answer} {q : Queue}
  {book : Priority → List (Entry OutgoingFrame)}

/-- A call that neither accepts a frame nor returns one and leaves the classes as they are. -/
theorem Booked.idle (booked : Booked calls said q book) (size : said.length = calls.length)
    {call : Call} {a : Answer} {r : Queue} (none : ∀ p, acceptedIn p [call] [a] = [])
    (silent : frameOf a = []) (same : ∀ p, line r p = line q p) :
    Booked (calls ++ [call]) (said ++ [a]) r book := by
  constructor
  · intro p
    rw [acceptedIn_snoc size, none, List.append_nil, booked.accepted]
  · intro p
    rw [same, booked.waits]
  · intro turn
    rw [takenIn_snoc, silent]
    split
    · rename_i here
      rw [here, size, servedIn_none (booked.past _), servedIn_none (booked.past _)]
      rfl
    · exact booked.returned turn
  · intro p e mem turn out
    exact (booked.dropped p e mem turn out).snoc call
  · exact booked.inOrder
  · intro p
    rw [List.length_append]
    exact (booked.past p).next

theorem Booked.accept (booked : Booked calls said q book) (size : said.length = calls.length)
    {frame : OutgoingFrame} {priority : Priority} {r : Queue}
    (ok : q.offer frame priority = .ok r) :
    Booked (calls ++ [.offer frame priority]) (said ++ [.offered (.ok ())]) r
      fun p => if p = priority then join (book p) frame else book p := by
  obtain ⟨-, -, -, joined, others, -⟩ := offer_ok ok
  have served (turn : Nat) (p : Priority) :
      servedIn turn (if p = priority then join (book p) frame else book p) =
        servedIn turn (book p) := by
    split
    · exact servedIn_join _ _ _
    · rfl
  constructor
  · intro p
    rw [acceptedIn_snoc size, ← booked.accepted]
    by_cases mine : p = priority
    · rw [if_pos mine, items_join]
      simp [acceptedIn, mine]
    · rw [if_neg mine]
      simp [acceptedIn, Ne.symm mine]
  · intro p
    split
    · rename_i mine
      rw [waiting_join, booked.waits, mine, joined]
    · rename_i other
      rw [booked.waits, others p other]
  · intro turn
    rw [served, served, takenIn_snoc]
    split
    · rename_i here
      rw [here, size, servedIn_none (booked.past _), servedIn_none (booked.past _)]
      rfl
    · exact booked.returned turn
  · intro p e mem turn out
    split at mem
    · rcases List.mem_append.mp mem with old | new
      · exact (booked.dropped p e old turn out).snoc _
      · rw [List.mem_singleton.mp new] at out
        cases out
    · exact (booked.dropped p e mem turn out).snoc _
  · intro p
    split
    · exact inOrder_join (booked.inOrder p) frame
    · exact booked.inOrder p
  · intro p
    rw [List.length_append]
    split
    · exact (until_join (booked.past p) frame).next
    · exact (booked.past p).next

theorem Booked.take (booked : Booked calls said q book) (size : said.length = calls.length)
    {frame : OutgoingFrame} {priority : Priority} {r : Queue}
    (took : Took q priority frame r) :
    Booked (calls ++ [.takeNext]) (said ++ [.taken (some frame)]) r
      fun p => if p = priority then serve calls.length (book p) else book p := by
  have none (p : Priority) : acceptedIn p [.takeNext] [.taken (some frame)] = [] := rfl
  constructor
  · intro p
    rw [acceptedIn_snoc size, none, List.append_nil, ← booked.accepted]
    split
    · exact items_serve _ _
    · rfl
  · intro p
    split
    · rename_i mine
      rw [waiting_serve, booked.waits, mine, took.front, List.tail_cons]
    · rename_i other
      rw [booked.waits, took.other p other]
  · intro turn
    rw [takenIn_snoc]
    by_cases here : turn = calls.length
    · have first : servedIn turn (serve calls.length (book priority)) = [frame] := by
        rw [here, servedIn_serve (booked.past _), booked.waits, took.front]
        rfl
      have clear (p : Priority) : servedIn turn (book p) = [] := by
        rw [here]
        exact servedIn_none (booked.past p)
      rw [if_pos (here.trans size.symm)]
      cases priority with
      | distress =>
        rw [if_pos rfl, if_neg (by decide), first, clear]
        rfl
      | routine =>
        rw [if_pos rfl, if_neg (by decide), first, clear]
        rfl
    · have served (p : Priority) :
          servedIn turn (if p = priority then serve calls.length (book p) else book p) =
            servedIn turn (book p) := by
        split
        · exact servedIn_serve_other here _
        · rfl
      rw [served, served, if_neg (by rwa [size])]
      exact booked.returned turn
  · intro p e mem turn out
    split at mem
    · rcases mem_serve mem with old | ⟨served, -⟩
      · exact (booked.dropped p e old turn out).snoc _
      · rw [served] at out
        cases out
    · exact (booked.dropped p e mem turn out).snoc _
  · intro p
    split
    · exact inOrder_serve (booked.inOrder p) (booked.past p)
    · exact booked.inOrder p
  · intro p
    rw [List.length_append]
    split
    · exact until_serve (booked.past p)
    · exact (booked.past p).next

theorem Booked.drop (booked : Booked calls said q book) (size : said.length = calls.length)
    (now : Timestamp) :
    Booked (calls ++ [.dropExpired now]) (said ++ [.done]) (q.dropExpired now)
      fun p => WaitingLines.drop calls.length (expired now) (book p) := by
  have none (p : Priority) : acceptedIn p [.dropExpired now] [.done] = [] := rfl
  constructor
  · intro p
    rw [acceptedIn_snoc size, none, List.append_nil, items_drop, booked.accepted]
  · intro p
    rw [waiting_drop, booked.waits, line_dropExpired]
  · intro turn
    rw [servedIn_drop, servedIn_drop, takenIn_snoc]
    split
    · rename_i here
      rw [here, size, servedIn_none (booked.past _), servedIn_none (booked.past _)]
      rfl
    · exact booked.returned turn
  · intro p e mem turn out
    rcases mem_drop mem with old | ⟨here, leaves, -⟩
    · exact (booked.dropped p e old turn out).snoc _
    · rw [here] at out
      cases out
      exact ⟨now, List.getElem?_concat_length, leaves⟩
  · intro p
    exact inOrder_drop (booked.inOrder p) _ _
  · intro p
    rw [List.length_append]
    exact until_drop (booked.past p) _

end step

theorem line_forget (q : Queue) (id : UInt64) (p : Priority) : line (q.forget id) p = line q p := by
  unfold Queue.forget
  split
  · cases p <;> rfl
  · rfl

theorem booked_after (maxItems maxBytes : Nat) (calls : List Call) :
    ∃ book, Booked calls (answers (.withCapacity maxItems maxBytes) calls)
      (after (.withCapacity maxItems maxBytes) calls) book := by
  induction calls using List.reverseRecOn with
  | nil => exact ⟨_, booked_none maxItems maxBytes⟩
  | append_singleton calls call ih =>
    obtain ⟨book, booked⟩ := ih
    have size := length_answers (.withCapacity maxItems maxBytes) calls
    rw [after_snoc, answers_snoc]
    have done := did (after (.withCapacity maxItems maxBytes) calls) call
    revert done
    generalize (answer (after (.withCapacity maxItems maxBytes) calls) call).1 = a
    generalize (answer (after (.withCapacity maxItems maxBytes) calls) call).2 = r
    intro done
    cases done with
    | accepted ok => exact ⟨_, booked.accept size ok⟩
    | refused => exact ⟨book, booked.idle size (fun _ => rfl) rfl fun _ => rfl⟩
    | took took => exact ⟨_, booked.take size took⟩
    | empty => exact ⟨book, booked.idle size (fun _ => rfl) rfl fun _ => rfl⟩
    | forgot id => exact ⟨book, booked.idle size (fun _ => rfl) rfl (line_forget _ id)⟩
    | dropped now => exact ⟨_, booked.drop size now⟩

theorem took_length {q r : Queue} {frame : OutgoingFrame} {priority : Priority}
    (took : Took q priority frame r) : q.length = r.length + 1 := by
  obtain ⟨p, differ, -, count⟩ := split_lines q priority
  obtain ⟨-, count'⟩ := lines_same differ (took.other p differ)
  rw [took.front, List.length_cons] at count
  omega

/-- As many takes as there are frames leave none behind. -/
theorem drained (n : Nat) (q : Queue) (size : q.length = n) :
    (after q (List.replicate n .takeNext)).length = 0 := by
  induction n generalizing q with
  | zero => exact size
  | succ n ih =>
    rw [List.replicate_succ]
    change (after (answer q .takeNext).2 (List.replicate n .takeNext)).length = 0
    apply ih
    have done := did q .takeNext
    revert done
    generalize (answer q .takeNext).1 = a
    generalize (answer q .takeNext).2 = r
    intro done
    cases done with
    | took took =>
      have one := took_length took
      omega
    | empty bare =>
      obtain ⟨distress, routine⟩ := bare
      rw [Queue.length, distress, routine] at size
      cases size

/-- What a queue keeps account of, after a run. -/
structure Accounts (maxItems maxBytes : Nat) (calls : List Call) (q : Queue) : Prop where
  bytes : q.queuedBytes = bytesOf (q.distress ++ q.routine)
  capacity : q.queuedBytes ≤ maxBytes
  items : q.length ≤ maxItems
  remembered : ∀ id, id ∈ q.seen ↔ id ∈ q.seenOrder
  once : q.seenOrder.Nodup
  few : q.seenOrder.length ≤ maxDedupEntries
  refused : ∀ frame priority e, (answer q (.offer frame priority)).1 = .offered (.error e) →
    (answer q (.offer frame priority)).2 = q
  /-- Every frame accepted is in the book of its class, with one fate. -/
  booked : ∃ book, Booked calls (answers (.withCapacity maxItems maxBytes) calls) q book
  /-- What waits leaves, if only it is asked for. -/
  leaves : (after q (List.replicate q.length .takeNext)).length = 0

/-- The accounts of a queue are right after any run, whatever its capacity. -/
theorem accounts_right (maxItems maxBytes : Nat) (calls : List Call) :
    Accounts maxItems maxBytes calls (after (.withCapacity maxItems maxBytes) calls) := by
  obtain ⟨sound, items, bytes⟩ := capped_after maxItems maxBytes calls
  constructor
  · exact sound.bytes
  · exact sound.capacity.trans_eq bytes
  · exact sound.items.trans_eq items
  · exact sound.remembered
  · exact sound.once
  · exact sound.few
  · intro frame priority e refused
    have done := did (after (.withCapacity maxItems maxBytes) calls) (.offer frame priority)
    rw [refused] at done
    revert done
    generalize (answer (after (.withCapacity maxItems maxBytes) calls)
      (.offer frame priority)).2 = r
    intro done
    cases done
    rfl
  · exact booked_after maxItems maxBytes calls
  · exact drained _ _ rfl

/-! ## Which class is served -/

/-- The states before each take that returns something. -/
def takes : Queue → List Call → List Queue
  | _, [] => []
  | q, call :: calls =>
    if frameOf (answer q call).1 = [] then takes (answer q call).2 calls
    else q :: takes (answer q call).2 calls

/-- The next take from here returns a frame of this class. -/
def Serves (priority : Priority) (q : Queue) : Prop :=
  ∃ frame r, q.takeNext = some (frame, r) ∧ line q priority = frame :: line r priority

/-- Between one take and the next the streak stays as the first has left it. -/
def Follows (q r : Queue) : Prop :=
  ∃ frame s, q.takeNext = some (frame, s) ∧ r.distressStreak = s.distressStreak

theorem streak_kept {q r : Queue} {call : Call} {a : Answer} (done : Did q call a r)
    (silent : frameOf a = []) : r.distressStreak = q.distressStreak := by
  cases done with
  | accepted ok =>
    obtain ⟨-, -, -, -, -, -, -, -, -, -, streak⟩ := offer_ok ok
    exact streak
  | refused => rfl
  | took took => cases silent
  | empty => rfl
  | forgot id =>
    unfold Queue.forget
    split <;> rfl
  | dropped now => rfl

theorem answer_takeNext {q r : Queue} {frame : OutgoingFrame}
    (returned : answer q .takeNext = (.taken (some frame), r)) :
    q.takeNext = some (frame, r) := by
  unfold answer at returned
  dsimp only at returned
  split at returned
  · cases returned
  · rename_i taken
    cases returned
    exact taken

theorem takes_cons (q : Queue) (call : Call) (calls : List Call) :
    (∃ frame r, q.takeNext = some (frame, r) ∧ takes q (call :: calls) = q :: takes r calls) ∨
      (∃ r, r.distressStreak = q.distressStreak ∧ takes q (call :: calls) = takes r calls) := by
  have done := did q call
  have returned : answer q call = ((answer q call).1, (answer q call).2) := rfl
  rw [takes]
  revert done returned
  generalize (answer q call).1 = a
  generalize (answer q call).2 = r
  intro done returned
  split
  · rename_i silent
    exact Or.inr ⟨r, streak_kept done silent, rfl⟩
  · rename_i returns
    cases done with
    | took took => exact Or.inl ⟨_, r, answer_takeNext returned, rfl⟩
    | accepted => exact absurd rfl returns
    | refused => exact absurd rfl returns
    | empty => exact absurd rfl returns
    | forgot => exact absurd rfl returns
    | dropped => exact absurd rfl returns

/-- The first take finds the streak as it is now, and each further one as the last has left it. -/
theorem takes_chain (q : Queue) (calls : List Call) :
    (∀ r, (takes q calls).head? = some r → r.distressStreak = q.distressStreak) ∧
      (takes q calls).IsChain Follows := by
  induction calls generalizing q with
  | nil =>
    refine ⟨?_, List.IsChain.nil⟩
    rintro r ⟨⟩
  | cons call calls ih =>
    rcases takes_cons q call calls with ⟨frame, r, taken, same⟩ | ⟨r, kept, same⟩
    · obtain ⟨first, chain⟩ := ih r
      rw [same]
      refine ⟨?_, ?_⟩
      · rintro r ⟨⟩
        rfl
      · cases more : takes r calls with
        | nil => exact List.IsChain.singleton q
        | cons next rest =>
          rw [more] at first chain
          exact List.IsChain.cons_cons ⟨frame, r, taken, first next rfl⟩ chain
    · obtain ⟨first, chain⟩ := ih r
      rw [same]
      exact ⟨fun s here => (first s here).trans kept, chain⟩

theorem takes_some (q : Queue) (calls : List Call) :
    ∀ r ∈ takes q calls, ∃ frame s, r.takeNext = some (frame, s) := by
  induction calls generalizing q with
  | nil => rintro r ⟨⟩
  | cons call calls ih =>
    rcases takes_cons q call calls with ⟨frame, r, taken, same⟩ | ⟨r, -, same⟩
    · rw [same]
      intro s mem
      rcases List.mem_cons.mp mem with rfl | mem
      · exact ⟨frame, r, taken⟩
      · exact ih r s mem
    · rw [same]
      exact ih r

theorem serves_took {q s : Queue} {frame : OutgoingFrame} {priority : Priority}
    (taken : q.takeNext = some (frame, s)) (serves : Serves priority q) :
    Took q priority frame s := by
  obtain ⟨_, _, again, front⟩ := serves
  rw [taken] at again
  cases again
  obtain ⟨p, took⟩ := takeNext_some taken
  by_cases same : priority = p
  · rw [same]
    exact took
  · rw [took.other priority same] at front
    exact absurd front List.ne_cons_self

theorem streakAfter_distress (streak : UInt8) :
    (streakAfter streak .distress).toNat = min 255 (streak.toNat + 1) := by
  have most := streak.toNat_lt
  unfold streakAfter
  dsimp only
  split
  · rename_i top
    rw [top]
    rfl
  · rename_i below
    rw [← UInt8.toNat_inj] at below
    have one : (1 : UInt8).toNat = 1 := rfl
    have top : (255 : UInt8).toNat = 255 := rfl
    rw [UInt8.toNat_add, one, Nat.mod_eq_of_lt (by omega)]
    omega

/-- With a streak behind it, a row of takes past the burst comes to a routine frame. -/
theorem burst_ends (row : List Queue) (streak : Nat) (chain : row.IsChain Follows)
    (some : ∀ q ∈ row, ∃ frame s, q.takeNext = some (frame, s))
    (waits : ∀ q ∈ row, q.routine ≠ [])
    (behind : ∀ q, row.head? = .some q → min 255 streak ≤ q.distressStreak.toNat)
    (long : distressBurst.toNat + 1 ≤ row.length + streak) (short : streak ≤ distressBurst.toNat) :
    ∃ q ∈ row, Serves .routine q := by
  have burst : distressBurst.toNat = 8 := rfl
  induction row generalizing streak with
  | nil =>
    rw [List.length_nil] at long
    omega
  | cons q row ih =>
    obtain ⟨frame, s, taken⟩ := some q List.mem_cons_self
    obtain ⟨priority, took⟩ := takeNext_some taken
    have level := behind q rfl
    cases priority with
    | routine => exact ⟨q, List.mem_cons_self, frame, s, taken, took.front⟩
    | distress =>
      have room : q.distressStreak < distressBurst := by
        rcases took.turn with none | room
        · exact absurd none (waits q List.mem_cons_self)
        · exact room
      rw [UInt8.lt_iff_toNat_lt, burst] at room
      have next : ∀ r, row.head? = .some r → min 255 (streak + 1) ≤ r.distressStreak.toNat := by
        intro r first
        cases row with
        | nil => cases first
        | cons r' row =>
          cases first
          obtain ⟨_, _, again, same⟩ := (List.isChain_cons_cons.mp chain).1
          rw [taken] at again
          cases again
          rw [same, took.streak, streakAfter_distress]
          omega
      rw [List.length_cons] at long
      obtain ⟨r, mem, serves⟩ := ih (streak + 1) (List.isChain_of_isChain_cons chain)
        (fun r mem => some r (List.mem_cons_of_mem _ mem))
        (fun r mem => waits r (List.mem_cons_of_mem _ mem)) next (by omega) (by omega)
      exact ⟨r, List.mem_cons_of_mem _ mem, serves⟩

/-- Neither class is starved: among nine takes in a row with a routine frame waiting one returns
a routine frame, and two in a row do so only if no distress frame waits at the second. -/
theorem neither_starves (maxItems maxBytes : Nat) (calls : List Call) :
    let taken := takes (.withCapacity maxItems maxBytes) calls
    (∀ before row rest, taken = before ++ row ++ rest →
      row.length = distressBurst.toNat + 1 → (∀ q ∈ row, q.routine ≠ []) →
        ∃ q ∈ row, Serves .routine q) ∧
    ∀ before q r rest, taken = before ++ q :: r :: rest →
      ¬ (Serves .routine q ∧ Serves .routine r ∧ r.distress ≠ []) := by
  intro taken
  have chain := (takes_chain (.withCapacity maxItems maxBytes) calls).2
  have some := takes_some (.withCapacity maxItems maxBytes) calls
  constructor
  · intro before row rest split long waits
    have split : takes (.withCapacity maxItems maxBytes) calls = before ++ row ++ rest := split
    rw [split] at chain some
    refine burst_ends row 0 chain.left_of_append.right_of_append ?_ waits ?_ (by omega)
      (Nat.zero_le _)
    · intro q mem
      exact some q (List.mem_append_left _ (List.mem_append_right _ mem))
    · intro q _
      omega
  · rintro before q r rest split ⟨serves, serves', waits⟩
    have split : takes (.withCapacity maxItems maxBytes) calls = before ++ q :: r :: rest := split
    rw [split] at chain some
    obtain ⟨frame, s, first, same⟩ := (List.isChain_cons_cons.mp chain.right_of_append).1
    obtain ⟨frame', s', second⟩ := some r (List.mem_append_right _
      (List.mem_cons_of_mem _ List.mem_cons_self))
    have reset : r.distressStreak = 0 := by
      rw [same, (serves_took first serves).streak]
      rfl
    rcases (serves_took second serves').turn with none | spent
    · exact waits none
    · rw [reset] at spent
      exact absurd spent (by decide)

end QueueRuns
