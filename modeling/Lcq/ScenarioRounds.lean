import Lcq.ScenarioAccounts

/-!
# The rounds of a scenario

A member is on the air at most once a round and again only in a later one, after
an outcome that makes it try again. What can be heard of one round is over
before anything of the next begins, and slots are apart within a round as well.
-/

namespace ScenarioRounds

open ByteFormat Contracts LegalAirtime Medium ScenarioAccounts Scenarios SimAdmission Wire

/-! ## Attempts -/

def Speaks (s : Scenario) (sender : Nat) : Prop := s.silent ≤ sender ∧ sender < s.fleet

/-- A later attempt of the same sender is in a later round, and there was reason to try again. -/
def Follows (s : Scenario) (e later : TraceEntry) : Prop :=
  e.sender = later.sender → e.round < later.round ∧ TriesAgain s.acknowledgement e.outcome

/-- A round under way: who tries again, and who has a frame to come to an entry in it. -/
structure Course (s : Scenario) (n : Nat) (timeline : List TraceEntry) (retry aloft : List Nat) :
    Prop where
  ordered : timeline.Pairwise (Follows s)
  sofar : ∀ e ∈ timeline, e.round ≤ n
  seats : (retry ++ aloft).Nodup
  again : ∀ e ∈ timeline, e.sender ∈ retry → TriesAgain s.acknowledgement e.outcome
  before : ∀ e ∈ timeline, e.sender ∈ aloft →
    e.round < n ∧ TriesAgain s.acknowledgement e.outcome
  listed : ∀ e ∈ timeline, Speaks s e.sender
  seated : ∀ sender ∈ retry ++ aloft, Speaks s sender

namespace Course

variable {s : Scenario} {n x : Nat} {timeline : List TraceEntry} {retry aloft : List Nat}

theorem dropped (course : Course s n timeline retry (x :: aloft)) :
    Course s n timeline retry aloft := by
  obtain ⟨ordered, sofar, seats, again, before, listed, seated⟩ := course
  have fewer : (retry ++ aloft).Sublist (retry ++ x :: aloft) :=
    (List.sublist_cons_self x aloft).append_left retry
  exact ⟨ordered, sofar, seats.sublist fewer, again,
    fun e mem flying => before e mem (List.mem_cons_of_mem _ flying), listed,
    fun sender mem => seated sender (fewer.subset mem)⟩

/-- A frame comes to its entry, after which its sender may try again or not. -/
theorem entered (course : Course s n timeline retry (x :: aloft)) {e : TraceEntry}
    (whose : e.sender = x) (now : e.round = n) {stays : List Nat}
    (which : stays = [] ∨ stays = [x] ∧ TriesAgain s.acknowledgement e.outcome) :
    Course s n (timeline ++ [e]) (retry ++ stays) aloft := by
  obtain ⟨ordered, sofar, seats, again, before, listed, seated⟩ := course
  have apart : x ∉ retry ∧ x ∉ aloft := by
    have parts := List.nodup_append.mp seats
    refine ⟨fun mem => parts.2.2 x mem x List.mem_cons_self rfl, ?_⟩
    exact (List.nodup_cons.mp parts.2.1).1
  have shuffled : (x :: (retry ++ aloft)).Perm (retry ++ x :: aloft) :=
    List.perm_middle.symm
  have speaker : Speaks s x := seated x (shuffled.subset List.mem_cons_self)
  have fewer : (retry ++ stays ++ aloft).Sublist (retry ++ x :: aloft) := by
    rcases which with rfl | ⟨rfl, -⟩
    · rw [List.append_nil]
      exact (List.sublist_cons_self x aloft).append_left retry
    · rw [List.append_assoc, List.singleton_append]
  constructor
  · rw [List.pairwise_append]
    refine ⟨ordered, List.pairwise_singleton _ _, fun d old d' new => ?_⟩
    rw [List.mem_singleton.mp new]
    intro same
    rw [now]
    exact before d old (by rw [same, whose]; exact List.mem_cons_self)
  · rw [List.forall_mem_append]
    refine ⟨sofar, fun d new => ?_⟩
    rw [List.mem_singleton.mp new, now]
  · exact seats.sublist fewer
  · rw [List.forall_mem_append]
    refine ⟨fun d old waits => ?_, fun d new waits => ?_⟩
    · rcases List.mem_append.mp waits with waits | waits
      · exact again d old waits
      · have same : d.sender = x := by
          rcases which with rfl | ⟨rfl, -⟩
          · cases waits
          · exact List.mem_singleton.mp waits
        exact (before d old (by rw [same]; exact List.mem_cons_self)).2
    · rw [List.mem_singleton.mp new] at waits ⊢
      rw [whose] at waits
      rcases which with rfl | ⟨rfl, tries⟩
      · rw [List.append_nil] at waits
        exact absurd waits apart.1
      · exact tries
  · rw [List.forall_mem_append]
    refine ⟨fun d old flying => before d old (List.mem_cons_of_mem _ flying),
      fun d new flying => ?_⟩
    rw [List.mem_singleton.mp new, whose] at flying
    exact absurd flying apart.2
  · rw [List.forall_mem_append]
    refine ⟨listed, fun d new => ?_⟩
    rw [List.mem_singleton.mp new, whose]
    exact speaker
  · exact fun sender mem => seated sender (fewer.subset mem)

theorem perm (course : Course s n timeline retry aloft) {others : List Nat}
    (same : aloft.Perm others) : Course s n timeline retry others := by
  obtain ⟨ordered, sofar, seats, again, before, listed, seated⟩ := course
  have all : (retry ++ aloft).Perm (retry ++ others) := same.append_left retry
  exact ⟨ordered, sofar, all.nodup seats, again,
    fun e mem flying => before e mem (same.symm.subset flying), listed,
    fun sender mem => seated sender (all.symm.subset mem)⟩

theorem later (course : Course s n timeline retry aloft) {m : Nat} (onward : n ≤ m) :
    Course s m timeline retry aloft := by
  obtain ⟨ordered, sofar, seats, again, before, listed, seated⟩ := course
  exact ⟨ordered, fun e mem => (sofar e mem).trans onward, seats, again,
    fun e mem flying => ⟨(before e mem flying).1.trans_le onward, (before e mem flying).2⟩, listed,
    seated⟩

theorem next (course : Course s n timeline retry []) :
    Course s (n + 1) timeline [] retry ∧ ∀ e ∈ timeline, e.round < n + 1 := by
  refine ⟨?_, fun e mem => Nat.lt_succ_of_le (course.sofar e mem)⟩
  obtain ⟨ordered, sofar, seats, again, -, listed, seated⟩ := course
  rw [List.append_nil] at seats seated
  refine ⟨ordered, fun e mem => Nat.le_succ_of_le (sofar e mem), seats, ?_,
    fun e mem waits => ⟨Nat.lt_succ_of_le (sofar e mem), again e mem waits⟩, listed, seated⟩
  rintro e mem ⟨⟩

end Course

/-! ## One round -/

variable {C : Primitives} {s : Scenario} {frames : Nat → Bytes} {manifest : List VerifyingKey}
  {subject : Subject} {r : Run} {n : Nat}

/-- The senders of what is on the air, but for the observer. -/
def sendersOf (onAir : List (Nat × Transmission)) : List Nat :=
  (onAir.filter fun p => decide (p.1 ≠ observer)).map Prod.fst

theorem charge_timeline (node : Nat) (air : UInt64) (round : Nat) :
    (r.charge node air round).2.tally.timeline = r.tally.timeline ++
      if (r.charge node air round).1 = true then []
      else [⟨round, node, 0, 0, .silence, .dutyCycleBlocked⟩] := by
  unfold Run.charge
  split
  · exact (if_neg Bool.false_ne_true).symm ▸ rfl
  · exact (List.append_nil _).symm

theorem course_keyUp {f : Flight} {sender : Nat} {rest : List Nat} (window : UInt64)
    (course : Course s n f.run.tally.timeline f.retry (sendersOf f.onAir ++ sender :: rest)) :
    let g := Run.keyUp s frames n window f sender
    Course s n g.run.tally.timeline g.retry (sendersOf g.onAir ++ rest) := by
  have timeline := charge_timeline (r := f.run) sender (Run.air frames sender) n
  have first : Course s n f.run.tally.timeline f.retry (sender :: (sendersOf f.onAir ++ rest)) :=
    course.perm List.perm_middle
  unfold Run.keyUp
  dsimp only
  generalize f.run.charge sender (Run.air frames sender) n = charged at timeline
  split
  · rename_i refused
    rw [if_neg (by rw [refused]; exact Bool.false_ne_true)] at timeline
    dsimp only
    rw [timeline, ← List.append_nil f.retry]
    exact first.entered rfl rfl (Or.inl rfl)
  · rename_i granted
    rw [Bool.not_eq_false] at granted
    rw [if_pos granted, List.append_nil] at timeline
    obtain ⟨tally, -⟩ := @startFor_beside s charged.2 sender (Run.air frames sender) window
    split
    · rename_i reaches
      have other := reaches_other reaches
      dsimp only
      rw [tally, timeline, sendersOf, List.filter_append, List.map_append,
        List.filter_cons_of_pos (by simp [other]), List.append_assoc]
      exact course
    · dsimp only [Run.record, Tally.record]
      rw [tally, timeline]
      exact first.entered rfl rfl (Or.inr ⟨rfl, trivial⟩)

theorem course_keyUps {f : Flight} {pending : List Nat} (window : UInt64)
    (course : Course s n f.run.tally.timeline f.retry (sendersOf f.onAir ++ pending)) :
    let g := pending.foldl (Run.keyUp s frames n window) f
    Course s n g.run.tally.timeline g.retry (sendersOf g.onAir) := by
  induction pending generalizing f with
  | nil => rwa [List.append_nil] at course
  | cons sender pending ih => exact ih (course_keyUp window course)

theorem course_deliverOne {state : Run × List Nat} (p : Nat × Transmission)
    (others : List Transmission) {onAir : List (Nat × Transmission)}
    (course : Course s n state.1.tally.timeline state.2 (sendersOf (p :: onAir))) :
    let out := Run.deliverOne C s frames manifest subject n state (p, others)
    Course s n out.1.tally.timeline out.2 (sendersOf onAir) := by
  obtain ⟨sender, frame⟩ := p
  unfold Run.deliverOne
  dsimp only
  split
  · rename_i mine
    rwa [sendersOf, List.filter_cons_of_neg (by simp [mine])] at course
  · rename_i other
    have hears := @heard_hear C s frames manifest subject state.1 sender frame others
    rw [sendersOf, List.filter_cons_of_pos (by simp [other]), List.map_cons] at course
    dsimp only [Run.record, Tally.record]
    rw [hears.tally, bump_timeline]
    split
    · rename_i again
      exact course.entered rfl rfl (Or.inr ⟨rfl, hears.again again⟩)
    · rw [← List.append_nil state.2]
      exact course.entered rfl rfl (Or.inl rfl)

theorem course_deliver (before onAir : List (Nat × Transmission)) {state : Run × List Nat}
    (course : Course s n state.1.tally.timeline state.2 (sendersOf onAir)) :
    let out := (eachWithOthers Prod.snd before onAir).foldl
      (Run.deliverOne C s frames manifest subject n) state
    Course s n out.1.tally.timeline out.2 [] := by
  induction onAir generalizing before state with
  | nil => exact course
  | cons p onAir ih =>
    rw [eachWithOthers, List.foldl_cons]
    exact ih _ (course_deliverOne p _ course)

/-- What the observer's answer leaves: nothing, an entry that it may not go out, or its frame on
the air with the entry of that. -/
theorem answers_cases (window : UInt64) :
    let q := r.observerAnswers C s frames manifest subject window
    let charged := (r.charge observer (Run.air frames observer) 0).2
    let start := (charged.startFor s observer (Run.air frames observer) window).1
    q.elapsedMs = r.elapsedMs ∧
      (q.tally.timeline = r.tally.timeline ∧ q.tally.onAir = r.tally.onAir ∨
        s.silent = 0 ∧ ∃ e : TraceEntry, e.sender = observer ∧ e.round = 0 ∧
          q.tally.timeline = r.tally.timeline ++ [e] ∧
          (e.outcome = .dutyCycleBlocked ∧ q.tally.onAir = r.tally.onAir ∨
            (e.outcome = .rejected ∨ e.outcome = .ownTransmission) ∧ e.startMs = start ∧
              e.airtimeMs = Run.air frames observer ∧ q.tally.onAir = r.tally.onAir ++
                [(observer, .ownTransmission start (Run.air frames observer))])) := by
  have timeline := charge_timeline (r := r) observer (Run.air frames observer) 0
  obtain ⟨-, elapsed, onAir⟩ := @charge_beside r observer (Run.air frames observer) 0
  unfold Run.observerAnswers
  by_cases quiet : s.silent = 0
  · rw [if_neg (not_not_intro quiet)]
    dsimp only
    generalize r.charge observer (Run.air frames observer) 0 = charged at timeline elapsed onAir ⊢
    split
    · rename_i refused
      have accepts := @accepted_accept C frames manifest subject charged.2 observer
      rw [if_neg (by rw [refused]; exact Bool.false_ne_true)] at timeline
      refine ⟨accepts.elapsed.trans elapsed, Or.inr ⟨quiet,
        ⟨0, observer, 0, 0, .silence, .dutyCycleBlocked⟩, rfl, rfl, ?_, Or.inl ⟨rfl, ?_⟩⟩⟩
      · rw [accepts.tally, bump_timeline, timeline]
      · rw [accepts.tally, (bump_beside _ _).2.2.2.1, onAir]
    · rename_i granted
      rw [Bool.not_eq_false] at granted
      rw [if_pos granted, List.append_nil] at timeline
      obtain ⟨tally, -, -, later⟩ :=
        @startFor_beside s charged.2 observer (Run.air frames observer) window
      generalize charged.2.startFor s observer (Run.air frames observer) window = started
        at tally later ⊢
      have lifted : ({ started.2 with tally := { started.2.tally with onAir :=
          started.2.tally.onAir ++
            [(observer, .ownTransmission started.1 (Run.air frames observer))] } } : Run).tally =
          { charged.2.tally with onAir := charged.2.tally.onAir ++
            [(observer, .ownTransmission started.1 (Run.air frames observer))] } := by
        rw [← tally]
      have still : ({ started.2 with tally := { started.2.tally with onAir :=
          started.2.tally.onAir ++
            [(observer, .ownTransmission started.1 (Run.air frames observer))] } } : Run).elapsedMs =
          started.2.elapsedMs := rfl
      generalize ({ started.2 with tally := { started.2.tally with onAir :=
        started.2.tally.onAir ++
          [(observer, .ownTransmission started.1 (Run.air frames observer))] } } : Run) = flying
        at lifted still ⊢
      have accepts := @accepted_accept C frames manifest subject flying observer
      generalize flying.accept C frames manifest subject observer = verdict at accepts ⊢
      refine ⟨((accepts.elapsed.trans still).trans later).trans elapsed, Or.inr ⟨quiet,
        ⟨0, observer, started.1, Run.air frames observer, .infinity,
          if verdict.1 = .rejected then .rejected else .ownTransmission⟩, rfl, rfl, ?_,
        Or.inr ⟨?_, rfl, rfl, ?_⟩⟩⟩
      · dsimp only [Run.record, Tally.record]
        rw [accepts.tally, bump_timeline, lifted, timeline]
      · dsimp only
        split
        · exact Or.inl rfl
        · exact Or.inr rfl
      · dsimp only [Run.record, Tally.record]
        rw [accepts.tally, (bump_beside _ _).2.2.2.1, lifted, onAir]
  · rw [if_pos quiet]
    exact ⟨rfl, Or.inl ⟨rfl, rfl⟩⟩

/-! ## All the rounds -/

theorem sendersOf_own {onAir : List (Nat × Transmission)} (own : ∀ p ∈ onAir, p.1 = observer) :
    sendersOf onAir = [] := by
  rw [sendersOf, List.map_eq_nil_iff, List.filter_eq_nil_iff]
  intro p mem
  simp [own p mem]

theorem course_round {pending : List Nat}
    (course : Course s n (beginning C s frames manifest subject r n).tally.timeline [] pending)
    (own : ∀ p ∈ (beginning C s frames manifest subject r n).tally.onAir, p.1 = observer) :
    let out := r.round C s frames manifest subject n pending
    Course s (n + 1) out.1.tally.timeline [] out.2 ∧
      ∀ e ∈ out.1.tally.timeline, e.round < n + 1 := by
  obtain ⟨run, waits⟩ := @round_eq C s frames manifest subject r n pending
  dsimp only
  rw [run, waits]
  refine (course_deliver [] _ ?_).next
  refine course_keyUps _ ?_
  dsimp only
  rwa [sendersOf_own own, List.nil_append]

theorem course_rounds {unlisted : Nat} {own : Prop} (count : Nat) {pending : List Nat}
    (later : 0 < n) (books : Books s.priorAirtimeMs unlisted r [])
    (roll : Roll C frames manifest subject own r)
    (course : Course s n r.tally.timeline [] pending)
    (sofar : ∀ e ∈ r.tally.timeline, e.round < n) :
    let out := Run.rounds C s frames manifest subject (List.range' n count) r pending
    ∃ waits, Course s (n + count) out.tally.timeline [] waits ∧
      ∀ e ∈ out.tally.timeline, e.round < n + count := by
  induction count generalizing n r pending with
  | zero => exact ⟨pending, course, sofar⟩
  | succ count ih =>
    rw [List.range'_succ, Run.rounds]
    split
    · exact ⟨pending, course.later (Nat.le_add_right n _),
        fun e mem => Nat.lt_of_lt_of_le (sofar e mem) (Nat.le_add_right n _)⟩
    · have begun : beginning C s frames manifest subject r n = r := if_neg later.ne'
      obtain ⟨further, past⟩ := course_round (n := n) (r := r) (begun.symm ▸ course) (begun.symm ▸ books.own)
      obtain ⟨books', roll'⟩ := sound_round n pending (begun.symm ▸ books) (begun.symm ▸ roll)
      have rest := ih (Nat.succ_pos n) books' roll' further past
      rwa [Nat.succ_add_eq_add_succ] at rest

theorem mem_awaited (sender : Nat) :
    sender ∈ awaited s ↔ Speaks s sender ∧ sender ≠ observer := by
  rw [awaited, List.mem_filter, List.mem_range', decide_eq_true_eq, Speaks]
  refine and_congr_left fun _ => ?_
  constructor
  · rintro ⟨i, below, rfl⟩
    omega
  · rintro ⟨least, most⟩
    exact ⟨sender - s.silent, by omega, by omega⟩

theorem course_new : Course s 0 [] [] (awaited s) := by
  refine ⟨List.Pairwise.nil, ?_, (List.nodup_range' ..).filter _, ?_, ?_, ?_, fun sender mem => ?_⟩
  · rintro e ⟨⟩
  · rintro e ⟨⟩
  · rintro e ⟨⟩
  · rintro e ⟨⟩
  · exact ((mem_awaited sender).mp mem).1

theorem course_answers (window : UInt64) : Course s 0
    ((Run.new s).observerAnswers C s frames manifest subject window).tally.timeline []
      (awaited s) := by
  rcases (@answers_cases C s frames manifest subject (.new s) window).2 with
    ⟨same, -⟩ | ⟨quiet, e, whose, now, more, -⟩
  · rw [same]
    exact course_new
  · rw [more]
    have before := @course_new s
    have seated : Course s 0 [] [] (observer :: awaited s) := by
      refine ⟨List.Pairwise.nil, ?_, ?_, ?_, ?_, ?_, ?_⟩
      · rintro e ⟨⟩
      · refine List.nodup_cons.mpr ⟨fun mem => ?_, before.seats⟩
        exact ((mem_awaited observer).mp mem).2 rfl
      · rintro e ⟨⟩
      · rintro e ⟨⟩
      · rintro e ⟨⟩
      · intro sender mem
        rcases List.mem_cons.mp mem with rfl | mem
        · exact ⟨by rw [quiet]; exact Nat.zero_le _, s.manned⟩
        · exact before.seated sender mem
    exact seated.entered whose now (Or.inl rfl)

theorem course_played (frames : Nat → Bytes) :
    ∃ waits, Course s maxRetries (played C s frames).tally.timeline [] waits ∧
      ∀ e ∈ (played C s frames).tally.timeline, e.round < maxRetries := by
  unfold played
  have numbers : List.range maxRetries = 0 :: List.range' 1 4 := rfl
  rw [numbers, Run.rounds]
  split
  · refine ⟨_, course_new.later (Nat.zero_le _), ?_⟩
    rintro e ⟨⟩
  · have begun : beginning C s frames (keysOf C s.fleet) simSubject (.new s) 0 =
        (Run.new s).observerAnswers C s frames (keysOf C s.fleet) simSubject
          (Run.windowFor s frames 0) := if_pos rfl
    obtain ⟨books, roll⟩ := @sound_answers C s frames (keysOf C s.fleet) simSubject _ books_new
      roll_new rfl (Run.windowFor s frames 0)
    have course := @course_answers C s frames (keysOf C s.fleet) simSubject
      (Run.windowFor s frames 0)
    rw [← begun] at books roll course
    obtain ⟨books', roll'⟩ := sound_round 0 (awaited s) books roll
    obtain ⟨further, past⟩ := course_round course books.own
    exact course_rounds 4 Nat.one_pos books' roll' further past

/-- Rounds that go up from one entry to the next are few. -/
theorem few_rounds {timeline : List TraceEntry} {most : Nat} (ordered : timeline.Pairwise (Follows s))
    (below : ∀ e ∈ timeline, e.round < most) (sender : Nat) :
    (timeline.filter fun e => decide (e.sender = sender)).length ≤ most := by
  have rising : ((timeline.filter fun e => decide (e.sender = sender)).map (·.round)).Pairwise
      (· < ·) := by
    rw [List.pairwise_map]
    refine (ordered.filter _).imp_of_mem fun mem mem' follows => ?_
    have whose := of_decide_eq_true (List.mem_filter.mp mem).2
    have whose' := of_decide_eq_true (List.mem_filter.mp mem').2
    exact (follows (whose.trans whose'.symm)).1
  have inside : (timeline.filter fun e => decide (e.sender = sender)).map (·.round) ⊆
      List.range most := by
    intro round mem
    obtain ⟨e, held, rfl⟩ := List.mem_map.mp mem
    exact List.mem_range.mpr (below e (List.mem_filter.mp held).1)
  have distinct : ((timeline.filter fun e => decide (e.sender = sender)).map (·.round)).Nodup :=
    rising.imp fun less => ne_of_lt less
  have short := (distinct.subperm inside).length_le
  rwa [List.length_map, List.length_range] at short

/-- Only those that speak are on the timeline, five times at most, each time in a later round and
after a frame that did not get through or was not acknowledged. -/
theorem attempts_bounded (C : Primitives) (s : Scenario) (report : Report)
    (ran : s.run C = some report) :
    report.timeline.Pairwise (Follows s) ∧
      (∀ e ∈ report.timeline, e.round < maxRetries ∧ Speaks s e.sender) ∧
      ∀ sender, (report.timeline.filter fun e => decide (e.sender = sender)).length ≤
        maxRetries := by
  obtain ⟨policy, frames, outcome, ran⟩ := run_ran ran
  obtain ⟨waits, course, below⟩ := @course_played C s frames
  rw [ran.timeline]
  exact ⟨course.ordered, fun e mem => ⟨below e mem, course.listed e mem⟩,
    few_rounds course.ordered below⟩

theorem attempts_bounded_patrol : patrolled.timeline.Pairwise (Follows patrol) ∧
    ∀ sender, (patrolled.timeline.filter fun e => decide (e.sender = sender)).length ≤ 5 := by
  have bounded := attempts_bounded plain patrol patrolled patrol_ran
  exact ⟨bounded.1, bounded.2.2⟩

end ScenarioRounds
