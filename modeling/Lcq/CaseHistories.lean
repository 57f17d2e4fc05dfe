import Lcq.Transitions

/-!
# Histories of a case

Calls of `accept` and `close_consultation` in any order, on any opinions and
under any clocks: what every state reached has in common, what never changes
again, and when a binding vote is taken at a time that is not certainly valid.
-/

namespace CaseHistories

open Contracts OrderedMap Transitions

/-! ## The calls, in place -/

/-- A call either returns and leaves a case, or is refused and leaves the case it was made on. -/
def settled (case : Case) : Except TransitionError Case → Except TransitionError Unit × Case
  | .ok after => (.ok (), after)
  | .error e => (.error e, case)

/-- What `accept` does to the case it borrows, write by write. -/
def acceptInPlace (case : Case) (opinion : Opinion) (clock : Clock) :
    Except TransitionError Unit × Case :=
  if opinion.subject.sameLogicalCaseAndRevision case.subject = false then
    (.error .differentSubject, case)
  else if certainlyAfter (clock 0) case.expiresAt = true then (.error .expired, case)
  else
    match case.phase, opinion.stage with
    | .consulting, .independent | .consulting, .consultation =>
      let already := case.independent.any fun o =>
        decide (o.author = opinion.author) && decide (o.stage = opinion.stage)
      if already then (.ok (), case)
      else (.ok (), { case with independent := case.independent ++ [opinion] })
    | .consulting, .bindingSupport => (.error .wrongStageForPhase, case)
    | .collectingVotes, .independent | .collectingVotes, .consultation =>
      (.error .consultationClosed, case)
    | .collectingVotes, .bindingSupport =>
      if case.doubtful (clock 1) (clock 2) = true then (.error .timeUncertain, case)
      else
        -- the author is put down before it is known whether it was there already
        let inserted := { case with voted := case.voted.insert opinion.author }
        if opinion.author ∈ case.voted then (.error .alreadyVoted, inserted)
        else (.ok (), { inserted with binding := inserted.binding ++ [opinion] })

theorem insert_present {s : Keys String} {author : String} (present : author ∈ s) :
    s.insert author = s := by
  apply Std.ExtTreeSet.ext_mem
  intro a
  rw [mem_insert_iff]
  constructor
  · rintro (rfl | mem)
    · exact present
    · exact mem
  · exact Or.inr

/-- In place or not, the same comes of it. -/
theorem acceptInPlace_eq (case : Case) (opinion : Opinion) (clock : Clock) :
    acceptInPlace case opinion clock = settled case (case.accept opinion clock) := by
  unfold acceptInPlace Case.accept
  split
  · rfl
  · split
    · rfl
    · cases phase : case.phase with
      | consulting =>
        cases stage : opinion.stage with
        | bindingSupport => rfl
        | _ =>
          dsimp only
          split <;> rfl
      | collectingVotes =>
        cases stage : opinion.stage with
        | bindingSupport =>
          dsimp only
          split
          · rfl
          · split
            · rename_i present
              rw [insert_present present, ← phase]
              rfl
            · rfl
        | _ => rfl

inductive Call where
  | accept (opinion : Opinion) (clock : Clock)
  | close (clock : Clock)

/-- What a call returns and leaves. -/
def answer (case : Case) : Call → Except TransitionError Unit × Case
  | .accept opinion clock => acceptInPlace case opinion clock
  | .close clock => settled case (case.closeConsultation clock)

theorem answer_error {case : Case} {call : Call} {e : TransitionError}
    (refused : (answer case call).1 = .error e) : (answer case call).2 = case := by
  have kept (r : Except TransitionError Case) (refused : (settled case r).1 = .error e) :
      (settled case r).2 = case := by
    cases r with
    | ok after => cases refused
    | error => rfl
  cases call with
  | accept opinion clock =>
    rw [answer, acceptInPlace_eq] at refused ⊢
    exact kept _ refused
  | close clock => exact kept _ refused

/-! ## Histories -/

/-- A case, and a ghost: the binding votes it has accepted, each with the clock it was offered
under. -/
structure History where
  case : Case
  taken : List (Opinion × Clock)

namespace History

def opened (subject : Subject) (expiresAt : Timestamp) : History :=
  ⟨.openUntil subject expiresAt, []⟩

variable (h : History)

def noted (call : Call) : List (Opinion × Clock) :=
  match call, (answer h.case call).1 with
  | .accept opinion clock, .ok () =>
    if opinion.stage = .bindingSupport then h.taken ++ [(opinion, clock)] else h.taken
  | _, _ => h.taken

def next (call : Call) : History := ⟨(answer h.case call).2, h.noted call⟩

def after (calls : List Call) : History := calls.foldl next h

end History

/-- What an accepted offer comes to: an opinion heard before, a new one listed while
consultation is open, or a first binding vote behind its close. -/
theorem accept_cases {case after : Case} {opinion : Opinion} {clock : Clock}
    (ok : case.accept opinion clock = .ok after) :
    (opinion.stage ≠ .bindingSupport ∧ after = case) ∨
    (opinion.stage ≠ .bindingSupport ∧ case.phase = .consulting ∧
      (∀ o ∈ case.independent, ¬ (o.author = opinion.author ∧ o.stage = opinion.stage)) ∧
      after = { case with independent := case.independent ++ [opinion] }) ∨
    (opinion.stage = .bindingSupport ∧ case.phase = .collectingVotes ∧
      opinion.author ∉ case.voted ∧ case.doubtful (clock 1) (clock 2) = false ∧
      after = { case with
        voted := case.voted.insert opinion.author
        binding := case.binding ++ [opinion] }) := by
  have listing (other : opinion.stage ≠ .bindingSupport) (phase : case.phase = .consulting)
      (ok : (if (case.independent.any fun o =>
          decide (o.author = opinion.author) && decide (o.stage = opinion.stage)) = true
        then .ok case
        else .ok { case with independent := case.independent ++ [opinion] } :
          Except TransitionError Case) = .ok after) :
      after = case ∨
        (∀ o ∈ case.independent, ¬ (o.author = opinion.author ∧ o.stage = opinion.stage)) ∧
          after = { case with independent := case.independent ++ [opinion] } := by
    split at ok
    · cases ok
      exact Or.inl rfl
    · rename_i fresh
      cases ok
      refine Or.inr ⟨fun o mem same => fresh ?_, rfl⟩
      rw [List.any_eq_true]
      exact ⟨o, mem, by simp [same.1, same.2]⟩
  obtain ⟨-, -, ⟨other, phase, -⟩ | ⟨stage, phase, sure, fresh, same⟩⟩ := Case.accept_ok ok
  · unfold Case.accept at ok
    split at ok
    · cases ok
    · split at ok
      · cases ok
      · rw [phase] at ok
        cases stage : opinion.stage with
        | bindingSupport => exact absurd stage other
        | _ =>
          rw [stage] at ok
          dsimp only at ok
          rw [← stage, ← phase] at ok
          rw [← stage]
          rcases listing other phase ok with same | ⟨fresh, same⟩
          · exact Or.inl ⟨other, same⟩
          · exact Or.inr (Or.inl ⟨other, phase, fresh, same⟩)
  · exact Or.inr (Or.inr ⟨stage, phase, fresh, sure, same⟩)

/-- What a call can do: nothing to the case, list an opinion, close, or take a first vote. -/
inductive Moved (h : History) (call : Call) : History → Prop where
  | still : Moved h call h
  | listed (opinion : Opinion) (phase : h.case.phase = .consulting)
      (fresh : ∀ o ∈ h.case.independent,
        ¬ (o.author = opinion.author ∧ o.stage = opinion.stage)) :
      Moved h call
        ⟨{ h.case with independent := h.case.independent ++ [opinion] }, h.taken⟩
  | closed (phase : h.case.phase = .consulting) :
      Moved h call ⟨{ h.case with phase := .collectingVotes }, h.taken⟩
  | voted (opinion : Opinion) (clock : Clock) (offered : call = .accept opinion clock)
      (phase : h.case.phase = .collectingVotes)
      (accepted : h.case.accept opinion clock = .ok { h.case with
        voted := h.case.voted.insert opinion.author
        binding := h.case.binding ++ [opinion] })
      (stage : opinion.stage = .bindingSupport) (fresh : opinion.author ∉ h.case.voted)
      (sure : h.case.doubtful (clock 1) (clock 2) = false) :
      Moved h call
        ⟨{ h.case with
            voted := h.case.voted.insert opinion.author
            binding := h.case.binding ++ [opinion] }, h.taken ++ [(opinion, clock)]⟩

theorem moved_next (h : History) (call : Call) : Moved h call (h.next call) := by
  have same {case : Case} {taken : List (Opinion × Clock)} (c : case = h.case)
      (t : taken = h.taken) : Moved h call ⟨case, taken⟩ := by
    rw [c, t]
    exact .still
  cases call with
  | close clock =>
    simp only [History.next, History.noted, answer]
    cases closed : h.case.closeConsultation clock with
    | error => exact .still
    | ok after =>
      obtain ⟨phase, -, rfl⟩ := Case.closeConsultation_ok closed
      exact .closed phase
  | accept opinion clock =>
    simp only [History.next, History.noted, answer, acceptInPlace_eq]
    cases offered : h.case.accept opinion clock with
    | error => exact .still
    | ok after =>
      simp only [settled]
      rcases accept_cases offered with
        ⟨other, rfl⟩ | ⟨other, phase, fresh, rfl⟩ | ⟨stage, phase, fresh, sure, rfl⟩
      · rw [if_neg other]
        exact .still
      · rw [if_neg other]
        exact .listed opinion phase fresh
      · rw [if_pos stage]
        exact .voted opinion clock rfl phase offered stage fresh sure

/-! ## What every state has in common -/

/-- Under whom and as what an opinion is listed. -/
def listing (o : Opinion) : String × Stage := (o.author, o.stage)

structure Standing (h : History) : Prop where
  orderly : h.case.Orderly
  taken : h.taken.map Prod.fst = h.case.binding
  single : (h.case.independent.map listing).Nodup

theorem standing_opened (subject : Subject) (expiresAt : Timestamp) :
    Standing (.opened subject expiresAt) :=
  ⟨Case.orderly_open subject expiresAt, rfl, List.nodup_nil⟩

theorem standing_next {h : History} (standing : Standing h) (call : Call) :
    Standing (h.next call) := by
  obtain ⟨orderly, taken, single⟩ := standing
  generalize moved : h.next call = after
  have moves := moved_next h call
  rw [moved] at moves
  cases moves with
  | still => exact ⟨orderly, taken, single⟩
  | listed opinion phase fresh =>
    refine ⟨⟨orderly.early, orderly.once, orderly.voted, orderly.staged⟩, taken, ?_⟩
    rw [List.map_append, List.nodup_append]
    refine ⟨single, List.nodup_singleton _, ?_⟩
    rintro key mem other here rfl
    obtain ⟨o, listed, same⟩ := List.mem_map.mp mem
    have named := same.trans (List.mem_singleton.mp here)
    exact fresh o listed ⟨congrArg Prod.fst named, congrArg Prod.snd named⟩
  | closed phase =>
    exact ⟨⟨nofun, orderly.once, orderly.voted, orderly.staged⟩, taken, single⟩
  | voted opinion clock offered phase accepted stage fresh sure =>
    refine ⟨Case.orderly_accept orderly accepted, ?_, single⟩
    rw [List.map_append, taken]
    rfl

/-- A call's history one call longer. -/
theorem after_succ (h : History) (calls : List Call) (n : Nat) :
    h.after (calls.take (n + 1)) =
      match calls[n]? with
      | some call => (h.after (calls.take n)).next call
      | none => h.after (calls.take n) := by
  rw [List.take_add_one, History.after, List.foldl_append]
  cases calls[n]? <;> rfl

theorem standing_after {h : History} (standing : Standing h) (calls : List Call) :
    Standing (h.after calls) := by
  induction calls generalizing h with
  | nil => exact standing
  | cons call calls ih => exact ih (standing_next standing call)

/-- Supporters are the authors of the first votes accepted of them, where those are support. -/
theorem supporters_first {h : History} (standing : Standing h) (author : String) :
    author ∈ h.case.bindingSupporters ↔
      ∃ first, h.taken.find? (fun t => decide (t.1.author = author)) = some first ∧
        first.1.verdict = .support := by
  obtain ⟨orderly, taken, -⟩ := standing
  have once := orderly.once
  rw [← taken, List.map_map] at once
  have unique {t u : Opinion × Clock} (tIn : t ∈ h.taken) (uIn : u ∈ h.taken)
      (same : t.1.author = u.1.author) : t = u :=
    List.inj_on_of_nodup_map once tIn uIn same
  simp only [Case.bindingSupporters, ← taken, List.mem_map, List.mem_filter,
    Verdict.canSupportApproval_iff]
  constructor
  · rintro ⟨o, ⟨⟨t, mem, rfl⟩, support⟩, rfl⟩
    cases found : h.taken.find? fun u => decide (u.1.author = t.1.author) with
    | none =>
      rw [List.find?_eq_none] at found
      exact absurd (decide_eq_true rfl) (found t mem)
    | some first =>
      have here := List.mem_of_find?_eq_some found
      have same : first.1.author = t.1.author := by simpa using List.find?_some found
      rw [unique here mem same]
      exact ⟨t, rfl, support⟩
  · rintro ⟨first, found, support⟩
    have here := List.mem_of_find?_eq_some found
    have same : first.1.author = author := by simpa using List.find?_some found
    exact ⟨first.1, ⟨⟨first, here, rfl⟩, support⟩, same⟩

/-! ## What never changes again -/

theorem fixed_next (h : History) (call : Call) :
    (h.next call).case.expiresAt = h.case.expiresAt ∧
      (h.case.phase = .collectingVotes → (h.next call).case.phase = .collectingVotes ∧
        (h.next call).case.independent = h.case.independent) := by
  generalize moved : h.next call = after
  have moves := moved_next h call
  rw [moved] at moves
  cases moves with
  | still => exact ⟨rfl, fun closed => ⟨closed, rfl⟩⟩
  | listed opinion phase => exact ⟨rfl, fun closed => absurd (phase.symm.trans closed) nofun⟩
  | closed => exact ⟨rfl, fun _ => ⟨rfl, rfl⟩⟩
  | voted => exact ⟨rfl, fun closed => ⟨closed, rfl⟩⟩

theorem expiresAt_after (h : History) (calls : List Call) :
    (h.after calls).case.expiresAt = h.case.expiresAt := by
  induction calls generalizing h with
  | nil => rfl
  | cons call calls ih => exact (ih (h.next call)).trans (fixed_next h call).1

theorem frozen_after {h : History} (closed : h.case.phase = .collectingVotes)
    (calls : List Call) : (h.after calls).case.phase = .collectingVotes ∧
      (h.after calls).case.independent = h.case.independent := by
  induction calls generalizing h with
  | nil => exact ⟨closed, rfl⟩
  | cons call calls ih =>
    obtain ⟨still, same⟩ := (fixed_next h call).2 closed
    obtain ⟨last, kept⟩ := ih still
    exact ⟨last, kept.trans same⟩

/-! ## When a vote is taken -/

/-- The last reading made before a binding vote is taken. -/
def lastReading (expiresAt : Timestamp) (clock : Clock) : Timestamp :=
  if certainlyAfter (clock 1) expiresAt = true then clock 1 else clock 2

/-- A binding vote that would be the author's first is offered behind the close, and the clock
comes to be certainly past the expiry between the first look at it and the next. -/
structure Crossed (case : Case) (opinion : Opinion) (clock : Clock) : Prop where
  subject : opinion.subject = case.subject
  stage : opinion.stage = .bindingSupport
  phase : case.phase = .collectingVotes
  fresh : opinion.author ∉ case.voted
  valid : certainlyAfter (clock 0) case.expiresAt = false
  past : certainlyAfter (clock 1) case.expiresAt = true

theorem not_before_after {now deadline : Timestamp}
    (past : certainlyAfter now deadline = true) : certainlyBefore now deadline = false := by
  simp only [certainlyAfter, certainlyBefore, decide_eq_true_eq, decide_eq_false_iff_not,
    UInt64.lt_iff_toNat_lt, saturatingAdd_toNat] at past ⊢
  have := deadline.secs.toNat_lt
  omega

/-- A vote taken without crossing the expiry is taken certainly before it. -/
theorem sure_taken {case : Case} {clock : Clock}
    (sure : case.doubtful (clock 1) (clock 2) = false) :
    certainlyBefore (lastReading case.expiresAt clock) case.expiresAt = true ↔
      certainlyAfter (clock 1) case.expiresAt = false := by
  rw [lastReading]
  split
  · rename_i past
    simp [not_before_after past, past]
  · rename_i running
    have valid : certainlyAfter (clock 1) case.expiresAt = false := by simpa using running
    have before : certainlyBefore (clock 2) case.expiresAt = true := by
      simpa [Case.doubtful, valid] using sure
    simp [before, valid]

/-- A first binding vote of its author, offered behind the close and accepted. -/
structure Taking (case : Case) (opinion : Opinion) (clock : Clock) : Prop where
  stage : opinion.stage = .bindingSupport
  phase : case.phase = .collectingVotes
  fresh : opinion.author ∉ case.voted
  accepted : ∃ after, case.accept opinion clock = .ok after

theorem Crossed.taking {case : Case} {opinion : Opinion} {clock : Clock}
    (crossed : Crossed case opinion clock) : Taking case opinion clock := by
  refine ⟨crossed.stage, crossed.phase, crossed.fresh, ?_⟩
  rw [Case.accept_binding crossed.subject crossed.stage crossed.valid crossed.phase,
    if_neg (by simp [Case.doubtful, crossed.past]), if_neg crossed.fresh]
  exact ⟨_, rfl⟩

/-- A vote is taken certainly before the expiry unless it crosses it. -/
theorem Taking.sure_iff {case : Case} {opinion : Opinion} {clock : Clock}
    (taking : Taking case opinion clock) :
    certainlyBefore (lastReading case.expiresAt clock) case.expiresAt = true ↔
      ¬ Crossed case opinion clock := by
  obtain ⟨after, accepted⟩ := taking.accepted
  obtain ⟨subject, valid, ⟨other, -⟩ | ⟨-, -, sure, -⟩⟩ := Case.accept_ok accepted
  · exact absurd taking.stage other
  · rw [sure_taken sure]
    constructor
    · intro running crossed
      exact absurd (running.symm.trans crossed.past) nofun
    · intro uncrossed
      rw [← Bool.not_eq_true]
      intro past
      exact uncrossed ⟨subject, taking.stage, taking.phase, taking.fresh, valid, past⟩

theorem Taking.noted {h : History} {opinion : Opinion} {clock : Clock}
    (taking : Taking h.case opinion clock) :
    (opinion, clock) ∈ (h.next (.accept opinion clock)).taken := by
  obtain ⟨after, accepted⟩ := taking.accepted
  have noted : (h.next (.accept opinion clock)).taken = h.taken ++ [(opinion, clock)] := by
    simp [History.next, History.noted, answer, acceptInPlace_eq, accepted, settled, taking.stage]
  rw [noted]
  exact List.mem_append_right _ (List.mem_singleton_self _)

/-- What has been taken after some calls was there before, or was taken at one of them. -/
theorem taken_after (h : History) (calls : List Call) (n : Nat) {vote : Opinion × Clock}
    (mem : vote ∈ (h.after (calls.take n)).taken) :
    vote ∈ h.taken ∨ ∃ k, calls[k]? = some (.accept vote.1 vote.2) ∧
      Taking (h.after (calls.take k)).case vote.1 vote.2 := by
  induction n with
  | zero => exact Or.inl mem
  | succ n ih =>
    rw [after_succ] at mem
    cases called : calls[n]? with
    | none =>
      rw [called] at mem
      exact ih mem
    | some call =>
      rw [called] at mem
      dsimp only at mem
      generalize moved : (h.after (calls.take n)).next call = after at mem
      have moves := moved_next (h.after (calls.take n)) call
      rw [moved] at moves
      cases moves with
      | still | listed | closed => exact ih mem
      | voted opinion clock offered phase accepted stage fresh sure =>
        rcases List.mem_append.mp mem with before | last
        · exact ih before
        · cases List.mem_singleton.mp last
          exact Or.inr ⟨n, called.trans (congrArg some offered), stage, phase, fresh, _, accepted⟩

/-! ## The law -/

/-- The case opened on a subject, after the first `n` of the calls. -/
def reached (subject : Subject) (expiresAt : Timestamp) (calls : List Call) (n : Nat) : History :=
  (History.opened subject expiresAt).after (calls.take n)

section

variable (subject : Subject) (expiresAt : Timestamp) (calls : List Call)

theorem standing_reached (n : Nat) : Standing (reached subject expiresAt calls n) :=
  standing_after (standing_opened subject expiresAt) _

theorem expiresAt_reached (n : Nat) :
    (reached subject expiresAt calls n).case.expiresAt = expiresAt :=
  expiresAt_after _ _

theorem frozen_reached {n m : Nat} (later : n ≤ m)
    (closed : (reached subject expiresAt calls n).case.phase = .collectingVotes) :
    (reached subject expiresAt calls m).case.phase = .collectingVotes ∧
      (reached subject expiresAt calls m).case.independent =
        (reached subject expiresAt calls n).case.independent := by
  have split : calls.take m = calls.take n ++ (calls.take m).drop n := by
    conv_lhs => rw [← List.take_append_drop n (calls.take m), List.take_take, Nat.min_eq_left later]
  have onward : reached subject expiresAt calls m =
      (reached subject expiresAt calls n).after ((calls.take m).drop n) := by
    rw [reached, History.after, split, List.foldl_append, ← split]
    rfl
  rw [onward]
  exact frozen_after closed _

theorem refused_reached {n : Nat} {call : Call} (called : calls[n]? = some call)
    {e : TransitionError}
    (refused : (answer (reached subject expiresAt calls n).case call).1 = .error e) :
    (reached subject expiresAt calls (n + 1)).case = (reached subject expiresAt calls n).case := by
  have step := after_succ (.opened subject expiresAt) calls n
  rw [called] at step
  exact (congrArg History.case step).trans (answer_error refused)

/-- What is to hold of every history of a case. -/
structure Law : Prop where
  voters (n : Nat) : ((reached subject expiresAt calls n).case.binding.map Opinion.author).Nodup ∧
    ∀ author, author ∈ (reached subject expiresAt calls n).case.voted ↔
      author ∈ (reached subject expiresAt calls n).case.binding.map Opinion.author
  supporters (n : Nat) (author : String) :
    author ∈ (reached subject expiresAt calls n).case.bindingSupporters ↔
      ∃ first, (reached subject expiresAt calls n).taken.find?
          (fun t => decide (t.1.author = author)) = some first ∧ first.1.verdict = .support
  early (n : Nat) : (reached subject expiresAt calls n).case.phase = .consulting →
    (reached subject expiresAt calls n).case.binding = []
  single (n : Nat) : ((reached subject expiresAt calls n).case.independent.map listing).Nodup
  frozen (n m : Nat) : n ≤ m →
    (reached subject expiresAt calls n).case.phase = .collectingVotes →
      (reached subject expiresAt calls m).case.phase = .collectingVotes ∧
        (reached subject expiresAt calls m).case.independent =
          (reached subject expiresAt calls n).case.independent
  sure (n : Nat) : ∀ vote ∈ (reached subject expiresAt calls n).taken,
    certainlyBefore (lastReading expiresAt vote.2) expiresAt = true
  refused (n : Nat) (call : Call) (e : TransitionError) : calls[n]? = some call →
    (answer (reached subject expiresAt calls n).case call).1 = .error e →
      (reached subject expiresAt calls (n + 1)).case = (reached subject expiresAt calls n).case

/-- The law holds of a history exactly if no vote in it crosses the expiry. -/
theorem law_iff : Law subject expiresAt calls ↔
    ∀ (n : Nat) (opinion : Opinion) (clock : Clock),
      calls[n]? = some (.accept opinion clock) →
        ¬ Crossed (reached subject expiresAt calls n).case opinion clock := by
  constructor
  · intro law n opinion clock called crossed
    have sure : certainlyBefore (lastReading expiresAt clock) expiresAt = true := by
      refine law.sure (n + 1) (opinion, clock) ?_
      rw [reached, after_succ, called]
      exact crossed.taking.noted
    rw [← expiresAt_reached subject expiresAt calls n] at sure
    exact crossed.taking.sure_iff.mp sure crossed
  · intro uncrossed
    have standing := standing_reached subject expiresAt calls
    refine ⟨fun n => ⟨(standing n).orderly.once, (standing n).orderly.voted⟩,
      fun n author => supporters_first (standing n) author, fun n => (standing n).orderly.early,
      fun n => (standing n).single, fun n m => frozen_reached subject expiresAt calls, ?_,
      fun n call e called => refused_reached subject expiresAt calls called⟩
    intro n vote mem
    obtain ⟨⟨⟩⟩ | ⟨k, called, taking⟩ := taken_after _ calls n mem
    rw [← expiresAt_reached subject expiresAt calls k]
    exact taking.sure_iff.mpr (uncrossed k vote.1 vote.2 called)

end

/-! ## A vote across the expiry -/

def alarm : Subject := ⟨"mission", "event", 0, ⟨List.replicate 32 0, rfl⟩, ⟨0⟩, by decide⟩

def lateVote : Opinion := ⟨"member", alarm, .bindingSupport, .support⟩

/-- A clock one second on at each look, not certainly past the expiry at the first and certainly
past it at the second. -/
def ticking : Clock := fun n => ⟨1830 + UInt64.ofNat n⟩

def lateHistory : List Call := [.close fun _ => ⟨400⟩, .accept lateVote ticking]

theorem lateVote_crosses :
    Crossed (reached alarm alarm.defaultExpiry lateHistory 1).case lateVote ticking where
  subject := rfl
  stage := rfl
  phase := by decide
  fresh := by decide
  valid := by decide
  past := by decide

theorem law_crossed : ¬ Law alarm alarm.defaultExpiry lateHistory := by
  intro law
  have noted : (lateVote, ticking) ∈ (reached alarm alarm.defaultExpiry lateHistory 2).taken :=
    lateVote_crosses.taking.noted
  have before := law.sure 2 (lateVote, ticking) noted
  exact absurd before (by decide)

end CaseHistories
