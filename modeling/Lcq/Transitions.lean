import Lcq.Contracts
import Lcq.OrderedMap

/-!
# Stage transitions for one subject

A case remembers which opinions arrived before the cutoff, whether consultation
is frozen, and who has cast a binding vote. Signatures and membership are not
its business. A clock may read differently each time it is asked.
-/

namespace Transitions

open Contracts OrderedMap

/-- What the clock reads, the first time it is asked, the second time and so on. -/
abbrev Clock : Type := Nat → Timestamp

inductive TransitionError where
  | differentSubject
  | wrongStageForPhase
  | consultationClosed
  | cutoffNotReached
  | expired
  | timeUncertain
  | alreadyVoted
  deriving DecidableEq

def TransitionError.message : TransitionError → String
  | differentSubject => "utterance refers to a different subject"
  | wrongStageForPhase => "stage does not belong to the current phase"
  | consultationClosed => "consultation is closed"
  | cutoffNotReached => "consultation cutoff has not certainly passed"
  | expired => "subject has expired"
  | timeUncertain => "clock uncertainty prevents establishing validity"
  | alreadyVoted => "author already cast a binding vote"

inductive Phase where
  | consulting
  | collectingVotes
  deriving DecidableEq

structure Case where
  subject : Subject
  expiresAt : Timestamp
  phase : Phase
  independent : List Opinion
  binding : List Opinion
  voted : Keys String

namespace Case

def openUntil (subject : Subject) (expiresAt : Timestamp) : Case where
  subject
  expiresAt
  phase := .consulting
  independent := []
  binding := []
  voted := ∅

def «open» (subject : Subject) : Case := openUntil subject subject.defaultExpiry

/-- Authors whose binding vote supports the claim, in the order of their votes. -/
def bindingSupporters (case : Case) : List String :=
  (case.binding.filter fun o => o.verdict.canSupportApproval).map Opinion.author

def closeConsultation (case : Case) (clock : Clock) : Except TransitionError Case :=
  if case.phase = .collectingVotes then .error .consultationClosed
  else if certainlyAfter (clock 0) case.subject.consultationCutoff = false then
    .error .cutoffNotReached
  else .ok { case with phase := .collectingVotes }

/-- Whether validity is in doubt: the clock is asked a second time only if the deadline is
not certainly past. -/
def doubtful (case : Case) (first second : Timestamp) : Bool :=
  !certainlyAfter first case.expiresAt && !certainlyBefore second case.expiresAt

/-- No binding vote is taken at these readings. -/
def untimely (case : Case) (clock : Clock) : Bool :=
  certainlyAfter (clock 0) case.expiresAt || case.doubtful (clock 1) (clock 2)

def accept (case : Case) (opinion : Opinion) (clock : Clock) : Except TransitionError Case :=
  if opinion.subject.sameLogicalCaseAndRevision case.subject = false then
    .error .differentSubject
  -- a case past its validity is not a case, whatever its phase
  else if certainlyAfter (clock 0) case.expiresAt = true then .error .expired
  else
    match case.phase, opinion.stage with
    | .consulting, .independent | .consulting, .consultation =>
      let already := case.independent.any fun o =>
        decide (o.author = opinion.author) && decide (o.stage = opinion.stage)
      if already then .ok case
      else .ok { case with independent := case.independent ++ [opinion] }
    | .consulting, .bindingSupport => .error .wrongStageForPhase
    | .collectingVotes, .independent | .collectingVotes, .consultation =>
      .error .consultationClosed
    | .collectingVotes, .bindingSupport =>
      if case.doubtful (clock 1) (clock 2) = true then .error .timeUncertain
      else if opinion.author ∈ case.voted then .error .alreadyVoted
      else
        .ok { case with
          voted := case.voted.insert opinion.author
          -- a vote of either kind is recorded; only support counts
          binding := case.binding ++ [opinion] }

/-! ## What a transition can do -/

/-- How an offer ends when it is accepted: an opinion listed, if it is new, or a first
binding vote. -/
theorem accept_ok {case after : Case} {opinion : Opinion} {clock : Clock}
    (ok : case.accept opinion clock = .ok after) :
    opinion.subject = case.subject ∧ certainlyAfter (clock 0) case.expiresAt = false ∧
      ((opinion.stage ≠ .bindingSupport ∧ case.phase = .consulting ∧
          ∃ listed, after = { case with independent := listed }) ∨
        (opinion.stage = .bindingSupport ∧ case.phase = .collectingVotes ∧
          case.doubtful (clock 1) (clock 2) = false ∧ opinion.author ∉ case.voted ∧
          after = { case with
            voted := case.voted.insert opinion.author
            binding := case.binding ++ [opinion] })) := by
  unfold accept at ok
  split at ok
  · cases ok
  · rename_i same
    split at ok
    · cases ok
    · rename_i valid
      refine ⟨by simpa [Subject.sameLogicalCaseAndRevision] using same, by simpa using valid, ?_⟩
      split at ok
      · rename_i phase stage
        refine Or.inl ⟨by rw [stage]; nofun, phase, ?_⟩
        dsimp only at ok
        split at ok
        · cases ok
          exact ⟨case.independent, rfl⟩
        · cases ok
          exact ⟨_, rfl⟩
      · rename_i phase stage
        refine Or.inl ⟨by rw [stage]; nofun, phase, ?_⟩
        dsimp only at ok
        split at ok
        · cases ok
          exact ⟨case.independent, rfl⟩
        · cases ok
          exact ⟨_, rfl⟩
      · cases ok
      · cases ok
      · cases ok
      · rename_i phase stage
        split at ok
        · cases ok
        · rename_i sure
          split at ok
          · cases ok
          · rename_i fresh
            cases ok
            exact Or.inr ⟨stage, phase, by simpa using sure, fresh, rfl⟩

/-- A binding vote on this subject, offered within its validity, is refused for coming too
early and for nothing else while consultation is open. -/
theorem accept_early {case : Case} {opinion : Opinion} {clock : Clock}
    (same : opinion.subject = case.subject) (stage : opinion.stage = .bindingSupport)
    (valid : certainlyAfter (clock 0) case.expiresAt = false)
    (phase : case.phase = .consulting) :
    case.accept opinion clock = .error .wrongStageForPhase := by
  simp [accept, same, Subject.sameLogicalCaseAndRevision, stage, valid, phase]

/-- Behind the close it is counted, unless its author has voted or validity is in doubt. -/
theorem accept_binding {case : Case} {opinion : Opinion} {clock : Clock}
    (same : opinion.subject = case.subject) (stage : opinion.stage = .bindingSupport)
    (valid : certainlyAfter (clock 0) case.expiresAt = false)
    (phase : case.phase = .collectingVotes) :
    case.accept opinion clock =
      if case.doubtful (clock 1) (clock 2) = true then .error .timeUncertain
      else if opinion.author ∈ case.voted then .error .alreadyVoted
      else .ok { case with
        voted := case.voted.insert opinion.author
        binding := case.binding ++ [opinion] } := by
  simp [accept, same, Subject.sameLogicalCaseAndRevision, stage, valid, phase]

/-- A refusal for coming too early is of a binding vote in an open consultation. -/
theorem accept_wrongStage {case : Case} {opinion : Opinion} {clock : Clock}
    (refused : case.accept opinion clock = .error .wrongStageForPhase) :
    opinion.stage = .bindingSupport ∧ case.phase = .consulting := by
  unfold accept at refused
  split at refused
  · cases refused
  · split at refused
    · cases refused
    · split at refused
      · dsimp only at refused
        split at refused <;> cases refused
      · dsimp only at refused
        split at refused <;> cases refused
      · rename_i phase stage
        exact ⟨stage, phase⟩
      · cases refused
      · cases refused
      · split at refused
        · cases refused
        · split at refused <;> cases refused

theorem closeConsultation_ok {case after : Case} {clock : Clock}
    (ok : case.closeConsultation clock = .ok after) :
    case.phase = .consulting ∧ certainlyAfter (clock 0) case.subject.consultationCutoff = true ∧
      after = { case with phase := .collectingVotes } := by
  unfold closeConsultation at ok
  split at ok
  · cases ok
  · rename_i consulting
    split at ok
    · cases ok
    · rename_i past
      cases ok
      refine ⟨?_, by simpa using past, rfl⟩
      cases phase : case.phase with
      | consulting => rfl
      | collectingVotes => exact absurd phase consulting

/-! ## Which cases there are -/

/-- No binding vote before the close, one of each voter after it, and on this subject. -/
structure Orderly (case : Case) : Prop where
  early : case.phase = .consulting → case.binding = []
  once : (case.binding.map Opinion.author).Nodup
  voted : ∀ author, author ∈ case.voted ↔ author ∈ case.binding.map Opinion.author
  staged : ∀ o ∈ case.binding, o.stage = .bindingSupport ∧ o.subject = case.subject

theorem orderly_open (subject : Subject) (expiresAt : Timestamp) :
    (openUntil subject expiresAt).Orderly :=
  ⟨fun _ => rfl, List.nodup_nil, by simp [openUntil], nofun⟩

theorem orderly_accept {case after : Case} (orderly : case.Orderly) {opinion : Opinion}
    {clock : Clock} (ok : case.accept opinion clock = .ok after) : after.Orderly := by
  obtain ⟨early, once, voted, staged⟩ := orderly
  obtain ⟨same, -, ⟨-, -, listed, rfl⟩ | ⟨stage, phase, -, fresh, rfl⟩⟩ := accept_ok ok
  · exact ⟨early, once, voted, staged⟩
  · constructor
    · intro consulting
      dsimp only at consulting
      rw [phase] at consulting
      cases consulting
    · rw [List.map_append, List.nodup_append]
      refine ⟨once, by simp, ?_⟩
      rintro a listed b here rfl
      rw [List.map_singleton, List.mem_singleton] at here
      rw [here] at listed
      exact fresh ((voted _).mpr listed)
    · intro author
      rw [mem_insert_iff, voted, List.map_append, List.mem_append, List.map_singleton,
        List.mem_singleton, or_comm, eq_comm]
    · intro o mem
      rcases List.mem_append.mp mem with mem | mem
      · exact staged o mem
      · rw [List.mem_singleton.mp mem]
        exact ⟨stage, same⟩

theorem orderly_close {case after : Case} (orderly : case.Orderly) {clock : Clock}
    (ok : case.closeConsultation clock = .ok after) : after.Orderly := by
  obtain ⟨-, -, rfl⟩ := closeConsultation_ok ok
  exact ⟨nofun, orderly.once, orderly.voted, orderly.staged⟩

end Case
end Transitions
