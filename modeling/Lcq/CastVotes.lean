import Lcq.Acknowledgements

/-!
# Votes that were cast

A frame casts a binding vote of its author or none, whenever it is offered.
What an offer makes of a tally, and what it makes of one such frame.
-/

namespace CastVotes

open Admission ByteFormat Contracts FileSystem JournalRecords JournalState LogJournal NodeLoop
  NodeSteps OrderedMap Program Supporters Transitions Utterances Wire

variable {C : Primitives} {station : Station C} {frame : Bytes} {member : Nat}

/-- The member whose binding vote a frame casts. -/
def castBy (station : Station C) (frame : Bytes) : Option Nat :=
  (verified station frame).bind fun envelope =>
    if envelope.stage = stageCode .bindingSupport ∧ (verdictOf envelope.verdict).isSome = true then
      some envelope.authorIndex.toNat
    else none

theorem castBy_eq_some : castBy station frame = some member ↔
    ∃ envelope verdict, Genuine station frame envelope ∧ envelope.authorIndex.toNat = member ∧
      envelope.stage = stageCode .bindingSupport ∧ verdictOf envelope.verdict = some verdict := by
  rw [castBy, Option.bind_eq_some_iff]
  constructor
  · rintro ⟨envelope, found, votes⟩
    split at votes
    · rename_i vote
      obtain ⟨verdict, known⟩ := Option.isSome_iff_exists.mp vote.2
      exact ⟨envelope, verdict, verified_eq_some.mp found, Option.some.inj votes, vote.1, known⟩
    · cases votes
  · rintro ⟨envelope, verdict, genuine, rfl, stage, known⟩
    refine ⟨envelope, verified_eq_some.mpr genuine, if_pos ⟨stage, ?_⟩⟩
    rw [known]
    rfl

theorem castBy_casts {o : Opinion} (casts : Casts station member frame o) :
    castBy station frame = some member := by
  obtain ⟨envelope, genuine, author, stage, verdict⟩ := casts.genuine
  exact castBy_eq_some.mpr ⟨envelope, o.verdict, genuine, author, stage, verdict⟩

theorem castBy_lt (cast : castBy station frame = some member) : member < station.fleet.size := by
  obtain ⟨envelope, -, genuine, rfl, -⟩ := castBy_eq_some.mp cast
  exact genuine.author_lt

/-! ## What an offer comes to -/

/-- The tally with one more vote counted. -/
def counting (y : Tally) (case : Case) (member : Nat) (frame : Bytes) : Tally :=
  { y.hasTaken member frame with
    case
    trace := { (y.hasTaken member frame).trace with
      counted := y.trace.counted ++ [(member, frame)] } }

/-- No vote more, at most an opinion listed. -/
def Listed (y z : Tally) : Prop :=
  ∃ listed, z = { y with case := { y.case with independent := listed } }

theorem Listed.refl (y : Tally) : Listed y y := ⟨y.case.independent, rfl⟩

variable (station) in
/-- An offer counts no vote, or one its frame casts. -/
theorem offered_cases (y : Tally) (frame : Bytes) (clock : Clock) :
    ((y.offered station frame clock).1.bindingFrom = none ∧
        Listed y (y.offered station frame clock).2) ∨
      ∃ member o case, (y.offered station frame clock).1.bindingFrom = some member ∧
        Casts station member frame o ∧ y.case.accept o clock = .ok case ∧
        case.binding = y.case.binding ++ [o] ∧
        (y.offered station frame clock).2 = counting y case member frame := by
  by_cases known : ∃ envelope, Genuine station frame envelope
  · obtain ⟨envelope, genuine⟩ := known
    unfold Tally.offered
    rw [admit_genuine genuine]
    rcases offer_casts genuine y.case clock with ⟨none, left⟩ | ⟨o, some, casts, ok, grown⟩
    · left
      dsimp only
      rw [none]
      refine ⟨none, ?_⟩
      rcases left with same | ⟨listed, other⟩
      · rw [same]
        exact Listed.refl y
      · rw [other]
        exact ⟨listed, rfl⟩
    · right
      dsimp only
      rw [some]
      exact ⟨_, o, _, some, casts, ok, grown, rfl⟩
  · have other : ∀ envelope, ¬ Genuine station frame envelope := by simpa using known
    left
    unfold Tally.offered
    rw [admit_other other]
    exact ⟨rfl, Listed.refl y⟩

/-- A vote is taken behind the close, at a time at which votes are, from who has not voted. -/
theorem accept_timely {case after : Case} {o : Opinion} {clock : Clock}
    (ok : case.accept o clock = .ok after) (grown : after.binding = case.binding ++ [o]) :
    case.phase = .collectingVotes ∧ case.untimely clock = false ∧ o.author ∉ case.voted ∧
      after = { case with
        voted := case.voted.insert o.author
        binding := case.binding ++ [o] } := by
  obtain ⟨-, valid, ⟨-, -, listed, rfl⟩ | ⟨-, phase, sure, fresh, after⟩⟩ := Case.accept_ok ok
  · have length := congrArg List.length grown
    rw [List.length_append, List.length_singleton] at length
    exact absurd length (Nat.succ_ne_self _).symm
  · exact ⟨phase, by simp [Case.untimely, valid, sure], fresh, after⟩

theorem stageOf_binding_code : stageOf (stageCode .bindingSupport) = some .bindingSupport := rfl

/-- A vote that is offered behind the close and not counted came at a time at which none is
taken, or from who had voted. -/
theorem offered_uncounted {y : Tally} {clock : Clock} (cast : castBy station frame = some member)
    (subject : y.case.subject = station.subject) (phase : y.case.phase = .collectingVotes)
    (none : (y.offered station frame clock).1.bindingFrom = none) :
    y.case.untimely clock = true ∨ station.memberId member ∈ y.case.voted := by
  obtain ⟨envelope, verdict, genuine, rfl, stage, known⟩ := castBy_eq_some.mp cast
  rw [Tally.offered, admit_genuine genuine] at none
  by_contra refused
  rw [not_or, Bool.not_eq_true, Case.untimely, Bool.or_eq_false_iff] at refused
  obtain ⟨⟨valid, sure⟩, fresh⟩ := refused
  have subject : Opinion.subject ⟨station.memberId envelope.authorIndex.toNat, station.subject,
    .bindingSupport, verdict⟩ = y.case.subject := subject.symm
  have accepted := Case.accept_binding subject rfl valid phase
  rw [sure, if_neg Bool.false_ne_true, if_neg fresh] at accepted
  unfold offer at none
  rw [stage, stageOf_binding_code, known] at none
  dsimp only at none
  rw [accepted] at none
  cases none

/-- A refusal counts nothing, and is the state machine's of the opinion in the envelope. -/
theorem offer_refused {envelope : CompactEnvelope} {case : Case} {clock : Clock}
    {error : TransitionError}
    (refused : (offer station envelope case clock).1.refused = some error) :
    (offer station envelope case clock).2 = case ∧
      (offer station envelope case clock).1.bindingFrom = none ∧
      ∃ stage verdict, stageOf envelope.stage = some stage ∧
        verdictOf envelope.verdict = some verdict ∧
        case.accept ⟨station.memberId envelope.authorIndex.toNat, station.subject, stage, verdict⟩
          clock = .error error := by
  revert refused
  unfold offer
  dsimp only
  split
  · rename_i stage verdict stageKnown verdictKnown
    split
    · split <;> rintro ⟨⟩
    · rename_i outcome
      rintro ⟨⟩
      exact ⟨rfl, rfl, stage, verdict, stageKnown, verdictKnown, outcome⟩
  · rintro ⟨⟩

theorem accept_valid {case : Case} {o : Opinion} {clock : Clock}
    (refused : case.accept o clock = .error .wrongStageForPhase) :
    certainlyAfter (clock 0) case.expiresAt = false := by
  by_contra late
  rw [Bool.not_eq_false] at late
  unfold Case.accept at refused
  rw [late] at refused
  split at refused <;> cases refused

/-- A vote that is refused for coming too early casts one, while consultation is open. -/
theorem offered_early {y : Tally} {clock : Clock}
    (refused : (y.offered station frame clock).1.refused = some .wrongStageForPhase) :
    (y.offered station frame clock).2 = y ∧ y.case.phase = .consulting ∧
      certainlyAfter (clock 0) y.case.expiresAt = false ∧
      ∀ member sequence, (y.offered station frame clock).1.verified = some (member, sequence) →
        castBy station frame = some member := by
  by_cases known : ∃ envelope, Genuine station frame envelope
  · obtain ⟨envelope, genuine⟩ := known
    unfold Tally.offered at refused ⊢
    rw [admit_genuine genuine] at refused ⊢
    have left : (offer station envelope y.case clock).1.refused = some .wrongStageForPhase := by
      dsimp only at refused
      split at refused <;> exact refused
    obtain ⟨same, none, stage, verdict, stageKnown, verdictKnown, outcome⟩ := offer_refused left
    obtain ⟨binding, phase⟩ := Case.accept_wrongStage outcome
    dsimp only
    rw [none, same]
    refine ⟨rfl, phase, accept_valid outcome, fun member sequence found => ?_⟩
    dsimp only at found
    rw [(offer_learned station envelope y.case clock).1] at found
    cases found
    refine castBy_eq_some.mpr ⟨envelope, verdict, genuine, rfl, stageOf_binding ?_, verdictKnown⟩
    rw [stageKnown]
    exact congrArg some binding
  · have other : ∀ envelope, ¬ Genuine station frame envelope := by simpa using known
    unfold Tally.offered at refused
    rw [admit_other other] at refused
    cases refused

/-- A vote that is offered while consultation is open is refused for coming too early. -/
theorem offered_consulting {y : Tally} {clock : Clock} (cast : castBy station frame = some member)
    (subject : y.case.subject = station.subject) (phase : y.case.phase = .consulting)
    (valid : certainlyAfter (clock 0) y.case.expiresAt = false) :
    (y.offered station frame clock).2 = y ∧
      (y.offered station frame clock).1.refused = some .wrongStageForPhase ∧
      (y.offered station frame clock).1.stageIndex = some 2 ∧
      ∃ sequence, (y.offered station frame clock).1.verified = some (member, sequence) := by
  obtain ⟨envelope, verdict, genuine, rfl, stage, known⟩ := castBy_eq_some.mp cast
  have subject : Opinion.subject ⟨station.memberId envelope.authorIndex.toNat, station.subject,
    .bindingSupport, verdict⟩ = y.case.subject := subject.symm
  have early := Case.accept_early subject rfl valid phase
  have outcome : offer station envelope y.case clock =
      ({ verified := some (envelope.authorIndex.toNat, envelope.sequence)
         round := envelope.round
         stageIndex := some 2
         bindingFrom := none
         acknowledgesUs := envelope.heard.contains station.options.index
         refused := some .wrongStageForPhase
         nack := decide (envelope.stage = nackStage)
         heard := envelope.heard }, y.case) := by
    unfold offer
    rw [stage, stageOf_binding_code, known]
    dsimp only
    rw [early]
    rfl
  rw [Tally.offered, admit_genuine genuine, outcome]
  exact ⟨rfl, rfl, rfl, envelope.sequence, rfl⟩

/-- The opening of a round casts no vote. -/
theorem trigger_uncast {round : RoundId} {opener : Nat} {sequence : UInt64}
    (trigger : triggerRound station frame = some (round, opener, sequence)) :
    castBy station frame = none := by
  obtain ⟨envelope, genuine, stage, -⟩ := triggerRound_some trigger
  cases cast : castBy station frame with
  | none => rfl
  | some member =>
    obtain ⟨other, -, here, -, binding, -⟩ := castBy_eq_some.mp cast
    rw [here.unique genuine, stage] at binding
    exact absurd binding (by decide)

end CastVotes
