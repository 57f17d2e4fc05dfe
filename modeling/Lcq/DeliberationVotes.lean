import Lcq.DeliberationNonces

/-!
# Whose votes a deliberation counts

Nothing that is heard before the freeze counts. Behind it every admitted frame
is the vote of another member, one that speaks and signs for itself, and those
that support the claim decide whether it is endorsed.
-/

namespace DeliberationVotes

open ByteFormat Contracts DeliberationAccounts DeliberationNonces Deliberations EvaluationLaws
open Medium Quorum Scenarios SealedFrames SimAdmission Transitions UniformFleets Utterances Wire

variable {C : Primitives} {d : Deliberation} {stage : Stage} {clock : Clock} {f g : Sitting}
  {k : Nat}

/-! ## What a frame offers -/

/-- A member signs with its own key, and its index is one that a frame can claim. -/
def Genuine (d : Deliberation) (sender : Nat) : Prop :=
  Deliberations.signerOf d sender = sender ∧ sender < 65536

instance (d : Deliberation) (sender : Nat) : Decidable (Genuine d sender) :=
  inferInstanceAs (Decidable (_ ∧ _))

/-- What a member says in a stage. -/
def utterance (d : Deliberation) (stage : Stage) (sender : Nat) : Opinion :=
  ⟨memberId sender, deliberated, stage, verdictFor d sender⟩

theorem signerOf_cases (d : Deliberation) (sender : Nat) :
    Deliberations.signerOf d sender = sender ∨
      Deliberations.signerOf d sender = (sender + 1) % d.fleet := by
  unfold Deliberations.signerOf
  split
  · exact Or.inr rfl
  · exact Or.inl rfl

theorem verdict_sent (v : Verdict) : Utterances.verdictOf (verdictCode v) = some v := by
  cases v <;> rfl

theorem stage_sent (stage : Stage) : Utterances.stageOf (stageCode stage) = some stage := by
  cases stage <;> rfl

/-- A frame is what its member says, if that has signed for itself; else it is nothing. -/
theorem offered_built (keys : LabKeys C d.fleet) {sender : Nat} (inside : sender < d.fleet)
    {sequence : UInt64} {bytes : Bytes} (built : BuiltAt C d stage sender sequence bytes) :
    offered C deliberated (keysOf C d.fleet) labGroupKey bytes =
      if Genuine d sender then some (utterance d stage sender) else none := by
  obtain ⟨plaintext, opens, decodes⟩ := built
  have envelope := signed_own keys inside (signerOf_cases d sender) rfl opens decodes
  rw [offered]
  by_cases genuine : Genuine d sender
  · have claimed := ((claims_own inside (signerOf_cases d sender)).mpr genuine).trans genuine.1
    rw [if_pos genuine, envelope.trans (if_pos genuine), Option.bind_some]
    have author : (Deliberations.envelopeOf C stage (verdictFor d sender) (authorOf sender)
        sequence).authorIndex = authorOf sender := rfl
    have staged : (Deliberations.envelopeOf C stage (verdictFor d sender) (authorOf sender)
        sequence).stage = stageCode stage := rfl
    have verdict : (Deliberations.envelopeOf C stage (verdictFor d sender) (authorOf sender)
        sequence).verdict = verdictCode (verdictFor d sender) := rfl
    simp only [opinion, author, staged, verdict, stage_sent, verdict_sent, claimed, utterance]
  · rw [if_neg genuine, envelope.trans (if_neg genuine), Option.bind_none]

/-! ## Before the freeze -/

/-- A case that consults and has no votes. -/
structure Consulting (case : Case) : Prop where
  phase : case.phase = .consulting
  binding : case.binding = []
  voted : ∀ name, name ∉ case.voted

theorem Consulting.accept {case after : Case} {o : Opinion} (consulting : Consulting case)
    (ok : case.accept o clock = .ok after) : Consulting after := by
  obtain ⟨phase, binding, voted⟩ := consulting
  obtain ⟨-, -, ⟨-, -, listed, rfl⟩ | ⟨-, collecting, -⟩⟩ := Case.accept_ok ok
  · exact ⟨phase, binding, voted⟩
  · rw [phase] at collecting
    cases collecting

theorem consulting_kept : Kept C d stage clock fun f _ => Consulting f.session.observer where
  begins _ consulting := consulting
  keysUp f offsets elapsed window sender _ consulting := by
    obtain ⟨-, -, quiet | ⟨bytes, -, keyed⟩⟩ := @keyUp_spec C d stage f offsets elapsed window sender
    · rw [quiet.observer]
      exact consulting
    · rw [keyed.observer]
      exact consulting
  hears f p others rest consulting := by
    obtain ⟨-, fate⟩ := @deliverOne_spec C d clock f p.1 p.2.1 p.2.2 others
    cases fate with
    | lost _ _ observer _ => exact observer ▸ consulting
    | collided _ _ observer _ => exact observer ▸ consulting
    | admitted _ _ taken _ =>
      obtain ⟨o, -, ok⟩ := simAdmit_ok taken
      exact consulting.accept ok
    | refused error _ _ observer _ _ => exact observer ▸ consulting

theorem consulting_stage {base : Session} (consulting : Consulting base.observer) (bytes : Nat) :
    Consulting (runStage C d bytes stage clock base).2.observer := by
  obtain ⟨g, last, session, -⟩ := (@consulting_kept C d stage clock).wholeStage
    base bytes consulting
  rw [← session]
  exact last

theorem consulted_consulting (d : Deliberation) (bytes : Nat) :
    Consulting (consulted C d bytes).2.observer := by
  obtain ⟨-, phase, binding, voted⟩ := opening_case d
  exact consulting_stage (consulting_stage ⟨phase, binding, voted⟩ bytes) bytes

/-! ## Behind it -/

/-- The votes of a case are those of so many members, one each. -/
structure Votes (d : Deliberation) (case : Case) (voters : List Nat) : Prop where
  once : voters.Nodup
  theirs : ∀ i ∈ voters, Speaks d i ∧ Genuine d i
  binding : case.binding = voters.map (utterance d .bindingSupport)
  voted : ∀ name, name ∈ case.voted ↔ ∃ i ∈ voters, name = memberId i

theorem Votes.accept {case after : Case} {voters : List Nat} {sender : Nat}
    (votes : Votes d case voters) (speaks : Speaks d sender) (genuine : Genuine d sender)
    (ok : case.accept (utterance d .bindingSupport sender) clock = .ok after) :
    Votes d after (voters ++ [sender]) := by
  obtain ⟨once, theirs, binding, voted⟩ := votes
  obtain ⟨-, -, ⟨other, -⟩ | ⟨-, -, -, unvoted, rfl⟩⟩ := Case.accept_ok ok
  · exact absurd rfl other
  · have newcomer : sender ∉ voters := fun mem => unvoted ((voted _).mpr ⟨sender, mem, rfl⟩)
    refine ⟨?_, ?_, ?_, fun name => ?_⟩
    · rw [List.nodup_append]
      refine ⟨once, List.nodup_singleton _, ?_⟩
      rintro i mem _ new rfl
      exact newcomer (List.mem_singleton.mp new ▸ mem)
    · rw [List.forall_mem_append]
      exact ⟨theirs, by simpa using ⟨speaks, genuine⟩⟩
    · rw [List.map_append, ← binding]
      rfl
    · rw [OrderedMap.mem_insert_iff, voted]
      simp only [List.mem_append, List.mem_singleton]
      constructor
      · rintro (rfl | ⟨i, mem, rfl⟩)
        · exact ⟨sender, Or.inr rfl, rfl⟩
        · exact ⟨i, Or.inl mem, rfl⟩
      · rintro ⟨i, mem | rfl, rfl⟩
        · exact Or.inr ⟨i, mem, rfl⟩
        · exact Or.inl rfl

/-- The ballot under way: as many votes as have been admitted. -/
structure Balloting (C : Primitives) (d : Deliberation) (k : Nat) (f : Sitting)
    (rest : List (Nat × Transmission × Bytes)) : Prop where
  fresh : Fresh C d .bindingSupport k f rest
  votes : ∃ voters, Votes d f.session.observer voters ∧ f.report.admitted = voters.length

theorem balloting_kept (aead : Aead C) (keys : LabKeys C d.fleet) (small : k + 1 < 2 ^ 64) :
    Kept C d .bindingSupport clock (Balloting C d k) where
  begins f balloting :=
    ⟨(@fresh_kept C d .bindingSupport clock k aead small).begins f balloting.fresh, balloting.votes⟩
  keysUp f offsets elapsed window sender speaks balloting := by
    refine ⟨(@fresh_kept C d .bindingSupport clock k aead small).keysUp f offsets elapsed window sender
      speaks balloting.fresh, ?_⟩
    obtain ⟨voters, votes, count⟩ := balloting.votes
    obtain ⟨-, -, quiet | ⟨bytes, -, keyed⟩⟩ :=
      @keyUp_spec C d .bindingSupport f offsets elapsed window sender
    · rw [quiet.observer, quiet.report]
      exact ⟨voters, votes, count⟩
    · rw [keyed.observer]
      refine ⟨voters, votes, ?_⟩
      rcases keyed.fate with ⟨frame, -, -, report⟩ | ⟨-, -, report⟩ <;> rw [report] <;> exact count
  hears f p others rest balloting := by
    refine ⟨(fresh_kept aead small).hears f p others rest balloting.fresh, ?_⟩
    obtain ⟨voters, votes, count⟩ := balloting.votes
    obtain ⟨-, fate⟩ := @deliverOne_spec C d clock f p.1 p.2.1 p.2.2 others
    cases fate with
    | lost report _ observer _ =>
      rw [observer, report]
      exact ⟨voters, votes, count⟩
    | collided report _ observer _ =>
      rw [observer, report]
      exact ⟨voters, votes, count⟩
    | refused error report _ observer _ _ =>
      rw [observer, report]
      exact ⟨voters, votes, count⟩
    | admitted report _ taken _ =>
      obtain ⟨speaks, held⟩ := balloting.fresh.aloft p List.mem_cons_self
      obtain ⟨sequence, built, -⟩ := balloting.fresh.built _ _ held
      obtain ⟨o, offers, ok⟩ := simAdmit_ok taken
      rw [offered_built keys speaks.2 built] at offers
      split at offers
      · rename_i genuine
        cases offers
        refine ⟨voters ++ [p.1], votes.accept speaks genuine ok, ?_⟩
        rw [report, List.length_append, List.length_singleton, count]
      · cases offers

/-! ## The decision -/

theorem supporters_votes {case : Case} {voters : List Nat} (votes : Votes d case voters) :
    case.bindingSupporters =
      (voters.filter fun i => decide (verdictFor d i = .support)).map memberId := by
  have supports (i : Nat) : (verdictFor d i).canSupportApproval =
      decide (verdictFor d i = .support) := by
    rw [Bool.eq_iff_iff, decide_eq_true_eq]
    exact Verdict.canSupportApproval_iff _
  rw [Case.bindingSupporters, votes.binding, List.filter_map, List.map_map]
  refine congrArg₂ List.map rfl ?_
  exact congrArg (fun p => voters.filter p) (funext supports)

theorem votes_ballot (aead : Aead C) (keys : LabKeys C d.fleet) (bytes : Nat) :
    ∃ voters, Votes d (ballot C d bytes).2.observer voters ∧
      (ballot C d bytes).1.admitted = voters.length := by
  obtain ⟨history, unvoted⟩ := history_consulted aead d bytes
  obtain ⟨-, binding, voted⟩ := @consulted_consulting C d bytes
  have nobody : Votes d (freeze late (consulted C d bytes).2).observer [] := by
    rw [freeze_consulted bytes]
    refine ⟨List.nodup_nil, by rintro i ⟨⟩, binding, fun name => ?_⟩
    exact iff_of_false (voted name) (by rintro ⟨i, ⟨⟩, -⟩)
  obtain ⟨g, ⟨-, voters, votes, count⟩, session, report⟩ :=
    (@balloting_kept C d late 2 aead keys (by decide)).wholeStage _ bytes
      ⟨fresh_start history unvoted, [], nobody, rfl⟩
  rw [ballot, ← session, report]
  exact ⟨voters, votes, count⟩

theorem frameSize_total (aead : Aead C) : ∃ bytes, frameSize C = some bytes := by
  obtain ⟨plaintext, frame, encoded, made, -⟩ := frame_round_trip C aead
    ((Deliberations.envelopeOf C .bindingSupport .support 0 4294967295).sign C (seedFor 0)
      deliberated.contentHash) labGroupKey 65535 4294967295
  refine ⟨frame.length, ?_⟩
  rw [frameSize, encoded]
  dsimp only
  rw [made]

theorem run_total (aead : Aead C) (keys : LabKeys C d.fleet) :
    ∃ report, d.run C = some report := by
  obtain ⟨policy, chartered⟩ := standing_policy d.manned d.counted
  obtain ⟨bytes, sized⟩ := frameSize_total aead
  obtain ⟨voters, votes, -⟩ := votes_ballot aead keys bytes
  have known : ∀ signer ∈ (ballot C d bytes).2.observer.bindingSupporters,
      signer ∈ policy.members := by
    rw [supporters_votes votes]
    intro signer mem
    obtain ⟨i, held, rfl⟩ := List.mem_map.mp mem
    obtain ⟨⟨-, inside⟩, -⟩ := votes.theirs i (List.mem_of_mem_filter held)
    exact (mem_policy chartered _).mpr ⟨i, inside, rfl⟩
  obtain ⟨result, judged⟩ := evaluate_total known
  have judged' : Quorum.evaluate policy (stages C d bytes).2.observer.bindingSupporters =
      .ok result := judged
  unfold Deliberation.run
  rw [chartered, sized]
  simp only [Except.toOption, Option.bind_eq_bind, Option.bind_some, judged']
  exact ⟨_, rfl⟩

/-- A deliberation comes to a report. Each vote that is admitted is that of another member, one
that speaks and signs for itself; the supporters are those of them that support the claim; and they
endorse it exactly if they are enough for the count and more than two thirds of the fleet. -/
theorem votes_counted (C : Primitives) (aead : Aead C) (d : Deliberation)
    (keys : LabKeys C d.fleet) (fits : d.fleet ≤ 2 ^ 48) :
    ∃ report, d.run C = some report ∧ ∃ voters : List Nat, voters.Nodup ∧
      (∀ i ∈ voters, Speaks d i ∧ Genuine d i) ∧ report.binding.admitted = voters.length ∧
      report.bindingSupporters =
        (voters.filter fun i => decide (verdictFor d i = .support)).length ∧
      (report.endorsed = true ↔
        (d.fleet + 4000 * d.fleet / 10000) / 2 + 1 ≤ report.bindingSupporters ∧
          2 * d.fleet < 3 * report.bindingSupporters) := by
  obtain ⟨report, done⟩ := @run_total C d aead keys
  obtain ⟨policy, outcome, ran⟩ := run_ran done
  obtain ⟨voters, votes, count⟩ := @votes_ballot C d aead keys report.frameBytes
  have supporters := supporters_votes votes
  have once : (ballot C d report.frameBytes).2.observer.bindingSupporters.Nodup := by
    rw [supporters]
    refine List.Nodup.map_on (fun i mem j mem' same => ?_) (votes.once.filter _)
    obtain ⟨⟨-, first⟩, -⟩ := votes.theirs i (List.mem_of_mem_filter mem)
    obtain ⟨⟨-, second⟩, -⟩ := votes.theirs j (List.mem_of_mem_filter mem')
    exact memberId_injective (by omega) (by omega) same
  refine ⟨report, done, voters, votes.once, votes.theirs, ?_, ?_, ?_⟩
  · rw [ran.binding, count]
  · rw [ran.supporters, supporters, List.length_map]
  · rw [ran.endorsed, ran.supporters]
    exact approved_iff ran.chartered fits once ran.judged

theorem votes_counted_council : ∃ report, council.run plain = some report ∧
    report.bindingSupporters ≤ report.binding.admitted := by
  obtain ⟨report, ran, voters, -, -, admitted, supporters, -⟩ := votes_counted plain plain_aead
    council (plain_labKeys (by decide)) (by decide)
  exact ⟨report, ran, by rw [admitted, supporters]; exact List.length_filter_le _ _⟩

end DeliberationVotes
