import Lcq.ScenarioTiming
import Lcq.UniformFleets

/-!
# Who is counted in a scenario

A run always comes to its report, and what it counts as support are the members
that the observer has heard out and whose frames carry their own signatures,
each once. A forger is never one of them, nor is a member that keeps silent.
-/

namespace ScenarioQuorum

open ByteFormat Contracts EvaluationLaws Quorum ScenarioAccounts ScenarioRounds Scenarios
open ScenarioTiming SealedFrames SimAdmission UniformFleets Utterances Wire

variable {C : Primitives} {s : Scenario} {frames : Nat → Bytes}

/-! ## Frames -/

/-- A member signs with its own key, and its index is one that a frame can claim. -/
def Genuine (s : Scenario) (sender : Nat) : Prop := signerOf s sender = sender ∧ sender < 65536

instance (s : Scenario) (sender : Nat) : Decidable (Genuine s sender) :=
  inferInstanceAs (Decidable (_ ∧ _))

instance (own : Prop) [Decidable own] (timeline : List TraceEntry) (sender : Nat) :
    Decidable (HeardOut own timeline sender) := inferInstanceAs (Decidable (_ ∨ _))

instance (s : Scenario) : Decidable (answers s) := inferInstanceAs (Decidable (_ ∧ _))

theorem signerOf_cases (s : Scenario) (sender : Nat) :
    signerOf s sender = sender ∨ signerOf s sender = (sender + 1) % s.fleet := by
  unfold signerOf
  split
  · exact Or.inr rfl
  · exact Or.inl rfl

theorem frameFor_total (aead : Aead C) (s : Scenario) (sender : Nat) :
    ∃ plaintext frame, frameFor C s sender = some frame ∧
      openFrame C labGroupKey frame = .ok (authorOf sender, .ofNat sender, plaintext) ∧
      decodeCompact plaintext = .ok ((envelopeOf C sender).sign C (seedFor (signerOf s sender))
        simSubject.contentHash) := by
  obtain ⟨plaintext, frame, encoded, made, -, opens, decodes, -⟩ := frame_round_trip C aead
    ((envelopeOf C sender).sign C (seedFor (signerOf s sender)) simSubject.contentHash)
    labGroupKey (authorOf sender) (.ofNat sender)
  refine ⟨plaintext, frame, ?_, opens, decodes⟩
  rw [frameFor, encoded]
  dsimp only
  rw [made]

theorem nameOf_frame (aead : Aead C) (keys : LabKeys C s.fleet) {sender : Nat}
    (inside : sender < s.fleet) (framed : frameFor C s sender = some (frames sender)) :
    nameOf C frames (keysOf C s.fleet) simSubject sender =
      if Genuine s sender then some (memberId sender) else none := by
  obtain ⟨plaintext, frame, made, opens, decodes⟩ := frameFor_total aead s sender
  rw [made, Option.some.injEq] at framed
  have envelope := signed_own keys inside (signerOf_cases s sender) rfl opens decodes
  rw [nameOf, ← framed]
  by_cases genuine : Genuine s sender
  · have claimed := (claims_own inside (signerOf_cases s sender)).mpr genuine
    rw [if_pos genuine, envelope.trans (if_pos genuine), Option.map_some]
    exact congrArg (fun i => some (memberId i)) (claimed.trans genuine.1)
  · rw [if_neg genuine, envelope.trans (if_neg genuine), Option.map_none]

/-! ## The supporters -/

/-- Those counted, in the order of their indices. -/
def counted (s : Scenario) (timeline : List TraceEntry) : List Nat :=
  (List.range s.fleet).filter fun i => decide (Genuine s i ∧ HeardOut (answers s) timeline i)

theorem heardOut_speaks {timeline : List TraceEntry}
    (listed : ∀ e ∈ timeline, Speaks s e.sender) {sender : Nat}
    (heard : HeardOut (answers s) timeline sender) : Speaks s sender := by
  rcases heard with ⟨rfl, own⟩ | ⟨e, mem, rfl, -⟩
  · exact ⟨by rw [own.1]; exact Nat.zero_le _, s.manned⟩
  · exact listed e mem

theorem verified_counted (aead : Aead C) (keys : LabKeys C s.fleet)
    (framed : ∀ sender < s.fleet, frameFor C s sender = some (frames sender)) :
    (played C s frames).verified.Perm
      ((counted s (played C s frames).tally.timeline).map memberId) := by
  obtain ⟨-, roll⟩ := @sound_played C s frames
  obtain ⟨waits, course, -⟩ := @course_played C s frames
  have fits := s.counted
  have once : ((counted s (played C s frames).tally.timeline).map memberId).Nodup :=
    (names_nodup fits).sublist (List.filter_sublist.map memberId)
  refine (List.perm_ext_iff_of_nodup roll.once once).mpr fun id => ?_
  rw [roll.members, List.mem_map]
  simp only [counted, List.mem_filter, List.mem_range, decide_eq_true_eq]
  constructor
  · rintro ⟨sender, heard, named⟩
    have inside := (heardOut_speaks course.listed heard).2
    rw [nameOf_frame aead keys inside (framed sender inside)] at named
    split at named
    · rename_i genuine
      exact ⟨sender, ⟨inside, genuine, heard⟩, Option.some.inj named⟩
    · cases named
  · rintro ⟨sender, ⟨inside, genuine, heard⟩, rfl⟩
    refine ⟨sender, heard, ?_⟩
    rw [nameOf_frame aead keys inside (framed sender inside), if_pos genuine]

/-! ## The report -/

theorem mapM_total {α β : Type} {f : α → Option β} (l : List α) (all : ∀ a ∈ l, ∃ b, f a = some b) :
    ∃ made, l.mapM f = some made := by
  induction l with
  | nil => exact ⟨[], rfl⟩
  | cons a l ih =>
    rw [List.forall_mem_cons] at all
    obtain ⟨⟨b, here⟩, rest⟩ := all
    obtain ⟨made, there⟩ := ih rest
    refine ⟨b :: made, ?_⟩
    rw [List.mapM_cons, here, there]
    rfl

theorem run_total (aead : Aead C) (keys : LabKeys C s.fleet) : ∃ report, s.run C = some report := by
  obtain ⟨policy, chartered⟩ := standing_policy s.manned s.counted
  obtain ⟨made, framed⟩ := mapM_total (f := frameFor C s) (List.range s.fleet) fun sender _ => by
    obtain ⟨-, frame, made, -⟩ := frameFor_total aead s sender
    exact ⟨frame, made⟩
  have each (sender : Nat) (inside : sender < s.fleet) := mapM_range framed [] inside
  have known : ∀ signer ∈ (played C s fun sender => made.getD sender []).verified,
      signer ∈ policy.members := by
    intro signer mem
    obtain ⟨i, held, rfl⟩ := List.mem_map.mp
      ((verified_counted aead keys each).mem_iff.mp mem)
    exact (mem_policy chartered _).mpr
      ⟨i, List.mem_range.mp (List.mem_of_mem_filter held), rfl⟩
  obtain ⟨result, judged⟩ := evaluate_total known
  unfold Scenario.run
  rw [chartered, framed]
  simp only [Except.toOption, Option.bind_eq_bind, Option.bind_some, judged]
  exact ⟨_, rfl⟩

/-- A run comes to a report; its supporters are the members that speak, sign for themselves and
have been heard out, each counted once; and they endorse exactly if there are enough of them for
the count and they are more than two thirds of the fleet. -/
theorem endorsement_counted (C : Primitives) (aead : Aead C) (s : Scenario)
    (keys : LabKeys C s.fleet) (fits : s.fleet ≤ 2 ^ 48) :
    ∃ report, s.run C = some report ∧
      report.bindingSupporters = (counted s report.timeline).length ∧
      (∀ i ∈ counted s report.timeline, Speaks s i) ∧
      (report.endorsed = true ↔
        (s.fleet + 4000 * s.fleet / 10000) / 2 + 1 ≤ report.bindingSupporters ∧
          2 * s.fleet < 3 * report.bindingSupporters) := by
  obtain ⟨report, done⟩ := run_total aead keys
  refine ⟨report, done, ?_⟩
  obtain ⟨policy, frames, outcome, ran⟩ := run_ran done
  obtain ⟨-, roll⟩ := @sound_played C s frames
  obtain ⟨waits, course, -⟩ := @course_played C s frames
  have perm := verified_counted aead keys ran.framed
  rw [ran.timeline, ran.supporters, ran.endorsed]
  refine ⟨?_, fun i mem => ?_, approved_iff ran.chartered fits roll.once ran.judged⟩
  · rw [perm.length_eq, List.length_map]
  · have heard := (of_decide_eq_true (List.mem_filter.mp mem).2).2
    exact heardOut_speaks course.listed heard

theorem endorsement_counted_patrol : ∃ report, patrol.run plain = some report ∧
    report.bindingSupporters = (counted patrol report.timeline).length := by
  obtain ⟨report, ran, counts, -⟩ := endorsement_counted plain plain_aead patrol
    (plain_labKeys (by decide)) (by decide)
  exact ⟨report, ran, counts⟩

end ScenarioQuorum
