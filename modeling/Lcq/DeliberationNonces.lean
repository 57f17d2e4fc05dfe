import Lcq.DeliberationAccounts
import Lcq.SealedFrames

/-!
# No nonce is used twice in a deliberation

A member builds one frame in a stage, under a number that its journal has just
given out, and every attempt sends the same bytes. Over the whole deliberation
two frames on the air with the same header are one frame.
-/

namespace DeliberationNonces

open ByteFormat Contracts DeliberationAccounts Deliberations InMemory JournalRecords Medium Scenarios
open SealedFrames SimAdmission Transitions UniformFleets Utterances Wire

variable {C : Primitives} {d : Deliberation} {stage : Stage} {clock : Clock} {f g : Sitting}
  {k : Nat}

/-! ## One frame -/

/-- A frame that a member has built for a stage under a number. -/
def BuiltAt (C : Primitives) (d : Deliberation) (stage : Stage) (sender : Nat) (sequence : UInt64)
    (bytes : Bytes) : Prop :=
  ∃ plaintext, openFrame C labGroupKey bytes = .ok (authorOf sender, sequence, plaintext) ∧
    decodeCompact plaintext = .ok ((Deliberations.envelopeOf C stage (verdictFor d sender)
      (authorOf sender) sequence).sign C (seedFor (Deliberations.signerOf d sender))
        deliberated.contentHash)

theorem BuiltAt.header {sender : Nat} {sequence : UInt64} {bytes : Bytes}
    (built : BuiltAt C d stage sender sequence bytes) :
    peekFrameHeader bytes = .ok (authorOf sender, sequence) := by
  obtain ⟨plaintext, opens, -⟩ := built
  exact peek_openFrame C opens

def lockOf (sender : Nat) : String := lockKey deliberated (memberId sender)

/-- Where a member's vote is not locked its frame is built, under the next number. -/
theorem frameFor_built (aead : Aead C) (sender : Nat) (journal : MemoryJournal)
    (free : stage = .bindingSupport → lockOf sender ∉ journal.locks)
    (room : journal.nextSequence.toNat + 1 < 2 ^ 64) :
    ∃ bytes, (Deliberations.frameFor C d sender stage journal).1 = some bytes ∧
      BuiltAt C d stage sender journal.nextSequence bytes ∧
      (Deliberations.frameFor C d sender stage journal).2.nextSequence.toNat =
        journal.nextSequence.toNat + 1 ∧
      (stage ≠ .bindingSupport →
        (Deliberations.frameFor C d sender stage journal).2.locks = journal.locks) := by
  obtain ⟨plaintext, bytes, encoded, made, -, opens, decodes, -⟩ := frame_round_trip C aead
    ((Deliberations.envelopeOf C stage (verdictFor d sender) (authorOf sender)
      journal.nextSequence).sign C (seedFor (Deliberations.signerOf d sender))
        deliberated.contentHash) labGroupKey (authorOf sender) journal.nextSequence
  have next : (saturatingAdd journal.nextSequence 1).toNat = journal.nextSequence.toNat + 1 := by
    have one : (1 : UInt64).toNat = 1 := rfl
    rw [saturatingAdd_toNat, one]
    omega
  refine ⟨bytes, ?_⟩
  unfold Deliberations.frameFor
  simp only [MemoryJournal.reserveSequence, encoded, made]
  by_cases binding : stage = .bindingSupport
  · have unlocked := free binding
    rw [if_pos binding]
    simp only [MemoryJournal.commitVote, JournalState.OutgoingFrame.new]
    rw [lockOf] at unlocked
    rw [if_neg unlocked]
    have most : (max (saturatingAdd journal.nextSequence 1)
        (saturatingAdd journal.nextSequence 1)).toNat = journal.nextSequence.toNat + 1 := by
      change (ite (_ ≤ _) (saturatingAdd journal.nextSequence 1) _).toNat = _
      rw [ite_self, next]
    exact ⟨rfl, ⟨plaintext, opens, decodes⟩, most, fun other => absurd binding other⟩
  · rw [if_neg binding]
    exact ⟨rfl, ⟨plaintext, opens, decodes⟩, next, fun _ => rfl⟩

/-! ## A stage -/

/-- What the journals and the outbox say of the frames there are; so many stages are over. -/
structure Fresh (C : Primitives) (d : Deliberation) (stage : Stage) (k : Nat) (f : Sitting)
    (rest : List (Nat × Transmission × Bytes)) : Prop where
  numbered : ∀ i, (f.session.journals i).nextSequence.toNat ≤ k + 1
  unbuilt : ∀ i, f.outbox i = none → (f.session.journals i).nextSequence.toNat ≤ k ∧
    lockOf i ∉ (f.session.journals i).locks
  unlocked : stage ≠ .bindingSupport → ∀ i, lockOf i ∉ (f.session.journals i).locks
  built : ∀ i bytes, f.outbox i = some bytes → ∃ sequence, BuiltAt C d stage i sequence bytes ∧
    sequence < (f.session.journals i).nextSequence
  aloft : ∀ p ∈ rest, Speaks d p.1 ∧ f.outbox p.1 = some p.2.2
  sent : ∀ p ∈ f.session.sent, Speaks d p.1 ∧ ∃ earlier sequence,
    BuiltAt C d earlier p.1 sequence p.2 ∧ sequence < (f.session.journals p.1).nextSequence
  once : ∀ p ∈ f.session.sent, ∀ q ∈ f.session.sent, p.1 = q.1 →
    peekFrameHeader p.2 = peekFrameHeader q.2 → p.2 = q.2
  again : ∀ p ∈ f.session.sent, ∀ bytes, f.outbox p.1 = some bytes →
    peekFrameHeader p.2 = peekFrameHeader bytes → p.2 = bytes

namespace Fresh

variable {rest : List (Nat × Transmission × Bytes)}

/-- The same journals, outbox and history, and no more on the air. -/
theorem alike (fresh : Fresh C d stage k f rest) {others : List (Nat × Transmission × Bytes)}
    (journals : g.session.journals = f.session.journals) (outbox : g.outbox = f.outbox)
    (sent : g.session.sent = f.session.sent) (fewer : others ⊆ rest) :
    Fresh C d stage k g others := by
  obtain ⟨h1, h2, h3, h4, h5, h6, h7, h8⟩ := fresh
  refine ⟨?_, ?_, ?_, ?_, fun p mem => ?_, ?_, ?_, ?_⟩
  · rwa [journals]
  · rwa [journals, outbox]
  · rwa [journals]
  · rwa [journals, outbox]
  · rw [outbox]
    exact h5 p (fewer mem)
  · rwa [journals, sent]
  · rwa [sent]
  · rwa [outbox, sent]

/-- A member that is readied has a frame, and one that it had already is the same. -/
theorem outgoing (aead : Aead C) (small : k + 1 < 2 ^ 64) (sender : Nat)
    (fresh : Fresh C d stage k f rest) :
    ∃ bytes, (f.outgoing C d stage sender).1 = some bytes ∧
      (f.outgoing C d stage sender).2.outbox sender = some bytes ∧
      Fresh C d stage k (f.outgoing C d stage sender).2 rest := by
  unfold Sitting.outgoing
  cases held : f.outbox sender with
  | some bytes => exact ⟨bytes, rfl, held, fresh⟩
  | none =>
    obtain ⟨low, free⟩ := fresh.unbuilt sender held
    obtain ⟨bytes, made, built, next, locks⟩ := @frameFor_built C d stage aead sender
      (f.session.journals sender) (fun _ => free) (by omega)
    have below : (f.session.journals sender).nextSequence <
        (Deliberations.frameFor C d sender stage (f.session.journals sender)).2.nextSequence := by
      rw [UInt64.lt_iff_toNat_lt, next]
      exact Nat.lt_succ_self _
    dsimp only
    rw [made]
    generalize (Deliberations.frameFor C d sender stage (f.session.journals sender)).2 = journal
      at next locks below
    refine ⟨bytes, rfl, Function.update_self .., ?_⟩
    obtain ⟨h1, h2, h3, h4, h5, h6, h7, h8⟩ := fresh
    refine ⟨fun i => ?_, fun i none => ?_, fun other i => ?_, fun i bytes' some => ?_,
      fun p mem => ?_, fun p mem => ?_, h7, fun p mem bytes' some same => ?_⟩
    · by_cases mine : i = sender
      · subst mine
        dsimp only
        rw [Function.update_self, next]
        omega
      · dsimp only
        rw [Function.update_of_ne mine]
        exact h1 i
    · by_cases mine : i = sender
      · subst mine
        dsimp only at none
        rw [Function.update_self] at none
        cases none
      · dsimp only at none ⊢
        rw [Function.update_of_ne mine] at none ⊢
        exact h2 i none
    · by_cases mine : i = sender
      · subst mine
        dsimp only
        rw [Function.update_self, locks other]
        exact h3 other i
      · dsimp only
        rw [Function.update_of_ne mine]
        exact h3 other i
    · by_cases mine : i = sender
      · subst mine
        dsimp only at some ⊢
        rw [Function.update_self] at some ⊢
        cases some
        exact ⟨_, built, below⟩
      · dsimp only at some ⊢
        rw [Function.update_of_ne mine] at some ⊢
        exact h4 i bytes' some
    · obtain ⟨speaks, some⟩ := h5 p mem
      refine ⟨speaks, ?_⟩
      have other : p.1 ≠ sender := by
        intro mine
        rw [mine, held] at some
        cases some
      dsimp only
      rwa [Function.update_of_ne other]
    · obtain ⟨speaks, earlier, sequence, made, under⟩ := h6 p mem
      refine ⟨speaks, earlier, sequence, made, ?_⟩
      by_cases mine : p.1 = sender
      · rw [mine] at under
        dsimp only
        rw [mine, Function.update_self]
        exact UInt64.lt_trans under below
      · dsimp only
        rwa [Function.update_of_ne mine]
    · by_cases mine : p.1 = sender
      · -- the number is above all that the member has used
        obtain ⟨-, earlier, sequence, made, under⟩ := h6 p mem
        dsimp only at some
        rw [mine, Function.update_self] at some
        cases some
        rw [made.header, built.header, Except.ok.injEq, Prod.mk.injEq] at same
        rw [same.2, mine] at under
        exact absurd under (UInt64.lt_irrefl _)
      · dsimp only at some
        rw [Function.update_of_ne mine] at some
        exact h8 p mem bytes' some same

/-- What goes on the air is what is in the outbox. -/
theorem keyed (fresh : Fresh C d stage k f f.onAir) {sender : Nat} (speaks : Speaks d sender)
    {bytes : Bytes} (held : f.outbox sender = some bytes) (keyed : Keyed f g sender bytes)
    (journals : g.session.journals = f.session.journals) (outbox : g.outbox = f.outbox) :
    Fresh C d stage k g g.onAir := by
  obtain ⟨h1, h2, h3, h4, h5, h6, h7, h8⟩ := fresh
  obtain ⟨sequence, built, under⟩ := h4 sender bytes held
  refine ⟨?_, ?_, ?_, ?_, ?_, ?_, ?_, ?_⟩
  · rwa [journals]
  · rwa [journals, outbox]
  · rwa [journals]
  · rwa [journals, outbox]
  · rw [outbox]
    rcases keyed.fate with ⟨frame, onAir, -⟩ | ⟨onAir, -⟩
    · rw [onAir, List.forall_mem_append]
      refine ⟨h5, fun p mem => ?_⟩
      rw [List.mem_singleton.mp mem]
      exact ⟨speaks, held⟩
    · rwa [onAir]
  · rw [journals, keyed.sent, List.forall_mem_append]
    refine ⟨h6, fun p mem => ?_⟩
    rw [List.mem_singleton.mp mem]
    exact ⟨speaks, stage, sequence, built, under⟩
  · rw [keyed.sent]
    intro p mem q mem' whose same
    rcases List.mem_append.mp mem with old | new
    · rcases List.mem_append.mp mem' with old' | new'
      · exact h7 p old q old' whose same
      · rw [List.mem_singleton.mp new'] at whose same ⊢
        exact h8 p old bytes (whose ▸ held) same
    · rcases List.mem_append.mp mem' with old' | new'
      · rw [List.mem_singleton.mp new] at whose same ⊢
        exact (h8 q old' bytes (whose ▸ held) same.symm).symm
      · rw [List.mem_singleton.mp new, List.mem_singleton.mp new']
  · rw [keyed.sent, outbox, List.forall_mem_append]
    refine ⟨h8, fun p mem bytes' some _ => ?_⟩
    rw [List.mem_singleton.mp mem] at some ⊢
    exact Option.some.inj (held.symm.trans some)

end Fresh

theorem fresh_kept (aead : Aead C) (small : k + 1 < 2 ^ 64) :
    Kept C d stage clock (Fresh C d stage k) where
  begins f fresh := fresh.alike rfl rfl rfl fun _ mem => mem
  keysUp f offsets elapsed window sender speaks fresh := by
    obtain ⟨journals, outbox, kind⟩ := @keyUp_spec C d stage f offsets elapsed window sender
    obtain ⟨bytes, made, held, ready⟩ := fresh.outgoing aead small sender
    have quiet := @outgoing_quiet C d stage f sender
    generalize f.keyUp C d stage offsets elapsed window sender = g at journals outbox kind ⊢
    generalize f.outgoing C d stage sender = readied at journals outbox kind made held ready quiet
    rcases kind with still | ⟨bytes', made', keyed⟩
    · rw [still.onAir]
      exact ready.alike journals outbox (still.sent.trans quiet.sent.symm) fun _ mem => mem
    · rw [made] at made'
      cases made'
      refine Fresh.keyed (f := readied.2) (by rw [quiet.onAir]; exact ready) speaks held ?_ journals
        outbox
      obtain ⟨allowed, used, observer, refusals, sent, fate⟩ := keyed
      exact ⟨by rw [quiet.used]; exact allowed, by rw [quiet.used]; exact used,
        by rw [quiet.observer]; exact observer, by rw [quiet.refusals]; exact refusals,
        by rw [quiet.sent]; exact sent,
        by rw [quiet.onAir, quiet.retry, quiet.report]; exact fate⟩
  hears f p others rest fresh := by
    obtain ⟨beside, -⟩ := @deliverOne_spec C d clock f p.1 p.2.1 p.2.2 others
    exact fresh.alike beside.journals beside.outbox beside.sent (List.subset_cons_self p rest)

/-! ## The whole deliberation -/

/-- The history of the stages that are over: frames by members that speak, under numbers that their
journals have given out, and no number for two of them. -/
structure History (C : Primitives) (d : Deliberation) (session : Session) : Prop where
  sent : ∀ p ∈ session.sent, Speaks d p.1 ∧ ∃ earlier sequence,
    BuiltAt C d earlier p.1 sequence p.2 ∧ sequence < (session.journals p.1).nextSequence
  once : ∀ p ∈ session.sent, ∀ q ∈ session.sent, p.1 = q.1 →
    peekFrameHeader p.2 = peekFrameHeader q.2 → p.2 = q.2

/-- So many numbers at most have been given out by each journal, and no vote is locked. -/
structure Unvoted (k : Nat) (session : Session) : Prop where
  numbered : ∀ i, (session.journals i).nextSequence.toNat ≤ k
  unlocked : ∀ i, lockOf i ∉ (session.journals i).locks

theorem fresh_start {base : Session} (history : History C d base) (unvoted : Unvoted k base) :
    Fresh C d stage k ⟨base, .zero, fun _ => none, [], []⟩ [] := by
  refine ⟨fun i => Nat.le_succ_of_le (unvoted.numbered i),
    fun i _ => ⟨unvoted.numbered i, unvoted.unlocked i⟩, fun _ => unvoted.unlocked, ?_, ?_,
    history.sent, history.once, ?_⟩
  · rintro i bytes ⟨⟩
  · rintro p ⟨⟩
  · rintro p mem bytes ⟨⟩

theorem history_stage (aead : Aead C) (small : k + 1 < 2 ^ 64) {base : Session}
    (history : History C d base) (unvoted : Unvoted k base) (bytes : Nat) :
    History C d (runStage C d bytes stage clock base).2 ∧
      (stage ≠ .bindingSupport → Unvoted (k + 1) (runStage C d bytes stage clock base).2) := by
  obtain ⟨g, fresh, session, -⟩ := (@fresh_kept C d stage clock k aead small).wholeStage
    base bytes (fresh_start history unvoted)
  rw [← session]
  exact ⟨⟨fresh.sent, fresh.once⟩, fun other => ⟨fresh.numbered, fresh.unlocked other⟩⟩

theorem history_opening (C : Primitives) (d : Deliberation) :
    History C d (opening d) ∧ Unvoted 0 (opening d) := by
  refine ⟨⟨?_, ?_⟩, fun _ => Nat.le_refl 0, fun _ => Std.ExtTreeSet.not_mem_empty⟩
  · rintro p ⟨⟩
  · rintro p ⟨⟩

theorem history_consulted (aead : Aead C) (d : Deliberation) (bytes : Nat) :
    History C d (freeze late (consulted C d bytes).2) ∧
      Unvoted 2 (freeze late (consulted C d bytes).2) := by
  obtain ⟨history, unvoted⟩ := history_opening C d
  obtain ⟨history, again⟩ := @history_stage C d .independent early 0 aead (by decide) _ history
    unvoted bytes
  obtain ⟨history, last⟩ := @history_stage C d .consultation early 1 aead (by decide) _ history
    (again (by rintro ⟨⟩)) bytes
  have unvoted := last (by rintro ⟨⟩)
  rw [freeze_consulted bytes]
  exact ⟨⟨history.sent, history.once⟩, unvoted.numbered, unvoted.unlocked⟩

/-- Every frame that is on the air in a deliberation shows its sender and a number, and two that
show the same are the same bytes of the same sender. -/
theorem nonces_used_once (C : Primitives) (aead : Aead C) (d : Deliberation)
    (small : d.fleet ≤ 65536) (bytes : Nat) :
    ∀ p ∈ (stages C d bytes).2.sent,
      (∃ sequence, peekFrameHeader p.2 = .ok (authorOf p.1, sequence)) ∧
        ∀ q ∈ (stages C d bytes).2.sent, peekFrameHeader p.2 = peekFrameHeader q.2 → p = q := by
  obtain ⟨history, unvoted⟩ := history_consulted aead d bytes
  obtain ⟨⟨sent, once⟩, -⟩ := @history_stage C d .bindingSupport late 2 aead (by decide) _ history
    unvoted bytes
  intro p mem
  obtain ⟨speaks, stage, sequence, built, -⟩ := sent p mem
  refine ⟨⟨sequence, built.header⟩, fun q mem' same => ?_⟩
  obtain ⟨speaks', stage', sequence', built', -⟩ := sent q mem'
  have headers := same
  rw [built.header, built'.header, Except.ok.injEq, Prod.mk.injEq] at headers
  have authors := congrArg UInt16.toNat headers.1
  rw [authorOf_toNat, authorOf_toNat] at authors
  have first := speaks.2
  have second := speaks'.2
  have whose : p.1 = q.1 := by omega
  exact Prod.ext whose (once p mem q mem' whose same)

theorem nonces_used_once_council :
    let sent := (stages plain council 186).2.sent
    (sent.map Prod.fst).take 4 = [0, 1, 2, 3] ∧
      ∀ p ∈ sent, ∀ q ∈ sent, peekFrameHeader p.2 = peekFrameHeader q.2 → p = q :=
  ⟨by decide +kernel,
    fun p mem => (nonces_used_once plain plain_aead council (by decide) 186 p mem).2⟩

end DeliberationNonces
