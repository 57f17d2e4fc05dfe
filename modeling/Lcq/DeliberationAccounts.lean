import Lcq.Deliberations
import Lcq.ScenarioAccounts

/-!
# The accounts of a deliberation

Every frame charged for is lost, collided, admitted or refused, every refusal is
counted under its reason, and no member is on the air beyond its hour's budget
whatever the stages come to.
-/

namespace DeliberationAccounts

open ByteFormat Contracts Deliberations InMemory LegalAirtime Medium Scenarios Schedule
open SimAdmission Transitions Wire

/-! ## What a step can do -/

variable {C : Primitives} {d : Deliberation} {stage : Stage} {clock : Clock} {f g : Sitting}

/-- Nothing has gone on the air and nothing has been heard. -/
structure Quiet (f g : Sitting) : Prop where
  report : g.report = f.report
  onAir : g.onAir = f.onAir
  retry : g.retry = f.retry
  used : g.session.usedAirtime = f.session.usedAirtime
  observer : g.session.observer = f.session.observer
  refusals : g.session.refusals = f.session.refusals
  sent : g.session.sent = f.session.sent

/-- A frame has been charged for: it is on the air, or out of reach and tried again. -/
structure Keyed (f g : Sitting) (sender : Nat) (bytes : Bytes) : Prop where
  allowed : dutyCycleOk (f.session.usedAirtime sender) (airtimeMs bytes.length) = true
  used : g.session.usedAirtime = Function.update f.session.usedAirtime sender
    (f.session.usedAirtime sender + airtimeMs bytes.length)
  observer : g.session.observer = f.session.observer
  refusals : g.session.refusals = f.session.refusals
  sent : g.session.sent = f.session.sent ++ [(sender, bytes)]
  fate : (∃ frame, g.onAir = f.onAir ++ [(sender, frame, bytes)] ∧ g.retry = f.retry ∧
      g.report = { f.report with
        framesSent := f.report.framesSent + 1
        airtimeMs := f.report.airtimeMs + airtimeMs bytes.length }) ∨
    (g.onAir = f.onAir ∧ g.retry = f.retry ++ [sender] ∧ g.report = { f.report with
      framesSent := f.report.framesSent + 1
      airtimeMs := f.report.airtimeMs + airtimeMs bytes.length
      lost := f.report.lost + 1 })

theorem outgoing_quiet (sender : Nat) : Quiet f (f.outgoing C d stage sender).2 := by
  unfold Sitting.outgoing
  split
  · exact ⟨rfl, rfl, rfl, rfl, rfl, rfl, rfl⟩
  · dsimp only
    split <;> exact ⟨rfl, rfl, rfl, rfl, rfl, rfl, rfl⟩

/-- Only the generator has moved. -/
theorem startFor_quiet (offsets : Nat → ℤ) (elapsed window : UInt64) (sender : Nat)
    (air : UInt64) :
    Quiet f (f.startFor d offsets elapsed window sender air).2 ∧
      (f.startFor d offsets elapsed window sender air).2.session.journals = f.session.journals ∧
      (f.startFor d offsets elapsed window sender air).2.outbox = f.outbox := by
  unfold Sitting.startFor
  split
  · exact ⟨⟨rfl, rfl, rfl, rfl, rfl, rfl, rfl⟩, rfl, rfl⟩
  · dsimp only
    split <;> exact ⟨⟨rfl, rfl, rfl, rfl, rfl, rfl, rfl⟩, rfl, rfl⟩

/-- A member is readied, and then it keys up or it does not. -/
theorem keyUp_spec (offsets : Nat → ℤ) (elapsed window : UInt64) (sender : Nat) :
    let ready := f.outgoing C d stage sender
    let g := f.keyUp C d stage offsets elapsed window sender
    g.session.journals = ready.2.session.journals ∧ g.outbox = ready.2.outbox ∧
      (Quiet f g ∨ ∃ bytes, ready.1 = some bytes ∧ Keyed f g sender bytes) := by
  have quiet := @outgoing_quiet C d stage f sender
  unfold Sitting.keyUp
  dsimp only
  generalize f.outgoing C d stage sender = ready at quiet ⊢
  obtain ⟨made, ready⟩ := ready
  cases made with
  | none => exact ⟨rfl, rfl, Or.inl quiet⟩
  | some bytes =>
    dsimp only at quiet ⊢
    split
    · exact ⟨rfl, rfl, Or.inl quiet⟩
    · rename_i granted
      rw [Bool.not_eq_false, quiet.used] at granted
      obtain ⟨still, journals, outbox⟩ := @startFor_quiet d (ready.charge sender bytes) offsets
        elapsed window sender (airtimeMs bytes.length)
      generalize (ready.charge sender bytes).startFor d offsets elapsed window sender
        (airtimeMs bytes.length) = started at still journals outbox ⊢
      have used : started.2.session.usedAirtime = Function.update f.session.usedAirtime sender
          (f.session.usedAirtime sender + airtimeMs bytes.length) := by
        rw [still.used, ← quiet.used]
        rfl
      have sent : started.2.session.sent = f.session.sent ++ [(sender, bytes)] := by
        rw [still.sent, ← quiet.sent]
        rfl
      have observed := still.observer.trans quiet.observer
      have refusals := still.refusals.trans quiet.refusals
      have onAir := still.onAir.trans quiet.onAir
      have retry := still.retry.trans quiet.retry
      have report : started.2.report = { f.report with
          framesSent := f.report.framesSent + 1
          airtimeMs := f.report.airtimeMs + airtimeMs bytes.length } := by
        rw [still.report, ← quiet.report]
        rfl
      split
      · exact ⟨journals, outbox, Or.inr ⟨bytes, rfl, granted, used, observed, refusals, sent,
          Or.inl ⟨.ownTransmission started.1 (airtimeMs bytes.length), congrArg (· ++ _) onAir,
            retry, report⟩⟩⟩
      · split
        · exact ⟨journals, outbox, Or.inr ⟨bytes, rfl, granted, used, observed, refusals, sent,
            Or.inl ⟨⟨started.1, airtimeMs bytes.length,
              (rssiAtObserver d.geometry sender started.2.session.drawn).1⟩,
              congrArg (· ++ _) onAir, retry, report⟩⟩⟩
        · refine ⟨journals, outbox, Or.inr ⟨bytes, rfl, granted, used, observed, refusals, sent,
            Or.inr ⟨onAir, ?_, ?_⟩⟩⟩
          · dsimp only
            rw [retry]
          · dsimp only
            rw [report]

/-- What has been made of a frame that was on the air. -/
inductive Fate (C : Primitives) (d : Deliberation) (clock : Clock) (f g : Sitting) (sender : Nat)
    (bytes : Bytes) : Prop where
  | lost (report : g.report = { f.report with lost := f.report.lost + 1 })
      (retry : g.retry = f.retry ++ [sender])
      (observer : g.session.observer = f.session.observer)
      (refusals : g.session.refusals = f.session.refusals)
  | collided (report : g.report = { f.report with collided := f.report.collided + 1 })
      (retry : g.retry = f.retry ++ [sender])
      (observer : g.session.observer = f.session.observer)
      (refusals : g.session.refusals = f.session.refusals)
  | admitted (report : g.report = { f.report with admitted := f.report.admitted + 1 })
      (retry : g.retry = f.retry)
      (taken : simAdmit (C := C) bytes deliberated (keysOf C d.fleet) labGroupKey
        f.session.observer clock = .ok g.session.observer)
      (refusals : g.session.refusals = f.session.refusals)
  | refused (error : TransitionError)
      (report : g.report = { f.report with refused := f.report.refused + 1 })
      (retry : g.retry = f.retry)
      (observer : g.session.observer = f.session.observer)
      (why : simAdmit (C := C) bytes deliberated (keysOf C d.fleet) labGroupKey
        f.session.observer clock = .error error)
      (refusals : g.session.refusals = f.session.refusals.record error)

/-- Members' own affairs are as they were. -/
structure Beside (f g : Sitting) : Prop where
  onAir : g.onAir = f.onAir
  outbox : g.outbox = f.outbox
  used : g.session.usedAirtime = f.session.usedAirtime
  journals : g.session.journals = f.session.journals
  sent : g.session.sent = f.session.sent

theorem offer_spec (sender : Nat) (bytes : Bytes) :
    Beside f (f.offer C d clock bytes) ∧ Fate C d clock f (f.offer C d clock bytes) sender bytes := by
  unfold Sitting.offer
  split
  · rename_i after taken
    exact ⟨⟨rfl, rfl, rfl, rfl, rfl⟩, .admitted rfl rfl taken rfl⟩
  · rename_i error why
    exact ⟨⟨rfl, rfl, rfl, rfl, rfl⟩, .refused error rfl rfl rfl why rfl⟩

theorem deliverOne_spec (sender : Nat) (frame : Transmission) (bytes : Bytes)
    (others : List Transmission) :
    let g := f.deliverOne C d clock ((sender, frame, bytes), others)
    Beside f g ∧ Fate C d clock f g sender bytes := by
  unfold Sitting.deliverOne
  dsimp only
  split
  · exact offer_spec sender bytes
  · split
    · exact ⟨⟨rfl, rfl, rfl, rfl, rfl⟩, .lost rfl rfl rfl rfl⟩
    · split
      · exact ⟨⟨rfl, rfl, rfl, rfl, rfl⟩, .lost rfl rfl rfl rfl⟩
      · obtain ⟨beside, fate⟩ := @offer_spec C d clock { f with
          session := { f.session with rng := f.session.rng.nextUnit.2 } } sender bytes
        obtain ⟨onAir, outbox, used, journals, sent⟩ := beside
        refine ⟨⟨onAir, outbox, used, journals, sent⟩, ?_⟩
        cases fate with
        | lost report retry observer refusals => exact .lost report retry observer refusals
        | collided report retry observer refusals => exact .collided report retry observer refusals
        | admitted report retry taken refusals => exact .admitted report retry taken refusals
        | refused error report retry observer why refusals =>
          exact .refused error report retry observer why refusals
    · exact ⟨⟨rfl, rfl, rfl, rfl, rfl⟩, .collided rfl rfl rfl rfl⟩

/-! ## What all the rounds keep -/

/-- A member that speaks. -/
def Speaks (d : Deliberation) (sender : Nat) : Prop := d.silent ≤ sender ∧ sender < d.fleet

/-- What keying up and hearing keep, of a sitting and the frames in it that are undecided. -/
structure Kept (C : Primitives) (d : Deliberation) (stage : Stage) (clock : Clock)
    (P : Sitting → List (Nat × Transmission × Bytes) → Prop) : Prop where
  begins : ∀ f, P f [] → P { f with onAir := [], retry := [] } []
  keysUp : ∀ f offsets elapsed window sender, Speaks d sender → P f f.onAir →
    P (f.keyUp C d stage offsets elapsed window sender)
      (f.keyUp C d stage offsets elapsed window sender).onAir
  hears : ∀ f p others rest, P f (p :: rest) → P (f.deliverOne C d clock (p, others)) rest

/-- Whoever is on the air or tries again speaks. -/
structure Manned (d : Deliberation) (f : Sitting) (rest : List (Nat × Transmission × Bytes)) :
    Prop where
  aloft : ∀ p ∈ rest, Speaks d p.1
  retry : ∀ sender ∈ f.retry, Speaks d sender

theorem Manned.keyUp {offsets : Nat → ℤ} {elapsed window : UInt64} {sender : Nat}
    (speaks : Speaks d sender) (manned : Manned d f f.onAir) :
    Manned d (f.keyUp C d stage offsets elapsed window sender)
      (f.keyUp C d stage offsets elapsed window sender).onAir := by
  obtain ⟨aloft, retry⟩ := manned
  obtain ⟨-, -, quiet | ⟨bytes, -, keyed⟩⟩ := @keyUp_spec C d stage f offsets elapsed window sender
  · exact ⟨by rw [quiet.onAir]; exact aloft, by rw [quiet.retry]; exact retry⟩
  · rcases keyed.fate with ⟨frame, onAir, again, -⟩ | ⟨onAir, again, -⟩
    · refine ⟨?_, by rw [again]; exact retry⟩
      rw [onAir, List.forall_mem_append]
      exact ⟨aloft, by simpa using speaks⟩
    · refine ⟨by rw [onAir]; exact aloft, ?_⟩
      rw [again, List.forall_mem_append]
      exact ⟨retry, by simpa using speaks⟩

theorem Manned.hear {p : Nat × Transmission × Bytes} {others : List Transmission}
    {rest : List (Nat × Transmission × Bytes)} (manned : Manned d f (p :: rest)) :
    Manned d (f.deliverOne C d clock (p, others)) rest := by
  obtain ⟨aloft, retry⟩ := manned
  rw [List.forall_mem_cons] at aloft
  obtain ⟨-, fate⟩ := @deliverOne_spec C d clock f p.1 p.2.1 p.2.2 others
  have longer : ∀ sender ∈ f.retry ++ [p.1], Speaks d sender := by
    rw [List.forall_mem_append]
    exact ⟨retry, by simpa using aloft.1⟩
  refine ⟨aloft.2, ?_⟩
  cases fate with
  | lost _ again _ _ => exact again ▸ longer
  | collided _ again _ _ => exact again ▸ longer
  | admitted _ again _ _ => exact again ▸ retry
  | refused error _ again _ _ _ => exact again ▸ retry

section rule

variable {P : Sitting → List (Nat × Transmission × Bytes) → Prop} (kept : Kept C d stage clock P)
  (offsets : Nat → ℤ)

include kept

theorem Kept.keyUps (elapsed window : UInt64) (pending : List Nat)
    (speak : ∀ sender ∈ pending, Speaks d sender) (holds : P f f.onAir)
    (manned : Manned d f f.onAir) :
    let g := pending.foldl (fun f sender => f.keyUp C d stage offsets elapsed window sender) f
    P g g.onAir ∧ Manned d g g.onAir := by
  induction pending generalizing f with
  | nil => exact ⟨holds, manned⟩
  | cons sender pending ih =>
    rw [List.forall_mem_cons] at speak
    exact ih speak.2 (kept.keysUp f offsets elapsed window sender speak.1 holds)
      (manned.keyUp speak.1)

theorem Kept.deliver (before onAir : List (Nat × Transmission × Bytes)) (holds : P f onAir)
    (manned : Manned d f onAir) :
    let g := (eachWithOthers (fun p => p.2.1) before onAir).foldl
      (fun f one => f.deliverOne C d clock one) f
    P g [] ∧ Manned d g [] := by
  induction onAir generalizing before f with
  | nil => exact ⟨holds, manned⟩
  | cons p onAir ih =>
    rw [eachWithOthers, List.foldl_cons]
    exact ih _ (kept.hears f p _ onAir holds) manned.hear

theorem Kept.round (elapsed window : UInt64) (pending : List Nat)
    (speak : ∀ sender ∈ pending, Speaks d sender) (holds : P f []) :
    let g := f.round C d stage clock offsets elapsed window pending
    P g [] ∧ ∀ sender ∈ g.retry, Speaks d sender := by
  have empty : Manned d { f with onAir := [], retry := [] } [] :=
    ⟨by rintro p ⟨⟩, by rintro sender ⟨⟩⟩
  obtain ⟨holds, manned⟩ := kept.keyUps offsets elapsed window pending speak
    (kept.begins f holds) empty
  obtain ⟨holds, manned⟩ := kept.deliver [] _ holds manned
  exact ⟨holds, manned.retry⟩

theorem Kept.rounds (bytes : Nat) (numbers : List Nat) (elapsed : UInt64) (pending : List Nat)
    (speak : ∀ sender ∈ pending, Speaks d sender) (holds : P f []) :
    P (Sitting.rounds C d stage clock offsets bytes numbers elapsed pending f).2 [] := by
  induction numbers generalizing elapsed pending f with
  | nil => exact holds
  | cons number numbers ih =>
    rw [Sitting.rounds]
    split
    · exact holds
    · obtain ⟨holds, speak⟩ := kept.round offsets elapsed
        (windowFor d bytes number) pending speak holds
      exact ih _ _ speak holds

/-- Whatever the steps keep holds of the whole stage. -/
theorem Kept.wholeStage (base : Session) (bytes : Nat)
    (holds : P ⟨base, .zero, fun _ => none, [], []⟩ []) :
    ∃ g : Sitting, P g [] ∧ g.session = (runStage C d bytes stage clock base).2 ∧
      (runStage C d bytes stage clock base).1 =
        { g.report with elapsedMs := (runStage C d bytes stage clock base).1.elapsedMs } := by
  have speak : ∀ sender ∈ List.range' d.silent (d.fleet - d.silent), Speaks d sender := by
    intro sender mem
    obtain ⟨i, below, rfl⟩ := List.mem_range'.mp mem
    constructor <;> omega
  have last := kept.rounds (clockOffsetsMs d) bytes
    (List.range Deliberations.maxRetries) 0 _ speak holds
  exact ⟨_, last, rfl, rfl⟩

end rule

/-! ## The books -/

/-- Milliseconds on the air. -/
def airOf (sent : List (Nat × Bytes)) : Nat := (sent.map fun p => (airtimeMs p.2.length).toNat).sum

def airBy (node : Nat) (sent : List (Nat × Bytes)) : Nat :=
  airOf (sent.filter fun p => decide (p.1 = node))

theorem airOf_concat (sent : List (Nat × Bytes)) (p : Nat × Bytes) :
    airOf (sent ++ [p]) = airOf sent + (airtimeMs p.2.length).toNat := by
  simp [airOf]

theorem airBy_concat (node : Nat) (sent : List (Nat × Bytes)) (p : Nat × Bytes) :
    airBy node (sent ++ [p]) =
      airBy node sent + if p.1 = node then (airtimeMs p.2.length).toNat else 0 := by
  unfold airBy
  rw [List.filter_append]
  by_cases same : p.1 = node <;> simp [same, airOf]

/-- What every member has spent of its hour is what it has been on the air for. -/
structure Metered (session : Session) : Prop where
  spent : ∀ node, (session.usedAirtime node).toNat = airBy node session.sent
  legal : ∀ node, session.usedAirtime node ≤ dutyCycleBudgetMs

/-- The books of a stage that began with some session, with so many frames undecided. -/
structure Accounts (base : Session) (f : Sitting) (aloft : Nat) : Prop where
  frames : f.report.framesSent =
    f.report.collided + f.report.lost + f.report.admitted + f.report.refused + aloft
  history : ∃ fresh, f.session.sent = base.sent ++ fresh ∧ f.report.framesSent = fresh.length ∧
    f.report.airtimeMs.toNat = airOf fresh % 2 ^ 64
  refused : f.session.refusals.total = base.refusals.total + f.report.refused
  metered : Metered f.session

variable {base : Session} {aloft : Nat}

theorem Accounts.quiet (accounts : Accounts base f aloft) (quiet : Quiet f g) :
    Accounts base g aloft := by
  obtain ⟨report, -, -, used, -, refusals, sent⟩ := quiet
  obtain ⟨frames, history, refused, spent, legal⟩ := accounts
  exact ⟨by rw [report]; exact frames, by rw [sent, report]; exact history,
    by rw [refusals, report]; exact refused, by rw [used, sent]; exact spent,
    by rw [used]; exact legal⟩

theorem Accounts.keyed (accounts : Accounts base f f.onAir.length) {sender : Nat} {bytes : Bytes}
    (keyed : Keyed f g sender bytes) : Accounts base g g.onAir.length := by
  obtain ⟨frames, ⟨fresh, sent, count, air⟩, refused, spent, legal⟩ := accounts
  obtain ⟨exact, most⟩ := ScenarioAccounts.duty_add keyed.allowed
  have metered : Metered g.session := by
    constructor
    · intro node
      have before := spent node
      rw [keyed.used, keyed.sent, airBy_concat]
      by_cases same : sender = node
      · subst same
        rw [Function.update_self, if_pos rfl, exact, before]
      · rw [Function.update_of_ne (Ne.symm same), if_neg same, before, Nat.add_zero]
    · intro node
      rw [keyed.used]
      by_cases same : node = sender
      · subst same
        rw [Function.update_self]
        exact most
      · rw [Function.update_of_ne same]
        exact legal node
  have history : ∃ fresh, g.session.sent = base.sent ++ fresh ∧
      f.report.framesSent + 1 = fresh.length ∧
      (f.report.airtimeMs + airtimeMs bytes.length).toNat = airOf fresh % 2 ^ 64 := by
    refine ⟨fresh ++ [(sender, bytes)], ?_, ?_, ?_⟩
    · rw [keyed.sent, sent, List.append_assoc]
    · rw [List.length_append, List.length_singleton, count]
    · rw [airOf_concat, UInt64.toNat_add, air]
      dsimp only
      omega
  rcases keyed.fate with ⟨frame, onAir, -, report⟩ | ⟨onAir, -, report⟩
  · refine ⟨?_, by rw [report]; exact history, ?_, metered⟩
    · rw [report, onAir, List.length_append, List.length_singleton]
      dsimp only
      omega
    · rw [keyed.refusals, report]
      exact refused
  · refine ⟨?_, by rw [report]; exact history, ?_, metered⟩
    · rw [report, onAir]
      dsimp only
      omega
    · rw [keyed.refusals, report]
      exact refused

theorem Accounts.decided (accounts : Accounts base f (aloft + 1)) {sender : Nat} {bytes : Bytes}
    (beside : Beside f g) (fate : Fate C d clock f g sender bytes) : Accounts base g aloft := by
  obtain ⟨frames, history, refused, spent, legal⟩ := accounts
  have metered : Metered g.session :=
    ⟨by rw [beside.used, beside.sent]; exact spent, by rw [beside.used]; exact legal⟩
  cases fate with
  | lost report _ _ refusals =>
    refine ⟨?_, by rw [report, beside.sent]; exact history, by rw [refusals, report]; exact refused,
      metered⟩
    rw [report]
    dsimp only
    omega
  | collided report _ _ refusals =>
    refine ⟨?_, by rw [report, beside.sent]; exact history, by rw [refusals, report]; exact refused,
      metered⟩
    rw [report]
    dsimp only
    omega
  | admitted report _ _ refusals =>
    refine ⟨?_, by rw [report, beside.sent]; exact history, by rw [refusals, report]; exact refused,
      metered⟩
    rw [report]
    dsimp only
    omega
  | refused error report _ _ _ refusals =>
    refine ⟨?_, by rw [report, beside.sent]; exact history, ?_, metered⟩
    · rw [report]
      dsimp only
      omega
    · rw [refusals, report, TransitionErrorCount.total_record, refused]
      rfl

theorem accounts_kept (base : Session) :
    Kept C d stage clock fun f rest => Accounts base f rest.length where
  begins f accounts := by
    obtain ⟨frames, history, refused, metered⟩ := accounts
    exact ⟨frames, history, refused, metered⟩
  keysUp f offsets elapsed window sender _ accounts := by
    obtain ⟨-, -, quiet | ⟨bytes, -, keyed⟩⟩ := @keyUp_spec C d stage f offsets elapsed window sender
    · rw [quiet.onAir]
      exact accounts.quiet quiet
    · exact accounts.keyed keyed
  hears f p others rest accounts := by
    obtain ⟨beside, fate⟩ := @deliverOne_spec C d clock f p.1 p.2.1 p.2.2 others
    exact accounts.decided beside fate

/-- The books of a stage. -/
structure Balanced (before : Session) (report : StageReport) (after : Session) : Prop where
  frames : report.framesSent = report.collided + report.lost + report.admitted + report.refused
  history : ∃ fresh, after.sent = before.sent ++ fresh ∧ report.framesSent = fresh.length ∧
    report.airtimeMs.toNat = airOf fresh % 2 ^ 64
  refused : after.refusals.total = before.refusals.total + report.refused
  metered : Metered after

theorem balanced_stage {before : Session} (metered : Metered before) (bytes : Nat) :
    Balanced before (runStage C d bytes stage clock before).1
      (runStage C d bytes stage clock before).2 := by
  have empty : Accounts before ⟨before, .zero, fun _ => none, [], []⟩ 0 :=
    ⟨rfl, ⟨[], (List.append_nil _).symm, rfl, rfl⟩, rfl, metered⟩
  obtain ⟨g, ⟨frames, history, refused, metered⟩, session, report⟩ :=
    (@accounts_kept C d stage clock before).wholeStage before bytes empty
  rw [← session, report]
  exact ⟨frames, history, refused, metered⟩

/-! ## The observer's case -/

/-- What no utterance changes. -/
structure Unmoved (case after : Case) : Prop where
  subject : after.subject = case.subject
  expiresAt : after.expiresAt = case.expiresAt
  phase : after.phase = case.phase

theorem Unmoved.refl (case : Case) : Unmoved case case := ⟨rfl, rfl, rfl⟩

theorem Unmoved.trans {first second third : Case} (early : Unmoved first second)
    (late : Unmoved second third) : Unmoved first third :=
  ⟨late.subject.trans early.subject, late.expiresAt.trans early.expiresAt,
    late.phase.trans early.phase⟩

/-- A frame is admitted as the opinion it carries. -/
theorem simAdmit_ok {bytes : Bytes} {manifest : List VerifyingKey} {case after : Case}
    (taken : simAdmit (C := C) bytes deliberated manifest labGroupKey case clock = .ok after) :
    ∃ o, offered C deliberated manifest labGroupKey bytes = some o ∧
      case.accept o clock = .ok after := by
  rw [admit_signed] at taken
  rw [offered]
  split at taken
  · cases taken
  · rename_i o some
    exact ⟨o, some, taken⟩

theorem accept_unmoved {case after : Case} {o : Opinion} (ok : case.accept o clock = .ok after) :
    Unmoved case after := by
  obtain ⟨-, -, ⟨-, -, listed, rfl⟩ | ⟨-, -, -, -, rfl⟩⟩ := Case.accept_ok ok
  · exact ⟨rfl, rfl, rfl⟩
  · exact ⟨rfl, rfl, rfl⟩

theorem Fate.unmoved {sender : Nat} {bytes : Bytes} (fate : Fate C d clock f g sender bytes) :
    Unmoved f.session.observer g.session.observer := by
  cases fate with
  | lost _ _ observer _ => rw [observer]; exact .refl _
  | collided _ _ observer _ => rw [observer]; exact .refl _
  | admitted _ _ taken _ =>
    obtain ⟨o, -, ok⟩ := simAdmit_ok taken
    exact accept_unmoved ok
  | refused error _ _ observer _ _ => rw [observer]; exact .refl _

theorem unmoved_kept (case : Case) :
    Kept C d stage clock fun f _ => Unmoved case f.session.observer where
  begins _ unmoved := unmoved
  keysUp f offsets elapsed window sender _ unmoved := by
    obtain ⟨-, -, quiet | ⟨bytes, -, keyed⟩⟩ := @keyUp_spec C d stage f offsets elapsed window sender
    · rw [quiet.observer]
      exact unmoved
    · rw [keyed.observer]
      exact unmoved
  hears f p others rest unmoved :=
    unmoved.trans (@deliverOne_spec C d clock f p.1 p.2.1 p.2.2 others).2.unmoved

theorem unmoved_stage (bytes : Nat) (before : Session) :
    Unmoved before.observer (runStage C d bytes stage clock before).2.observer := by
  obtain ⟨g, unmoved, session, -⟩ := (@unmoved_kept C d stage clock before.observer).wholeStage
    before bytes (.refl _)
  rw [← session]
  exact unmoved

/-- When consultation is to be closed the cutoff is certainly past. -/
theorem closes {case : Case} (subject : case.subject = deliberated)
    (phase : case.phase = .consulting) :
    case.closeConsultation (fixedClock (deliberated.startedAt.plusSecs closeAt)) =
      .ok { case with phase := .collectingVotes } := by
  have past : certainlyAfter (deliberated.startedAt.plusSecs closeAt)
      deliberated.consultationCutoff = true := by decide
  unfold Case.closeConsultation fixedClock
  rw [phase, subject, past]
  rfl

/-! ## The whole deliberation -/

def early : Clock := fixedClock (deliberated.startedAt.plusSecs 1)

def late : Clock := fixedClock (deliberated.startedAt.plusSecs closeAt)

def consulted (C : Primitives) (d : Deliberation) (bytes : Nat) : StageReport × Session :=
  runStage C d bytes .consultation early (runStage C d bytes .independent early (opening d)).2

theorem consulted_case (bytes : Nat) :
    Unmoved (opening d).observer (consulted C d bytes).2.observer :=
  (unmoved_stage bytes _).trans (unmoved_stage bytes _)

theorem opening_case (d : Deliberation) :
    (opening d).observer.subject = deliberated ∧ (opening d).observer.phase = .consulting ∧
      (opening d).observer.binding = [] ∧ ∀ name, name ∉ (opening d).observer.voted := by
  unfold opening
  cases d.validityS with
  | none => exact ⟨rfl, rfl, rfl, fun name => Std.ExtTreeSet.not_mem_empty⟩
  | some seconds => exact ⟨rfl, rfl, rfl, fun name => Std.ExtTreeSet.not_mem_empty⟩

/-- Consultation is always closed in time for the vote. -/
theorem freeze_consulted (bytes : Nat) : freeze late (consulted C d bytes).2 =
    { (consulted C d bytes).2 with observer :=
      { (consulted C d bytes).2.observer with phase := .collectingVotes } } := by
  obtain ⟨subject, -, phase⟩ := @consulted_case C d bytes
  obtain ⟨opened, consulting, -⟩ := opening_case d
  unfold freeze
  rw [show late = fixedClock (deliberated.startedAt.plusSecs closeAt) from rfl,
    closes (subject.trans opened) (phase.trans consulting)]

/-- The vote, behind the freeze. -/
def ballot (C : Primitives) (d : Deliberation) (bytes : Nat) : StageReport × Session :=
  runStage C d bytes .bindingSupport late (freeze late (consulted C d bytes).2)

/-- What a deliberation that comes to an end has gone through. -/
structure Ran (C : Primitives) (d : Deliberation) (report : Deliberations.Report)
    (policy : Quorum.Policy) (outcome : Quorum.QuorumResult) : Prop where
  chartered : Quorum.Policy.new (standing d.fleet) = .ok policy
  sized : frameSize C = some report.frameBytes
  judged : Quorum.evaluate policy
    (ballot C d report.frameBytes).2.observer.bindingSupporters = .ok outcome
  endorsed : report.endorsed = outcome.approved
  supporters : report.bindingSupporters =
    (ballot C d report.frameBytes).2.observer.bindingSupporters.length
  independent : report.independent =
    (runStage C d report.frameBytes .independent early (opening d)).1
  consultation : report.consultation = (consulted C d report.frameBytes).1
  binding : report.binding = (ballot C d report.frameBytes).1
  airtime : report.airtimeMs =
    report.independent.airtimeMs + report.consultation.airtimeMs + report.binding.airtimeMs
  refusals : report.refusals = (ballot C d report.frameBytes).2.refusals

theorem run_ran {report : Deliberations.Report} (ran : d.run C = some report) :
    ∃ policy outcome, Ran C d report policy outcome := by
  unfold Deliberation.run at ran
  simp only [Option.bind_eq_bind, Option.bind_eq_some_iff] at ran
  obtain ⟨policy, chartered, bytes, sized, outcome, judged, made⟩ := ran
  cases made
  exact ⟨policy, outcome, ScenarioAccounts.toOption_eq_some chartered, sized,
    ScenarioAccounts.toOption_eq_some judged, rfl, rfl, rfl, rfl, rfl, rfl, rfl⟩

theorem metered_opening (d : Deliberation) : Metered (opening d) := by
  refine ⟨fun _ => rfl, fun _ => ?_⟩
  exact UInt64.le_iff_toNat_le.mpr (Nat.zero_le _)

/-- Every frame of a stage is lost, collided, admitted or refused; every refusal is counted under
one reason and there are no others; and nobody is on the air beyond the hour's budget, all the
stages together. -/
theorem deliberation_accounts (C : Primitives) (d : Deliberation) (report : Deliberations.Report)
    (ran : d.run C = some report) :
    let sent := (stages C d report.frameBytes).2.sent
    (∀ stage ∈ [report.independent, report.consultation, report.binding], stage.framesSent =
        stage.collided + stage.lost + stage.admitted + stage.refused) ∧
      report.independent.framesSent + report.consultation.framesSent +
        report.binding.framesSent = sent.length ∧
      report.airtimeMs.toNat = airOf sent % 2 ^ 64 ∧
      report.refusals.total = report.independent.refused + report.consultation.refused +
        report.binding.refused ∧
      ∀ node, airBy node sent ≤ dutyCycleBudgetMs.toNat := by
  obtain ⟨policy, outcome, ran⟩ := run_ran ran
  have session : (stages C d report.frameBytes).2 = (ballot C d report.frameBytes).2 := rfl
  obtain ⟨frames, ⟨sent, history, count, air⟩, refused, metered⟩ :=
    @balanced_stage C d .independent early _ (metered_opening d) report.frameBytes
  obtain ⟨frames', ⟨sent', history', count', air'⟩, refused', metered'⟩ :=
    @balanced_stage C d .consultation early _ metered report.frameBytes
  have frozen := @freeze_consulted C d report.frameBytes
  have still : Metered (freeze late (consulted C d report.frameBytes).2) := by
    rw [frozen]
    exact ⟨metered'.spent, metered'.legal⟩
  obtain ⟨frames'', ⟨sent'', history'', count'', air''⟩, refused'', metered''⟩ :=
    @balanced_stage C d .bindingSupport late _ still report.frameBytes
  rw [← consulted] at frames' history' count' air' refused'
  rw [← ballot] at frames'' history'' count'' air'' refused'' metered''
  rw [frozen] at history'' refused''
  dsimp only at history'' refused''
  rw [← ran.independent] at frames count air refused
  rw [← ran.consultation] at frames' count' air' refused'
  rw [← ran.binding] at frames'' count'' air'' refused''
  have nothing : (opening d).sent = [] := rfl
  rw [nothing, List.nil_append] at history
  have all : (ballot C d report.frameBytes).2.sent = sent ++ sent' ++ sent'' := by
    rw [history'', history', history]
  have none : (opening d).refusals.total = 0 := rfl
  dsimp only
  rw [session]
  refine ⟨?_, ?_, ?_, ?_, fun node => ?_⟩
  · simp only [List.forall_mem_cons, List.not_mem_nil, false_implies, implies_true, and_true]
    exact ⟨frames, frames', frames''⟩
  · rw [all, List.length_append, List.length_append, count, count', count'']
  · rw [all, ran.airtime, UInt64.toNat_add, UInt64.toNat_add, air, air', air'']
    simp only [airOf, List.map_append, List.sum_append]
    omega
  · rw [ran.refusals]
    omega
  · rw [← metered''.spent node]
    exact UInt64.le_iff_toNat_le.mp (metered''.legal node)

/-- Four members, the last but one of them a forger. -/
def council : Deliberation where
  fleet := 4
  loss := 0
  seed := 1
  topology := .fullyConnected
  silent := 0
  geometry := none
  access := .random
  anchor := .trigger
  clockSkewS := 0
  disputers := 0
  forgers := 1
  validityS := none
  manned := by decide
  counted := by decide

theorem deliberation_accounts_council : ∃ report, council.run plain = some report ∧
    report.refusals.total = report.independent.refused + report.consultation.refused +
      report.binding.refused := by
  have isSome : (council.run plain).isSome = true := by decide +kernel
  obtain ⟨report, ran⟩ := Option.isSome_iff_exists.mp isSome
  obtain ⟨-, -, -, refusals, -⟩ := deliberation_accounts plain council report ran
  exact ⟨report, ran, refusals⟩

end DeliberationAccounts
