import Lcq.Admission
import Lcq.JournalRecords

/-!
# Admission in the simulation

The simulation reads a received frame with a pipeline of its own. It opens,
decodes and verifies as a node does, but looks neither at what the frame's
header names nor at what its envelope is about.
-/

namespace SimAdmission

open Admission ByteFormat Contracts JournalRecords Transitions Utterances Wire

/-! ## The simulation's own reading -/

def stageOf : UInt8 → Option Stage
  | 1 => some .independent
  | 2 => some .consultation
  | 3 => some .bindingSupport
  | _ => none

def verdictOf : UInt8 → Option Verdict
  | 1 => some .support
  | 2 => some .dispute
  | 3 => some .insufficientData
  | _ => none

/-- Members are numbered, not named. -/
def memberId (index : Nat) : String := String.ofList ('n' :: decimal 20 index [])

variable {C : Primitives}

/-- Open, verify and offer one received frame to the observer's state machine. -/
def simAdmit (sealed : Bytes) (subject : Subject) (manifest : List VerifyingKey) (group : GroupKey)
    (observer : Case) (clock : Clock) : Except TransitionError Case :=
  match openFrame C group sealed with
  | .error _ => .error .differentSubject
  | .ok (_, _, plain) =>
    match decodeCompact plain with
    | .error _ => .error .differentSubject
    | .ok received =>
      let claimed := received.envelope.authorIndex.toNat
      match manifest[claimed]? with
      | none => .error .differentSubject
      | some key =>
        match received.verify C key subject.contentHash with
        | .error _ => .error .differentSubject
        | .ok () =>
          match stageOf received.envelope.stage, verdictOf received.envelope.verdict with
          | some stage, some verdict =>
            observer.accept ⟨memberId claimed, subject, stage, verdict⟩ clock
          | _, _ => .error .differentSubject

theorem stageOf_same (code : UInt8) : stageOf code = Utterances.stageOf code := rfl

theorem verdictOf_same (code : UInt8) : verdictOf code = Utterances.verdictOf code := rfl

/-! ## What is offered to the case -/

/-- The opinion of an envelope's author, if its codes are known. -/
def opinion (author : String) (subject : Subject) (envelope : CompactEnvelope) : Option Opinion :=
  match Utterances.stageOf envelope.stage, Utterances.verdictOf envelope.verdict with
  | some stage, some verdict => some ⟨author, subject, stage, verdict⟩
  | _, _ => none

/-- A frame that opens, whatever its header names, and carries the signature of its
envelope's author, whatever it is about. -/
def Signed (C : Primitives) (subject : Subject) (manifest : List VerifyingKey) (group : GroupKey)
    (frame : Bytes) (envelope : CompactEnvelope) : Prop :=
  ∃ author sequence plain signature key,
    openFrame C group frame = .ok (author, sequence, plain) ∧
      decodeCompact plain = .ok ⟨envelope, signature⟩ ∧
      manifest[envelope.authorIndex.toNat]? = some key ∧
      C.verifyStrict key (envelope.transcript C subject.contentHash).1 signature = true

/-- The envelope of a signed frame. -/
def signed (C : Primitives) (subject : Subject) (manifest : List VerifyingKey) (group : GroupKey)
    (frame : Bytes) : Option CompactEnvelope :=
  match openFrame C group frame with
  | .error _ => none
  | .ok (_, _, plain) =>
    match decodeCompact plain with
    | .error _ => none
    | .ok received =>
      match manifest[received.envelope.authorIndex.toNat]? with
      | none => none
      | some key =>
        match received.verify C key subject.contentHash with
        | .error _ => none
        | .ok () => some received.envelope

section offers

variable {subject : Subject} {manifest : List VerifyingKey} {group : GroupKey} {frame : Bytes}
  {envelope : CompactEnvelope}

theorem signed_eq_some :
    signed C subject manifest group frame = some envelope ↔
      Signed C subject manifest group frame envelope := by
  constructor
  · intro found
    unfold signed at found
    split at found
    · cases found
    · rename_i author sequence plain opened
      split at found
      · cases found
      · rename_i received decoded
        split at found
        · cases found
        · rename_i key held
          split at found
          · cases found
          · rename_i valid
            cases found
            refine ⟨author, sequence, plain, received.signature, key, opened, decoded, held, ?_⟩
            unfold SignedCompactEnvelope.verify at valid
            split at valid
            · assumption
            · cases valid
  · rintro ⟨author, sequence, plain, signature, key, opened, decoded, held, valid⟩
    simp [signed, opened, decoded, held, SignedCompactEnvelope.verify, valid]

/-- The simulation offers the opinion of any signed envelope. -/
theorem admit_signed (observer : Case) (clock : Clock) :
    simAdmit (C := C) frame subject manifest group observer clock =
      match (signed C subject manifest group frame).bind fun e =>
        opinion (memberId e.authorIndex.toNat) subject e with
      | none => .error .differentSubject
      | some o => observer.accept o clock := by
  unfold simAdmit signed
  split
  · rfl
  · split
    · rfl
    · rename_i received _
      dsimp only
      split
      · rfl
      · split
        · rfl
        · simp only [stageOf_same, verdictOf_same, Option.bind_some, opinion]
          cases Utterances.stageOf received.envelope.stage with
          | none => rfl
          | some stage =>
            cases Utterances.verdictOf received.envelope.verdict with
            | none => rfl
            | some verdict => rfl

end offers

/-- What the simulation hands to the case. -/
def offered (C : Primitives) (subject : Subject) (manifest : List VerifyingKey) (group : GroupKey)
    (frame : Bytes) : Option Opinion :=
  (signed C subject manifest group frame).bind fun e =>
    opinion (memberId e.authorIndex.toNat) subject e

/-- What a node hands to the case. -/
def nodeOffered (station : Station C) (frame : Bytes) : Option Opinion :=
  (verified station frame).bind fun e =>
    opinion (station.memberId e.authorIndex.toNat) station.subject e

/-- The case behind an offer. -/
def settled (case : Case) (clock : Clock) : Option Opinion → Case
  | none => case
  | some o =>
    match case.accept o clock with
    | .ok after => after
    | .error _ => case

/-- The opinion the case takes, if it takes one. -/
def accepted (case : Case) (clock : Clock) : Option Opinion → Option Opinion
  | none => none
  | some o =>
    match case.accept o clock with
    | .ok _ => some o
    | .error _ => none

/-- What the case says against an offer. -/
def refusal (case : Case) (clock : Clock) : Option Opinion → Option TransitionError
  | none => none
  | some o =>
    match case.accept o clock with
    | .ok _ => none
    | .error error => some error

section

variable {station : Station C} {frame : Bytes} (case : Case) (clock : Clock)

theorem offer_settles (envelope : CompactEnvelope) :
    let o := opinion (station.memberId envelope.authorIndex.toNat) station.subject envelope
    (offer station envelope case clock).2 = settled case clock o ∧
      (offer station envelope case clock).1.refused = refusal case clock o := by
  simp only [offer, opinion]
  cases Utterances.stageOf envelope.stage with
  | none => exact ⟨rfl, rfl⟩
  | some stage =>
    cases Utterances.verdictOf envelope.verdict with
    | none => exact ⟨rfl, rfl⟩
    | some verdict =>
      simp only [settled, refusal]
      cases case.accept
          ⟨station.memberId envelope.authorIndex.toNat, station.subject, stage, verdict⟩ clock with
      | error error => exact ⟨rfl, rfl⟩
      | ok after => by_cases binding : stage = .bindingSupport <;> simp [binding]

/-- A node's admission is the offer of that opinion and no more. -/
theorem admitFrame_settles :
    (admitFrame station frame case clock).2 = settled case clock (nodeOffered station frame) ∧
      (admitFrame station frame case clock).1.refused =
        refusal case clock (nodeOffered station frame) := by
  cases known : verified station frame with
  | none =>
    have other : ∀ envelope, ¬ Genuine station frame envelope := by
      intro envelope genuine
      rw [verified_eq_some.mpr genuine] at known
      cases known
    rw [admit_other other, nodeOffered, known]
    exact ⟨rfl, rfl⟩
  | some envelope =>
    rw [admit_genuine (verified_eq_some.mp known), nodeOffered, known]
    exact offer_settles case clock envelope

end

/-! ## Where the two agree -/

/-- The case behind the simulation's admission. -/
def observed (case : Case) (outcome : Except TransitionError Case) : Case :=
  match outcome with
  | .ok after => after
  | .error _ => case

/-- The two leave the same case behind, and it takes the same opinion of the same author from
both, or none from either. -/
structure Alike (station : Station C) (frame : Bytes) (case : Case) (clock : Clock) : Prop where
  behind : (admitFrame station frame case clock).2 =
    observed case (simAdmit (C := C) frame station.subject station.keys.keyring station.keys.group
      case clock)
  accepted : accepted case clock (nodeOffered station frame) =
    accepted case clock
      (offered C station.subject station.keys.keyring station.keys.group frame)

/-- The case takes no such opinion. -/
def Untaken (case : Case) (clock : Clock) (offer : Option Opinion) : Prop :=
  ∀ o, offer = some o → ∀ after, case.accept o clock ≠ .ok after

theorem accepted_eq_none {case : Case} {clock : Clock} {offer : Option Opinion} :
    accepted case clock offer = none ↔ Untaken case clock offer := by
  cases offer with
  | none => simp [accepted, Untaken]
  | some o =>
    simp only [accepted, Untaken, Option.some.injEq, forall_eq']
    cases case.accept o clock with
    | ok after => simp
    | error error => simp

theorem accepted_eq_some {case : Case} {clock : Clock} {offer : Option Opinion} {o : Opinion}
    (taken : accepted case clock offer = some o) : offer = some o := by
  cases offer with
  | none => cases taken
  | some other =>
    simp only [accepted] at taken
    split at taken
    · exact taken
    · cases taken

/-- The case behind an offer is settled by what it took. -/
theorem settled_accepted (case : Case) (clock : Clock) (offer : Option Opinion) :
    settled case clock offer = settled case clock (accepted case clock offer) := by
  cases offer with
  | none => rfl
  | some o =>
    cases outcome : case.accept o clock with
    | ok after => simp [settled, accepted, outcome]
    | error error => simp [settled, accepted, outcome]

theorem observed_settled (station : Station C) (frame : Bytes) (case : Case) (clock : Clock) :
    observed case (simAdmit (C := C) frame station.subject station.keys.keyring station.keys.group
      case clock) = settled case clock
        (offered C station.subject station.keys.keyring station.keys.group frame) := by
  rw [admit_signed, offered]
  generalize ((signed C station.subject station.keys.keyring station.keys.group frame).bind fun e =>
    opinion (memberId e.authorIndex.toNat) station.subject e) = offer
  cases offer with
  | none => rfl
  | some o => rfl

theorem alike_iff {station : Station C} {frame : Bytes} {case : Case} {clock : Clock} :
    Alike station frame case clock ↔
      accepted case clock (nodeOffered station frame) =
        accepted case clock
          (offered C station.subject station.keys.keyring station.keys.group frame) := by
  constructor
  · exact Alike.accepted
  · intro same
    refine ⟨?_, same⟩
    rw [(admitFrame_settles case clock).1, observed_settled, settled_accepted, same,
      ← settled_accepted]

theorem Signed.unique {subject : Subject} {manifest : List VerifyingKey} {group : GroupKey}
    {frame : Bytes} {envelope other : CompactEnvelope}
    (first : Signed C subject manifest group frame envelope)
    (second : Signed C subject manifest group frame other) : envelope = other := by
  rw [← signed_eq_some] at first second
  exact Option.some.inj (first.symm.trans second)

theorem signed_of_genuine {station : Station C} {frame : Bytes} {envelope : CompactEnvelope}
    (genuine : Genuine station frame envelope) :
    Signed C station.subject station.keys.keyring station.keys.group frame envelope := by
  obtain ⟨plain, signature, key, opened, decoded, held, valid⟩ := genuine.opened
  exact ⟨_, _, plain, signature, key, opened, decoded, held, valid⟩

theorem nodeOffered_genuine {station : Station C} {frame : Bytes} {envelope : CompactEnvelope}
    (genuine : Genuine station frame envelope) : nodeOffered station frame =
      opinion (station.memberId envelope.authorIndex.toNat) station.subject envelope := by
  rw [nodeOffered, verified_eq_some.mpr genuine]
  rfl

theorem nodeOffered_other {station : Station C} {frame : Bytes}
    (other : ∀ envelope, ¬ Genuine station frame envelope) : nodeOffered station frame = none := by
  cases known : verified station frame with
  | none =>
    rw [nodeOffered, known]
    rfl
  | some envelope => exact absurd (verified_eq_some.mp known) (other envelope)

/-- The only envelope a signed frame can be genuine with is the one that is signed. -/
theorem Signed.not_genuine {station : Station C} {frame : Bytes} {envelope : CompactEnvelope}
    (valid : Signed C station.subject station.keys.keyring station.keys.group frame envelope)
    (forged : ¬ Genuine station frame envelope) :
    ∀ other, ¬ Genuine station frame other := by
  intro other genuine
  rw [valid.unique (signed_of_genuine genuine)] at forged
  exact forged genuine

/-- An author with two names has one opinion under each. -/
theorem opinion_author {author : String} {subject : Subject} {envelope : CompactEnvelope}
    {o : Opinion} (known : opinion author subject envelope = some o) : o.author = author := by
  unfold opinion at known
  split at known
  · cases known
    rfl
  · cases known

/-- The two admit alike exactly what a node takes for genuine, if the member goes by the same
name in both, and what neither case would take in any event. -/
theorem admit_alike (station : Station C) (frame : Bytes) (case : Case) (clock : Clock) :
    Alike station frame case clock ↔
      ∀ envelope,
        Signed C station.subject station.keys.keyring station.keys.group frame envelope →
          let index := envelope.authorIndex.toNat
          (Genuine station frame envelope ∧ station.memberId index = memberId index) ∨
            (Untaken case clock (opinion (memberId index) station.subject envelope) ∧
              (Genuine station frame envelope →
                Untaken case clock
                  (opinion (station.memberId index) station.subject envelope))) := by
  rw [alike_iff]
  constructor
  · intro same envelope valid index
    have sim : offered C station.subject station.keys.keyring station.keys.group frame =
        opinion (memberId index) station.subject envelope := by
      rw [offered, signed_eq_some.mpr valid]
      rfl
    rw [sim] at same
    by_cases genuine : Genuine station frame envelope
    · rw [nodeOffered_genuine genuine] at same
      by_cases names : station.memberId index = memberId index
      · exact Or.inl ⟨genuine, names⟩
      · cases taken : accepted case clock
            (opinion (station.memberId index) station.subject envelope) with
        | none =>
          refine Or.inr ⟨accepted_eq_none.mp (same.symm.trans taken), fun _ => ?_⟩
          exact accepted_eq_none.mp taken
        | some o =>
          have one := opinion_author (accepted_eq_some taken)
          have other := opinion_author (accepted_eq_some (same.symm.trans taken))
          exact absurd (one.symm.trans other) names
    · rw [nodeOffered_other (valid.not_genuine genuine)] at same
      exact Or.inr ⟨accepted_eq_none.mp same.symm, fun real => absurd real genuine⟩
  · intro condition
    cases known : signed C station.subject station.keys.keyring station.keys.group frame with
    | none =>
      have other : ∀ envelope, ¬ Genuine station frame envelope := by
        intro envelope genuine
        rw [signed_eq_some.mpr (signed_of_genuine genuine)] at known
        cases known
      rw [nodeOffered_other other, offered, known]
      rfl
    | some envelope =>
      have valid := signed_eq_some.mp known
      have sim : offered C station.subject station.keys.keyring station.keys.group frame =
          opinion (memberId envelope.authorIndex.toNat) station.subject envelope := by
        rw [offered, known]
        rfl
      rw [sim]
      rcases condition envelope valid with ⟨genuine, names⟩ | ⟨untaken, either⟩
      · rw [nodeOffered_genuine genuine, names]
      · rw [accepted_eq_none.mpr untaken]
        by_cases genuine : Genuine station frame envelope
        · rw [nodeOffered_genuine genuine, accepted_eq_none.mpr (either genuine)]
        · rw [nodeOffered_other (valid.not_genuine genuine)]
          rfl

/-! ## A frame of another epoch -/

theorem numbered_distinct : ["n0", "n1", "n2"].Nodup := by decide

/-- A crew named as the simulation numbers it. -/
def numbered : Fleet where
  missionEpoch := 1
  ids := ["n0", "n1", "n2"]
  distinct := numbered_distinct

def numberedStation : Station plain :=
  { stationed with
    fleet := numbered
    seated := stationed.seated
    sized := stationed.sized
    keyed := stationed.keyed
    scheduled := stationed.scheduled }

/-- What member 1 said in the epoch before, or after. -/
def staleFrame : Bytes :=
  let envelope := CompactEnvelope.new plain (numbered.missionEpoch + 1) event revision
    deliberated.contentHash deliberated.startedAt.secs 1 1 1 5
  let sealed := do
    let signed ← encodeCompact (envelope.sign plain (crewKey 1) deliberated.contentHash)
    sealFrame plain provisioned.group 1 5 signed
  sealed.toOption.getD []

/-- The simulation takes an independent opinion signed in another mission epoch, which a node
refuses. -/
theorem admit_stale :
    let case := Case.open deliberated
    let clock : Clock := fun _ => deliberated.startedAt
    ¬ Alike numberedStation staleFrame case clock ∧
      (admitFrame numberedStation staleFrame case clock).2.independent = [] ∧
      (observed case (simAdmit (C := plain) staleFrame deliberated provisioned.keyring
        provisioned.group case clock)).independent.map Opinion.author = ["n1"] := by
  intro case clock
  have node : (admitFrame numberedStation staleFrame case clock).2.independent = [] := by
    decide +kernel
  have sim : (observed case (simAdmit (C := plain) staleFrame deliberated provisioned.keyring
      provisioned.group case clock)).independent.map Opinion.author = ["n1"] := by
    decide +kernel
  refine ⟨?_, node, sim⟩
  intro alike
  have behind := alike.behind
  rw [show observed case (simAdmit (C := plain) staleFrame numberedStation.subject
    numberedStation.keys.keyring numberedStation.keys.group case clock) = observed case
      (simAdmit (C := plain) staleFrame deliberated provisioned.keyring provisioned.group case clock)
    from rfl] at behind
  rw [← behind, node] at sim
  cases sim

end SimAdmission
