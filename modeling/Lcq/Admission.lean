import Lcq.Quorum
import Lcq.ReplayWindows
import Lcq.Schedule
import Lcq.Transitions

/-!
# Reading a frame

What a node does with the bytes its radio hands over: drop a replay or a
stranger's frame unopened, recognise the opening of a round, and open, verify
and offer everything else to the state machine.
-/

namespace Admission

open ByteFormat Contracts ReplayWindows Schedule Transitions Utterances Wire

/-- What a node runs with. All of it is checked before the round. -/
structure Station (C : Primitives) where
  fleet : Fleet
  policy : Quorum.Policy
  options : Options
  keys : Provisioned
  subject : Subject
  seated : options.index < fleet.size
  sized : fleet.size ≤ Heard.capacity
  keyed : keys.keyring.length = fleet.size
  named : keys.keyring[options.index]? = some (C.verifyingKey keys.signing)
  scheduled : finish options fleet.size ≤ endorsementTargetSeconds

/-- What reading one frame taught this node. -/
structure Admitted where
  verified : Option (Nat × UInt64)
  round : RoundId
  stageIndex : Option Nat
  bindingFrom : Option Nat
  acknowledgesUs : Bool
  refused : Option TransitionError
  nack : Bool
  heard : Heard

def Admitted.nothing : Admitted := ⟨none, ⟨0, 0⟩, none, none, false, none, false, .none⟩

variable {C : Primitives} (station : Station C)

namespace Station

def memberId (index : Nat) : String := station.fleet.id index

def memberIndex (id : String) : Option Nat := station.fleet.indexOf id

/-- Whether a frame is about the subject this node is deliberating. -/
def sameSubject (envelope : CompactEnvelope) : Bool :=
  decide (envelope.missionEpoch = station.fleet.missionEpoch ∧ envelope.event = event ∧
    envelope.revision = revision ∧
    envelope.case = caseReference C station.subject.contentHash ∧
    envelope.startedAt = station.subject.startedAt.secs)

/-- The signature's check against the keyring entry of a member, if there is one. -/
def checked (received : SignedCompactEnvelope) (claimed : Nat) : Bool :=
  match station.keys.keyring[claimed]? with
  | none => false
  | some key =>
    match received.verify C key station.subject.contentHash with
    | .ok () => true
    | .error _ => false

end Station

/-- The place of a stage in the schedule. -/
def stageIndex : UInt8 → Option Nat
  | 1 => some 0
  | 2 => some 1
  | 3 => some 2
  | _ => none

/-- Offer a verified utterance to the state machine. -/
def offer (envelope : CompactEnvelope) (case : Case) (clock : Clock) : Admitted × Case :=
  let claimed := envelope.authorIndex.toNat
  let learned : Admitted :=
    { verified := some (claimed, envelope.sequence)
      round := envelope.round
      stageIndex := stageIndex envelope.stage
      bindingFrom := none
      acknowledgesUs := envelope.heard.contains station.options.index
      refused := none
      nack := decide (envelope.stage = nackStage)
      heard := envelope.heard }
  match stageOf envelope.stage, verdictOf envelope.verdict with
  | some stage, some verdict =>
    match case.accept ⟨station.memberId claimed, station.subject, stage, verdict⟩ clock with
    | .ok case =>
      if stage = .bindingSupport then ({ learned with bindingFrom := some claimed }, case)
      else (learned, case)
    | .error error => ({ learned with refused := some error }, case)
  | _, _ => (learned, case)

def admitFrame (sealed : Bytes) (case : Case) (clock : Clock) : Admitted × Case :=
  match openFrame C station.keys.group sealed with
  | .error _ => (.nothing, case)
  | .ok (headerAuthor, headerSequence, plain) =>
    match decodeCompact plain with
    | .error _ => (.nothing, case)
    | .ok received =>
      let envelope := received.envelope
      if station.sameSubject envelope = false then (.nothing, case)
      -- a frame whose two authors disagree was assembled without the member's key
      else if headerAuthor.toNat ≠ envelope.authorIndex.toNat ∨
          headerSequence ≠ envelope.sequence then (.nothing, case)
      else if station.checked received envelope.authorIndex.toNat = false then (.nothing, case)
      else offer station envelope case clock

/-- The round a frame opens, if it opens one: it is named by the frame itself. -/
def triggerRound (sealed : Bytes) : Option (RoundId × Nat × UInt64) :=
  match openFrame C station.keys.group sealed with
  | .error _ => none
  | .ok (headerAuthor, headerSequence, plain) =>
    match decodeCompact plain with
    | .error _ => none
    | .ok received =>
      let envelope := received.envelope
      let claimed := envelope.authorIndex.toNat
      if envelope.stage ≠ triggerStage ∨ station.sameSubject envelope = false then none
      else if station.checked received claimed = false then none
      else if headerAuthor.toNat ≠ claimed ∨ headerSequence ≠ envelope.sequence then none
      else if envelope.round.opener.toNat ≠ claimed ∨
          envelope.round.sequence.toNat ≠ envelope.sequence.toNat then none
      else some (envelope.round, claimed, envelope.sequence)

/-- When a round began, worked out from a frame heard inside it. -/
structure LateAnchor where
  origin : Nat
  round : RoundId
  author : Nat
  sequence : UInt64

/-- The stage whose slot a frame is taken to be sent in; a repair request comes whole windows
behind the binding stage. -/
def slottedStage (code : UInt8) : Option Stage :=
  if code = nackStage then some .bindingSupport else stageOf code

/-- From the opening of the round to the end of a frame sent in its author's slot. -/
def travel (stage : Stage) (author : Nat) (sealed : Bytes) : Nat :=
  fromMillis (wallMs station.options (starts station.options station.fleet.size stage * 1000
    + slotMs station.options * .ofNat author + airtimeMs sealed.length))

def lateAnchor (sealed : Bytes) (now : Nat) : Option LateAnchor :=
  if station.options.slots = false then none
  else
    match openFrame C station.keys.group sealed with
    | .error _ => none
    | .ok (headerAuthor, headerSequence, plain) =>
      match decodeCompact plain with
      | .error _ => none
      | .ok received =>
        let envelope := received.envelope
        let author := envelope.authorIndex.toNat
        match slottedStage envelope.stage with
        | none => none
        | some stage =>
          if station.sameSubject envelope = false ∨ station.checked received author = false ∨
              headerAuthor.toNat ≠ author ∨ headerSequence ≠ envelope.sequence ∨
              envelope.round.isSet = false then none
          else
            match checkedSub now (travel station stage author sealed) with
            | none => none
            | some origin => some ⟨origin, envelope.round, author, envelope.sequence⟩

/-- Whether a frame repeats a number already verified from its sender. -/
def isReplay (frame : Bytes) (windows : List ReplayWindow) : Bool :=
  match peekFrameHeader frame with
  | .error _ => false
  | .ok (author, sequence) =>
    match windows[author.toNat]? with
    | none => false
    | some window => window.seen sequence

/-- Whether a frame claims to come from somebody who is not in the fleet. -/
def fromOutsideTheFleet (frame : Bytes) : Bool :=
  match peekFrameHeader frame with
  | .error _ => false
  | .ok (author, _) => decide (station.fleet.size ≤ author.toNat)

/-! ## Genuine frames -/

/-- A frame that opened under the group key, names in its header the author and the number of
its envelope, carries that author's signature over the envelope and the full content hash,
and is about the subject under deliberation. -/
structure Genuine (frame : Bytes) (envelope : CompactEnvelope) : Prop where
  opened : ∃ plain signature key,
    openFrame C station.keys.group frame = .ok (envelope.authorIndex, envelope.sequence, plain) ∧
      decodeCompact plain = .ok ⟨envelope, signature⟩ ∧
      station.keys.keyring[envelope.authorIndex.toNat]? = some key ∧
      C.verifyStrict key (envelope.transcript C station.subject.contentHash).1 signature = true
  missionEpoch : envelope.missionEpoch = station.fleet.missionEpoch
  event : envelope.event = Utterances.event
  revision : envelope.revision = Utterances.revision
  case : envelope.case = caseReference C station.subject.contentHash
  startedAt : envelope.startedAt = station.subject.startedAt.secs

variable {station} {frame : Bytes} {envelope : CompactEnvelope}

theorem checked_iff {received : SignedCompactEnvelope} {claimed : Nat} :
    station.checked received claimed = true ↔
      ∃ key, station.keys.keyring[claimed]? = some key ∧
        C.verifyStrict key (received.envelope.transcript C station.subject.contentHash).1
          received.signature = true := by
  unfold Station.checked SignedCompactEnvelope.verify
  cases station.keys.keyring[claimed]? with
  | none => simp
  | some key =>
    cases signed : C.verifyStrict key
        (received.envelope.transcript C station.subject.contentHash).1 received.signature <;>
      simp [signed]

theorem genuine_iff : Genuine station frame envelope ↔
    ∃ plain signature,
      openFrame C station.keys.group frame = .ok (envelope.authorIndex, envelope.sequence, plain) ∧
        decodeCompact plain = .ok ⟨envelope, signature⟩ ∧
        station.checked ⟨envelope, signature⟩ envelope.authorIndex.toNat = true ∧
        station.sameSubject envelope = true := by
  simp only [checked_iff, Station.sameSubject, decide_eq_true_eq]
  constructor
  · rintro ⟨⟨plain, signature, key, opened, decoded, held, signed⟩, h1, h2, h3, h4, h5⟩
    exact ⟨plain, signature, opened, decoded, ⟨key, held, signed⟩, h1, h2, h3, h4, h5⟩
  · rintro ⟨plain, signature, opened, decoded, ⟨key, held, signed⟩, h1, h2, h3, h4, h5⟩
    exact ⟨⟨plain, signature, key, opened, decoded, held, signed⟩, h1, h2, h3, h4, h5⟩

/-- The envelope of a genuine frame. -/
def verified (station : Station C) (frame : Bytes) : Option CompactEnvelope :=
  match openFrame C station.keys.group frame with
  | .error _ => none
  | .ok (headerAuthor, headerSequence, plain) =>
    match decodeCompact plain with
    | .error _ => none
    | .ok received =>
      let envelope := received.envelope
      if headerAuthor = envelope.authorIndex ∧ headerSequence = envelope.sequence ∧
          station.checked received envelope.authorIndex.toNat = true ∧
          station.sameSubject envelope = true then some envelope
      else none

theorem verified_eq_some :
    verified station frame = some envelope ↔ Genuine station frame envelope := by
  rw [genuine_iff]
  constructor
  · intro found
    unfold verified at found
    split at found
    · cases found
    · rename_i opened
      split at found
      · cases found
      · rename_i received decoded
        dsimp only at found
        split at found
        · rename_i checks
          obtain ⟨rfl, rfl, signed, subject⟩ := checks
          cases found
          exact ⟨_, received.signature, opened, decoded, signed, subject⟩
        · cases found
  · rintro ⟨plain, signature, opened, decoded, signed, subject⟩
    simp [verified, opened, decoded, signed, subject]

/-- A frame is genuine in one way at most. -/
theorem Genuine.unique {other : CompactEnvelope} (genuine : Genuine station frame envelope)
    (genuine' : Genuine station frame other) : envelope = other := by
  obtain ⟨plain, signature, -, opened, decoded, -⟩ := genuine.opened
  obtain ⟨plain', signature', -, opened', decoded', -⟩ := genuine'.opened
  have plains := opened.symm.trans opened'
  simp only [Except.ok.injEq, Prod.mk.injEq] at plains
  obtain ⟨-, -, rfl⟩ := plains
  have envelopes := decoded.symm.trans decoded'
  simp only [Except.ok.injEq, SignedCompactEnvelope.mk.injEq] at envelopes
  exact envelopes.1

/-- Its author is in the fleet. -/
theorem Genuine.author_lt (genuine : Genuine station frame envelope) :
    envelope.authorIndex.toNat < station.fleet.size := by
  obtain ⟨_, _, key, -, -, held, -⟩ := genuine.opened
  rw [← station.keyed]
  exact (List.getElem?_eq_some_iff.mp held).1

theorem Genuine.header (genuine : Genuine station frame envelope) :
    peekFrameHeader frame = .ok (envelope.authorIndex, envelope.sequence) := by
  obtain ⟨_, _, _, opened, -⟩ := genuine.opened
  exact peek_openFrame C opened

/-- A frame that is admitted at all is genuine, and its envelope is what is offered. -/
theorem admit_genuine (genuine : Genuine station frame envelope) (case : Case) (clock : Clock) :
    admitFrame station frame case clock = offer station envelope case clock := by
  obtain ⟨plain, signature, opened, decoded, signed, subject⟩ := genuine_iff.mp genuine
  simp [admitFrame, opened, decoded, signed, subject]

theorem admit_other (other : ∀ envelope, ¬ Genuine station frame envelope) (case : Case)
    (clock : Clock) : admitFrame station frame case clock = (.nothing, case) := by
  unfold admitFrame
  split
  · rfl
  · rename_i opened
    split
    · rfl
    · rename_i received decoded
      dsimp only
      split
      · rfl
      · rename_i subject
        split
        · rfl
        · rename_i header
          split
          · rfl
          · rename_i signed
            rw [not_or, not_not, not_not, UInt16.toNat_inj] at header
            obtain ⟨rfl, rfl⟩ := header
            refine absurd (genuine_iff.mpr ⟨_, received.signature, opened, decoded, ?_, ?_⟩)
              (other received.envelope)
            · simpa using signed
            · simpa using subject

theorem offer_learned (station : Station C) (envelope : CompactEnvelope) (case : Case)
    (clock : Clock) :
    (offer station envelope case clock).1.verified =
        some (envelope.authorIndex.toNat, envelope.sequence) ∧
      (offer station envelope case clock).1.round = envelope.round := by
  unfold offer
  dsimp only
  split
  · split
    · split <;> exact ⟨rfl, rfl⟩
    · exact ⟨rfl, rfl⟩
  · exact ⟨rfl, rfl⟩

/-- Only a genuine frame is taken as verified, and under its own number. -/
theorem admit_verified {case : Case} {clock : Clock} {member : Nat} {sequence : UInt64}
    (verified : (admitFrame station frame case clock).1.verified = some (member, sequence)) :
    ∃ envelope, Genuine station frame envelope ∧ envelope.authorIndex.toNat = member ∧
      envelope.sequence = sequence := by
  by_cases known : ∃ envelope, Genuine station frame envelope
  · obtain ⟨envelope, genuine⟩ := known
    rw [admit_genuine genuine, (offer_learned station envelope case clock).1] at verified
    cases verified
    exact ⟨envelope, genuine, rfl, rfl⟩
  · rw [admit_other (by simpa using known)] at verified
    cases verified

theorem triggerRound_some {round : RoundId} {opener : Nat} {sequence : UInt64}
    (trigger : triggerRound station frame = some (round, opener, sequence)) :
    ∃ envelope, Genuine station frame envelope ∧ envelope.stage = triggerStage ∧
      envelope.authorIndex.toNat = opener ∧ envelope.sequence = sequence := by
  unfold triggerRound at trigger
  split at trigger
  · cases trigger
  · rename_i opened
    split at trigger
    · cases trigger
    · rename_i received decoded
      dsimp only at trigger
      split at trigger
      · cases trigger
      · rename_i stage
        split at trigger
        · cases trigger
        · rename_i signed
          split at trigger
          · cases trigger
          · rename_i header
            split at trigger
            · cases trigger
            · cases trigger
              rw [not_or, not_not] at stage
              rw [not_or, not_not, not_not, UInt16.toNat_inj] at header
              obtain ⟨rfl, rfl⟩ := header
              refine ⟨received.envelope, genuine_iff.mpr ⟨_, received.signature, opened,
                decoded, ?_, ?_⟩, stage.1, rfl, rfl⟩
              · simpa using signed
              · simpa using stage.2

theorem lateAnchor_some {now : Nat} {late : LateAnchor}
    (anchor : lateAnchor station frame now = some late) :
    ∃ envelope, Genuine station frame envelope ∧ envelope.authorIndex.toNat = late.author ∧
      envelope.sequence = late.sequence := by
  unfold lateAnchor at anchor
  split at anchor
  · cases anchor
  split at anchor
  · cases anchor
  · rename_i opened
    split at anchor
    · cases anchor
    · rename_i received decoded
      dsimp only at anchor
      split at anchor
      · cases anchor
      · split at anchor
        · cases anchor
        · rename_i checks
          split at anchor
          · cases anchor
          · cases anchor
            simp only [not_or, not_not, UInt16.toNat_inj] at checks
            obtain ⟨subject, signed, rfl, rfl, -⟩ := checks
            refine ⟨received.envelope, genuine_iff.mpr ⟨_, received.signature, opened, decoded,
              ?_, ?_⟩, rfl, rfl⟩
            · simpa using signed
            · simpa using subject

/-! ## A station for runs on fixed inputs -/

theorem sevens_length : (List.replicate 32 (7 : UInt8)).length = 32 := by decide

theorem letters_named : "m" ≠ "" ∧ "e" ≠ "" := by decide

def deliberated : Subject where
  mission := "m"
  event := "e"
  revision := 0
  contentHash := ⟨List.replicate 32 7, sevens_length⟩
  startedAt := ⟨1000⟩
  named := letters_named

def crewPolicy : Quorum.Policy :=
  (Quorum.Policy.new [("a", 100), ("b", 100), ("c", 100)]).toOption.get (by decide)

def stationed : Station plain where
  fleet := crew
  policy := crewPolicy
  options := firstMember
  keys := provisioned
  subject := deliberated
  seated := by decide
  sized := by decide
  keyed := by decide
  named := by decide
  scheduled := by decide +kernel

/-- The key of a member of the crew. -/
def crewKey (index : Nat) : SigningKey := ⟨List.replicate 32 (.ofNat (index + 1)), by simp⟩

/-- What a member of the crew puts on the air. -/
def voiced (index : UInt16) (stage verdict : UInt8) (sequence : UInt64) (round : RoundId) : Bytes :=
  let envelope := (CompactEnvelope.new plain crew.missionEpoch event revision
    deliberated.contentHash deliberated.startedAt.secs index stage verdict sequence).inRound round
  let sealed := do
    let signed ← encodeCompact (envelope.sign plain (crewKey index.toNat) deliberated.contentHash)
    sealFrame plain provisioned.group index sequence signed
  sealed.toOption.getD []

end Admission
