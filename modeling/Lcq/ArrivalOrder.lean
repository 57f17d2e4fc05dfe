import Lcq.FirstVotes
import Lcq.SealedFrames
import Lcq.SeenOnce

/-!
# The order in which votes arrive

In a life that begins with nothing of its case in the journal, the votes taken
are the votes received, and the node's own. Whether a vote is counted at once,
held until the close or read again, the case ends up with the same supporters.
-/

namespace ArrivalOrder

open Admission ByteFormat CastVotes Contracts FileSystem FirstVotes JournalRecords JournalState
  LogJournal NodeLoop NodeSteps OrderedMap Program ReplayWindows SafeTurns SealedFrames SeenOnce
  Supporters Transitions Undisturbed Utterances Wire

variable {P : Postcard} {C : Primitives} {station : Station C} {y z : Tally} {frame : Bytes}
  {member : Nat}

/-! ## One's own frames -/

/-- What the signatures promise: what is signed verifies under the key that goes with it. -/
structure Signatures (C : Primitives) : Prop where
  verifies : ∀ key message, C.verifyStrict (C.verifyingKey key) message (C.sign key message) = true

/-- A genuine binding frame of a member that says support. -/
def Backs (station : Station C) (member : Nat) (frame : Bytes) : Prop :=
  ∃ envelope, Genuine station frame envelope ∧ envelope.authorIndex.toNat = member ∧
    envelope.stage = stageCode .bindingSupport ∧ verdictOf envelope.verdict = some .support

theorem Backs.cast (backs : Backs station member frame) : castBy station frame = some member := by
  obtain ⟨envelope, genuine, author, stage, verdict⟩ := backs
  exact castBy_eq_some.mpr ⟨envelope, _, genuine, author, stage, verdict⟩

theorem authorOf_own (station : Station C) :
    (authorOf station.options.index).toNat = station.options.index := by
  have limit : Heard.capacity = 64 := rfl
  have seated := station.seated
  have sized := station.sized
  have small : station.options.index < 65536 := by omega
  rw [authorOf, if_pos small, UInt16.toNat_ofNat_of_lt' small]

/-- What a member utters is genuine. -/
theorem utter_genuine (aead : Aead C) (signatures : Signatures C) {env : Env}
    {stage verdict : UInt8} {heard : Heard} {round : RoundId} {d e : Desk} {r : UInt64 × Bytes}
    (ok : utter P C station.fleet station.options station.keys env station.subject stage verdict
      heard round d = (.ok r, e)) :
    ∃ envelope, Genuine station r.2 envelope ∧
      envelope.authorIndex.toNat = station.options.index ∧ envelope.stage = stage ∧
      envelope.verdict = verdict := by
  obtain ⟨sequence, u, -, rest⟩ := andThen_eq_ok ok
  obtain ⟨plaintext, v, encoded, rest⟩ := andThen_eq_ok rest
  obtain ⟨bytes, w, made, rest⟩ := andThen_eq_ok rest
  cases rest
  generalize envelopeIs : ((CompactEnvelope.new C station.fleet.missionEpoch event revision
    station.subject.contentHash station.subject.startedAt.secs (authorOf station.options.index)
    stage verdict sequence).acknowledging heard).inRound round = envelope at encoded
  obtain ⟨text, whole, written, sealing, -, opens, decodes, -⟩ := frame_round_trip C aead
    (envelope.sign C station.keys.signing station.subject.contentHash) station.keys.group
    (authorOf station.options.index) sequence
  rw [written] at encoded
  cases encoded
  simp only [Utterances.sealing, bind_apply, change_apply, andThen_ok, sealing] at made
  cases made
  have author := authorOf_own station
  subst envelopeIs
  refine ⟨_, ⟨⟨_, _, _, opens, decodes, ?_, signatures.verifies _ _⟩, rfl, rfl, rfl, rfl, rfl⟩,
    author, rfl, rfl⟩
  show station.keys.keyring[(authorOf station.options.index).toNat]? = _
  rw [author]
  exact station.named

/-- What is built for a stage is genuine and says support, if it is no vote cast before. -/
theorem build_genuine (aead : Aead C) (signatures : Signatures C) {envs : Nat → Env}
    {stage : Stage} {heard : Heard} {round : RoundId} {d e : Desk}
    (fresh : stage = .bindingSupport → hasVoted d.running.journal station.subject
      (station.memberId station.options.index) = false)
    (ok : build P C station.fleet station.options station.keys envs stage station.subject heard
      round d = (.ok frame, e)) :
    ∃ envelope, Genuine station frame envelope ∧
      envelope.authorIndex.toNat = station.options.index ∧ envelope.stage = stageCode stage ∧
      envelope.verdict = 1 := by
  have unvoted : ¬ (stage = .bindingSupport ∧ hasVoted d.running.journal station.subject
      (station.fleet.id station.options.index) = true) := by
    rintro ⟨binding, voted⟩
    rw [show hasVoted d.running.journal station.subject (station.fleet.id station.options.index) =
      false from fresh binding] at voted
    cases voted
  simp only [build, bind_apply, read_apply, andThen_ok] at ok
  rw [if_neg unvoted] at ok
  obtain ⟨uttered, u, ran, rest⟩ := andThen_eq_ok ok
  have genuine := utter_genuine aead signatures ran
  split at rest
  · cases rest
  · split at rest
    · obtain ⟨-, v, -, rest⟩ := andThen_eq_ok rest
      cases rest
      exact genuine
    · cases rest
      exact genuine

/-! ## What the windows have seen -/

/-- What makes a window take a number of a member's for a replay: a mark the life began with,
or a genuine frame received that has this number, or one too far ahead of it. -/
def Reason (station : Station C) (seen : Map UInt16 UInt64) (received : List Bytes)
    (member : Nat) (sequence : UInt64) : Prop :=
  (∃ mark, seen[UInt16.ofNat member]? = some mark ∧ sequence.toNat ≤ mark.toNat) ∨
    ∃ other ∈ received, ∃ envelope, Genuine station other envelope ∧
      envelope.authorIndex.toNat = member ∧
      (sequence = envelope.sequence ∨ sequence.toNat + 64 ≤ envelope.sequence.toNat)

theorem Reason.grow {seen : Map UInt16 UInt64} {received more : List Bytes} {sequence : UInt64}
    (reason : Reason station seen received member sequence) (grown : received ⊆ more) :
    Reason station seen more member sequence := by
  rcases reason with mark | ⟨other, mem, found⟩
  · exact Or.inl mark
  · exact Or.inr ⟨other, grown mem, found⟩

/-- The windows of the other members have seen nothing without a reason. -/
structure Windowed (station : Station C) (seen : Map UInt16 UInt64) (received : List Bytes)
    (windows : List ReplayWindow) : Prop where
  fair : ∀ w ∈ windows, Fair w
  reasons : ∀ member w sequence, member ≠ station.options.index → windows[member]? = some w →
    w.seen sequence = true → Reason station seen received member sequence

/-- A mark adds its number to what is seen, and what it puts out of the window. -/
theorem mark_seen {w : ReplayWindow} (fair : Fair w) {s x : UInt64}
    (seen : (w.mark s).seen x = true) :
    w.seen x = true ∨ x = s ∨ x.toNat + 64 ≤ s.toNat := by
  obtain ⟨known, knows⟩ := fair
  by_cases inside : ∀ highest, w.highest = some highest → highest.toNat < s.toNat + 64
  · have marked := knows_mark knows inside
    rw [seen_iff knows]
    rcases (seen_iff marked x).mp seen with (same | here) | ⟨highest, newest, far⟩
    · exact Or.inr (Or.inl same)
    · exact Or.inl (Or.inl here)
    · rcases marked.newest highest newest with rfl | old
      · exact Or.inr (Or.inr far)
      · obtain ⟨top, before, le⟩ := knows.top highest old
        exact Or.inl (Or.inr ⟨top, before, by omega⟩)
  · push Not at inside
    obtain ⟨highest, newest, far⟩ := inside
    left
    rw [mark_outside newest far] at seen
    exact seen

theorem Windowed.grow {seen : Map UInt16 UInt64} {received more : List Bytes}
    {windows : List ReplayWindow} (windowed : Windowed station seen received windows)
    (grown : received ⊆ more) : Windowed station seen more windows :=
  ⟨windowed.fair, fun member w sequence other here known =>
    (windowed.reasons member w sequence other here known).grow grown⟩

/-- A mark for a reason. -/
theorem Windowed.modify {seen : Map UInt16 UInt64} {received : List Bytes}
    {windows : List ReplayWindow} (windowed : Windowed station seen received windows)
    (member : Nat) (sequence : UInt64)
    (reason : member ≠ station.options.index → ∃ frame ∈ received, ∃ envelope,
      Genuine station frame envelope ∧ envelope.authorIndex.toNat = member ∧
        envelope.sequence = sequence) :
    Windowed station seen received (windows.modify member fun w => w.mark sequence) := by
  constructor
  · intro w mem
    obtain ⟨i, here⟩ := List.mem_iff_getElem?.mp mem
    rw [List.getElem?_modify] at here
    obtain ⟨old, was, rfl⟩ := Option.map_eq_some_iff.mp here
    have before := windowed.fair old (List.mem_of_getElem? was)
    split
    · exact (fair_mark before sequence).1
    · exact before
  · intro other w number foreign here known
    rw [List.getElem?_modify] at here
    obtain ⟨old, was, rfl⟩ := Option.map_eq_some_iff.mp here
    split at known
    · rename_i same
      subst same
      rcases mark_seen (windowed.fair old (List.mem_of_getElem? was)) known with seen | new
      · exact windowed.reasons member old number foreign was seen
      · obtain ⟨frame, mem, envelope, genuine, author, rfl⟩ := reason foreign
        exact Or.inr ⟨frame, mem, envelope, genuine, author, new⟩
    · exact windowed.reasons other old number foreign was known

/-! ## What reading a frame takes -/

/-- At most the vote the frame casts has been taken, counted or held. -/
structure Grew (station : Station C) (frame : Bytes) (y z : Tally) : Prop where
  received : z.trace.received = y.trace.received
  taken : z.trace.taken = y.trace.taken ∨ ∃ member, castBy station frame = some member ∧
    z.trace.taken = y.trace.taken ++ [(member, frame)]
  early : ∀ (member : Nat) kept, z.early[member]? = some kept →
    y.early[member]? = some kept ∨ (kept = frame ∧ (member, frame) ∈ z.trace.taken)
  counted : y.trace.counted ⊆ z.trace.counted
  closed : z.closed = y.closed
  admitted : z.ownAdmitted = y.ownAdmitted
  phase : z.case.phase = y.case.phase

variable (station) in
theorem grew_offered (y : Tally) (frame : Bytes) (clock : Clock) :
    Grew station frame y (y.offered station frame clock).2 := by
  rcases offered_cases station y frame clock with ⟨-, listed, same⟩ |
    ⟨member, o, case, -, casts, ok, grown, same⟩
  · rw [same]
    exact ⟨rfl, Or.inl rfl, fun _ _ here => Or.inl here, fun _ mem => mem, rfl, rfl, rfl⟩
  · obtain ⟨-, -, -, rfl⟩ := accept_timely ok grown
    rw [same]
    exact ⟨rfl, Or.inr ⟨member, castBy_casts casts, rfl⟩, fun _ _ here => Or.inl here,
      fun _ mem => List.mem_append_left _ mem, rfl, rfl, rfl⟩

/-- The frame is offered, windows may be marked, and it is held if it came too early. -/
theorem grew_heard (y : Tally) (frame : Bytes) (clock : Clock) (windows : List ReplayWindow) :
    Grew station frame y (Tally.held { (y.offered station frame clock).2 with windows }
      (y.offered station frame clock).1 frame) := by
  have offered := grew_offered station y frame clock
  have kept : Grew station frame y { (y.offered station frame clock).2 with windows } :=
    ⟨offered.received, offered.taken, offered.early, offered.counted, offered.closed,
      offered.admitted, offered.phase⟩
  unfold Tally.held
  split
  · exact kept
  rename_i member sequence found
  split
  swap
  · exact kept
  rename_i refused
  obtain ⟨same, -, -, casts⟩ := offered_early refused.1
  rw [same]
  refine ⟨rfl, Or.inr ⟨member, casts member sequence found, rfl⟩, fun other frame' here => ?_,
    fun _ mem => mem, rfl, rfl, rfl⟩
  dsimp only [Tally.hasTaken] at here
  rw [get_insert] at here
  split at here
  · rename_i own
    cases here
    subst own
    exact Or.inr ⟨rfl, List.mem_append_right _ List.mem_cons_self⟩
  · exact Or.inl here

/-- A vote that is read in time is taken, if its author has not voted. -/
theorem heard_taken {clock : Clock} (counted : Counted station y)
    (cast : castBy station frame = some member) (timely : y.case.untimely clock = false)
    (windows : List ReplayWindow) :
    (member, frame) ∈ (Tally.held { (y.offered station frame clock).2 with windows }
      (y.offered station frame clock).1 frame).trace.taken ∨
      station.memberId member ∈ y.case.voted := by
  cases phase : y.case.phase with
  | consulting =>
    left
    have valid : certainlyAfter (clock 0) y.case.expiresAt = false := by
      rw [Case.untimely, Bool.or_eq_false_iff] at timely
      exact timely.1
    obtain ⟨same, refused, stage, sequence, found⟩ :=
      offered_consulting cast counted.subject phase valid
    rw [same, Tally.held, found]
    dsimp only
    rw [if_pos ⟨refused, stage⟩]
    exact List.mem_append_right _ List.mem_cons_self
  | collectingVotes =>
    rcases offered_cases station y frame clock with ⟨none, -⟩ |
      ⟨other, o, case, -, casts, ok, grown, same⟩
    · right
      refine (offered_uncounted cast counted.subject phase none).resolve_left ?_
      rw [timely]
      exact Bool.false_ne_true
    · left
      have author : other = member := Option.some.inj ((castBy_casts casts).symm.trans cast)
      subst author
      have grew : (other, frame) ∈ (y.offered station frame clock).2.trace.taken := by
        rw [same]
        exact List.mem_append_right _ List.mem_cons_self
      unfold Tally.held
      split
      · exact grew
      · split
        · exact List.mem_append_left _ grew
        · exact grew

/-! ## What is taken has arrived -/

/-- The votes taken of the others are those received, and the node's own is taken once it has
been admitted. -/
structure Arrived (station : Station C) (y : Tally) : Prop where
  reached : ∀ frame ∈ y.trace.received, ∀ member, castBy station frame = some member →
    member ≠ station.options.index → (member, frame) ∈ y.trace.taken
  back : ∀ p ∈ y.trace.taken, p.1 ≠ station.options.index → p.2 ∈ y.trace.received
  one : ∀ frame ∈ y.trace.received, ∀ other ∈ y.trace.received, ∀ member,
    member ≠ station.options.index → castBy station frame = some member →
      castBy station other = some member → frame = other
  held : ∀ (member : Nat) frame, y.early[member]? = some frame →
    castBy station frame = none ∨ (member, frame) ∈ y.trace.taken
  shut : y.closed = true → y.case.phase = .collectingVotes
  own : ∀ p ∈ y.trace.taken, p.1 = station.options.index → y.ownAdmitted .bindingSupport = true
  admitted : y.ownAdmitted .bindingSupport = true →
    ∃ frame, (station.options.index, frame) ∈ y.trace.counted ∧
      Backs station station.options.index frame

/-- A vote that is going to be read: the node's own has been admitted before, any other member's
is the only one of the member's, and is not behind the window. -/
structure Expected (station : Station C) (seen : Map UInt16 UInt64) (y : Tally) (frame : Bytes)
    (member : Nat) : Prop where
  own : member = station.options.index → y.ownAdmitted .bindingSupport = true
  only : member ≠ station.options.index →
    ∀ other ∈ y.trace.received, castBy station other = some member → other = frame
  above : member ≠ station.options.index → ∀ envelope, Genuine station frame envelope →
    ∀ mark, seen[UInt16.ofNat member]? = some mark → mark.toNat < envelope.sequence.toNat
  within : member ≠ station.options.index → ∀ envelope, Genuine station frame envelope →
    ∀ other ∈ y.trace.received, ∀ second, Genuine station other second →
      second.authorIndex.toNat = member →
        other = frame ∨ (second.sequence ≠ envelope.sequence ∧
          second.sequence.toNat < envelope.sequence.toNat + 64)

/-- A frame that casts a vote is genuine, and is noted as received. -/
theorem received_cast (y : Tally) (cast : castBy station frame = some member) :
    (y.hasReceived station frame).trace.received = y.trace.received ++ [frame] := by
  obtain ⟨envelope, -, genuine, -⟩ := castBy_eq_some.mp cast
  rw [Tally.hasReceived, verified_eq_some.mpr genuine]

variable (station) in
theorem received_subset (y : Tally) (frame : Bytes) :
    y.trace.received ⊆ (y.hasReceived station frame).trace.received := by
  unfold Tally.hasReceived
  split
  · exact fun _ mem => mem
  · exact fun _ mem => List.mem_append_left _ mem

/-- What else is noted as received is the frame. -/
theorem received_mem {other : Bytes} (mem : other ∈ (y.hasReceived station frame).trace.received) :
    other ∈ y.trace.received ∨ other = frame := by
  unfold Tally.hasReceived at mem
  split at mem
  · exact Or.inl mem
  · exact (List.mem_append.mp mem).imp_right List.mem_singleton.mp

/-- A vote of another member that has been taken before is the one that is expected. -/
theorem taken_expected {seen : Map UInt16 UInt64} (firsts : Firsts station y)
    (arrived : Arrived station y) (expected : Expected station seen y frame member)
    (foreign : member ≠ station.options.index)
    (voted : station.memberId member ∈ y.case.voted) (small : member < station.fleet.size) :
    (member, frame) ∈ y.trace.taken := by
  obtain ⟨other, counted⟩ := (voted_iff firsts.counted small).mp voted
  have taken := lookup_mem (firsts.first _ counted)
  have same := expected.only foreign other (arrived.back _ taken foreign) (firsts.voters _ taken)
  subst same
  exact taken

/-- A frame that casts no vote, or whose vote has been taken, is noted as received. -/
theorem Arrived.hasReceived (arrived : Arrived station y)
    (known : ∀ member, castBy station frame = some member → member ≠ station.options.index →
      (member, frame) ∈ y.trace.taken) : Arrived station (y.hasReceived station frame) := by
  have more := received_subset station y frame
  have reached : ∀ other ∈ (y.hasReceived station frame).trace.received, ∀ member,
      castBy station other = some member → member ≠ station.options.index →
        (member, other) ∈ y.trace.taken := by
    intro other mem member cast foreign
    rcases received_mem mem with old | rfl
    · exact arrived.reached other old member cast foreign
    · exact known member cast foreign
  have old : ∀ other ∈ (y.hasReceived station frame).trace.received, ∀ member,
      member ≠ station.options.index → castBy station other = some member →
        other ∈ y.trace.received := by
    intro other mem member foreign cast
    exact arrived.back _ (reached other mem member cast foreign) foreign
  obtain ⟨received, same⟩ := hasReceived_rest station y frame
  rw [same] at more reached old ⊢
  exact ⟨reached, fun p mem foreign => more (arrived.back p mem foreign),
    fun first mem second mem' member foreign cast cast' =>
      arrived.one first (old first mem member foreign cast) second
        (old second mem' member foreign cast') member foreign cast cast',
    arrived.held, arrived.shut, arrived.own, arrived.admitted⟩

/-- A frame is read that is expected, if it casts a vote at all. -/
theorem Arrived.heard {seen : Map UInt16 UInt64} {clock : Clock} (firsts : Firsts station y)
    (arrived : Arrived station y)
    (expected : ∀ member, castBy station frame = some member →
      Expected station seen y frame member ∧ y.case.untimely clock = false)
    (grew : Grew station frame (y.hasReceived station frame) z)
    (taken : ∀ member, castBy station frame = some member → y.case.untimely clock = false →
      (member, frame) ∈ z.trace.taken ∨ station.memberId member ∈ y.case.voted) :
    Arrived station z := by
  have more := received_subset station y frame
  have new (member : Nat) (cast : castBy station frame = some member) :
      frame ∈ z.trace.received := by
    rw [grew.received, received_cast y cast]
    exact List.mem_append_right _ List.mem_cons_self
  have noted : ∀ other ∈ z.trace.received, other ∈ y.trace.received ∨ other = frame := by
    intro other mem
    rw [grew.received] at mem
    exact received_mem mem
  rw [← grew.received] at more
  obtain ⟨received, same⟩ := hasReceived_rest station y frame
  obtain ⟨-, grown, early, counted, closed, admitted, phase⟩ := grew
  rw [same] at grown early counted closed admitted phase
  dsimp only at grown early counted closed admitted phase
  have sub : y.trace.taken ⊆ z.trace.taken := by
    rcases grown with same | ⟨member, -, same⟩
    · rw [same]
      exact fun _ mem => mem
    · rw [same]
      exact fun _ mem => List.mem_append_left _ mem
  have fresh : ∀ p ∈ z.trace.taken, p ∈ y.trace.taken ∨
      (p.2 = frame ∧ castBy station frame = some p.1) := by
    intro p mem
    rcases grown with same | ⟨member, cast, same⟩
    · rw [same] at mem
      exact Or.inl mem
    · rw [same] at mem
      rcases List.mem_append.mp mem with old | last
      · exact Or.inl old
      · cases List.mem_singleton.mp last
        exact Or.inr ⟨rfl, cast⟩
  refine ⟨?_, ?_, ?_, ?_, ?_, ?_, ?_⟩
  · intro other mem member cast foreign
    rcases noted other mem with old | rfl
    · exact sub (arrived.reached other old member cast foreign)
    · obtain ⟨expects, timely⟩ := expected member cast
      rcases taken member cast timely with here | voted
      · exact here
      · exact sub (taken_expected firsts arrived expects foreign voted (castBy_lt cast))
  · intro p mem foreign
    rcases fresh p mem with old | ⟨last, cast⟩
    · exact more (arrived.back p old foreign)
    · rw [last]
      exact new p.1 cast
  · intro first mem second mem' member foreign cast cast'
    rcases noted first mem with old | rfl
    · rcases noted second mem' with old' | rfl
      · exact arrived.one first old second old' member foreign cast cast'
      · exact (expected member cast').1.only foreign first old cast
    · rcases noted second mem' with old' | rfl
      · exact ((expected member cast).1.only foreign second old' cast').symm
      · rfl
  · intro member kept here
    rcases early member kept here with old | ⟨rfl, mem⟩
    · exact (arrived.held member kept old).imp_right fun mem => sub mem
    · exact Or.inr mem
  · rw [closed, phase]
    exact arrived.shut
  · intro p mem author
    rw [admitted]
    rcases fresh p mem with old | ⟨-, cast⟩
    · exact arrived.own p old author
    · exact (expected p.1 cast).1.own author
  · rw [admitted]
    intro before
    obtain ⟨vote, mem, backs⟩ := arrived.admitted before
    exact ⟨vote, counted mem, backs⟩

/-! ## At the radio -/

section conditions

variable (station) (seen : Map UInt16 UInt64)

/-- A vote is the only one of its author among the frames received, and its number is above the
mark the life began with, no other frame's of its author and not behind the window. -/
def single (received : List Bytes) (frame : Bytes) (envelope : CompactEnvelope) : Bool :=
  (seen[envelope.authorIndex]?.all fun mark => decide (mark < envelope.sequence)) &&
  received.all fun other =>
    match verified station other with
    | none => true
    | some second =>
      decide (other = frame) || decide (second.authorIndex ≠ envelope.authorIndex) ||
        (decide (castBy station other = none) &&
          decide (second.sequence ≠ envelope.sequence) &&
          decide (second.sequence.toNat < envelope.sequence.toNat + 64))

/-- If the frame that is read casts a vote, it is the node's own, admitted before, or the single
one of another member; and unless it is dropped, it is offered before expiry. -/
def orderly (t : Turn) (anchor : Option Nat) (y : Tally) : Bool :=
  match t.received with
  | none => true
  | some frame =>
    match verified station frame with
    | none => true
    | some envelope =>
      (castBy station frame).isNone ||
      !(anchor.isSome || (lateAnchor station frame (t.now .anchor 0)).isSome) ||
      ((if envelope.authorIndex.toNat = station.options.index then y.ownAdmitted .bindingSupport
        else single station seen y.trace.received frame envelope) &&
      (dropped station frame y || !y.case.untimely (atOffer t anchor)))

end conditions

theorem single_expected {seen : Map UInt16 UInt64} {received : List Bytes}
    {envelope : CompactEnvelope} (isSingle : single station seen received frame envelope = true)
    {other : Bytes} (mem : other ∈ received) {second : CompactEnvelope}
    (genuine : Genuine station other second)
    (author : second.authorIndex = envelope.authorIndex) :
    other = frame ∨ (castBy station other = none ∧ second.sequence ≠ envelope.sequence ∧
      second.sequence.toNat < envelope.sequence.toNat + 64) := by
  rw [single, Bool.and_eq_true, List.all_eq_true] at isSingle
  have found := isSingle.2 other mem
  rw [verified_eq_some.mpr genuine] at found
  simpa [author, and_assoc] using found

theorem expected_radio {seen : Map UInt16 UInt64} {t : Turn} {anchor : Option Nat}
    (received : t.received = some frame)
    (inOrder : orderly station seen t anchor y = true)
    (read : (anchor.isSome || (lateAnchor station frame (t.now .anchor 0)).isSome) = true)
    (cast : castBy station frame = some member) :
    Expected station seen y frame member ∧
      (dropped station frame y = false → y.case.untimely (atOffer t anchor) = false) := by
  obtain ⟨envelope, verdict, genuine, author, -⟩ := castBy_eq_some.mp cast
  simp only [orderly, received, verified_eq_some.mpr genuine, cast, Option.isNone_some, read,
    Bool.not_true, Bool.or_self, Bool.false_or, Bool.and_eq_true, author] at inOrder
  obtain ⟨lawful, timely⟩ := inOrder
  refine ⟨?_, fun undropped => by simpa [undropped] using timely⟩
  have isSingle (foreign : member ≠ station.options.index) :
      single station seen y.trace.received frame envelope = true := by
    rwa [if_neg foreign] at lawful
  have unique {e : CompactEnvelope} (here : Genuine station frame e) : e = envelope :=
    here.unique genuine
  refine ⟨fun own => by rwa [if_pos own] at lawful, ?_, ?_, ?_⟩
  · intro foreign other mem casts
    obtain ⟨second, -, here, index, -⟩ := castBy_eq_some.mp casts
    have same : second.authorIndex = envelope.authorIndex :=
      UInt16.toNat_inj.mp (index.trans author.symm)
    rcases single_expected (isSingle foreign) mem here same with same | ⟨none, -⟩
    · exact same
    · rw [casts] at none
      cases none
  · intro foreign e here mark marked
    rw [unique here]
    have above := isSingle foreign
    rw [single, Bool.and_eq_true] at above
    rw [← author, UInt16.ofNat_toNat] at marked
    rw [marked, Option.all_some, decide_eq_true_eq, UInt64.lt_iff_toNat_lt] at above
    exact above.1
  · intro foreign e here other mem second there index
    rw [unique here]
    have same : second.authorIndex = envelope.authorIndex :=
      UInt16.toNat_inj.mp (index.trans author.symm)
    exact (single_expected (isSingle foreign) mem there same).imp_right And.right

/-- A vote that is expected and dropped by its header has been received before. -/
theorem dropped_taken {seen : Map UInt16 UInt64}
    (windowed : Windowed station seen y.trace.received y.windows) (arrived : Arrived station y)
    (expected : Expected station seen y frame member) (cast : castBy station frame = some member)
    (foreign : member ≠ station.options.index) (gone : dropped station frame y = true) :
    (member, frame) ∈ y.trace.taken := by
  obtain ⟨envelope, verdict, genuine, author, -⟩ := castBy_eq_some.mp cast
  have inside : ¬ station.fleet.size ≤ envelope.authorIndex.toNat :=
    Nat.not_le.mpr genuine.author_lt
  have replayed : isReplay frame y.windows = true := by
    simpa [dropped, fromOutsideTheFleet, genuine.header, inside] using gone
  rw [isReplay, genuine.header] at replayed
  dsimp only at replayed
  split at replayed
  · cases replayed
  rename_i w here
  rw [author] at here
  have again : frame ∈ y.trace.received := by
    rcases windowed.reasons member w envelope.sequence foreign here replayed with
      ⟨mark, marked, le⟩ | ⟨other, mem, second, there, index, same | far⟩
    · exact absurd (expected.above foreign envelope genuine mark marked) (by omega)
    · rcases expected.within foreign envelope genuine other mem second there index with
        rfl | ⟨differs, -⟩
      · exact mem
      · exact absurd same.symm differs
    · rcases expected.within foreign envelope genuine other mem second there index with
        rfl | ⟨-, near⟩
      · exact mem
      · exact absurd near (by omega)
  exact arrived.reached frame again member cast foreign

theorem Arrived.marked (arrived : Arrived station y) (member : Nat) (sequence : UInt64) :
    Arrived station (y.marked member sequence) :=
  ⟨arrived.reached, arrived.back, arrived.one, arrived.held, arrived.shut, arrived.own,
    arrived.admitted⟩

variable (station) in
/-- Reading a frame is offering it, marking windows or not, and holding it or not. -/
theorem reading_held (y : Tally) (frame : Bytes) (clock : Clock) :
    ∃ windows, NodeSteps.reading station y frame clock =
        Tally.held { (y.offered station frame clock).2 with windows }
          (y.offered station frame clock).1 frame ∧
      (windows = y.windows ∨ ∃ envelope, Genuine station frame envelope ∧
        windows = y.windows.modify envelope.authorIndex.toNat
          fun w => w.mark envelope.sequence) := by
  have same : (y.offered station frame clock).2.windows = y.windows := offered_windows y frame clock
  unfold NodeSteps.reading
  dsimp only
  split
  · rename_i none
    refine ⟨(y.offered station frame clock).2.windows, ?_, Or.inl same⟩
    rw [Tally.held, none]
  · rename_i member sequence found
    have verified := found
    rw [QuietParts.offered_fst] at verified
    obtain ⟨envelope, genuine, rfl, rfl⟩ := admit_verified verified
    refine ⟨_, rfl, Or.inr ⟨envelope, genuine, ?_⟩⟩
    rw [same]

variable {t : Turn} {seen : Map UInt16 UInt64} {anchor : Nat}

theorem Arrived.hearing (firsts : Firsts station y) (arrived : Arrived station y)
    (windowed : Windowed station seen y.trace.received y.windows)
    (inOrder : orderly station seen t (some anchor) y = true) :
    Arrived station (NodeSteps.hearing station t y) := by
  unfold NodeSteps.hearing
  split
  · exact arrived
  rename_i frame received
  have expected (member : Nat) (cast : castBy station frame = some member) :=
    expected_radio received inOrder rfl cast
  dsimp only
  split
  · rename_i gone
    refine arrived.hasReceived fun member cast foreign => ?_
    exact dropped_taken windowed arrived (expected member cast).1 cast foreign
      (by simpa [dropped] using gone)
  rename_i undropped
  have offered : dropped station frame y = false := by simpa [dropped] using undropped
  split
  · rename_i opened
    refine (arrived.hasReceived fun member cast => ?_).marked _ _
    rw [trigger_uncast opened] at cast
    cases cast
  · obtain ⟨windows, same, -⟩ :=
      reading_held station (y.hasReceived station frame) frame (t.clock .received)
    obtain ⟨case, -, -⟩ := hasReceived_same station y frame
    rw [same]
    refine arrived.heard firsts (fun member cast => ⟨(expected member cast).1,
      (expected member cast).2 offered⟩) (grew_heard _ _ _ _) fun member cast timely => ?_
    rw [← case] at timely ⊢
    exact heard_taken (firsts.counted.hasReceived frame) cast timely windows

theorem Arrived.awaiting (firsts : Firsts station y) (arrived : Arrived station y)
    (inOrder : orderly station seen t none y = true) :
    Arrived station (NodeSteps.awaiting station t y) := by
  unfold NodeSteps.awaiting
  split
  · exact arrived
  rename_i frame received
  split
  · exact arrived
  rename_i undropped
  split
  · rename_i opened
    refine (arrived.marked _ _).hasReceived fun member cast => ?_
    rw [trigger_uncast opened] at cast
    cases cast
  split
  · exact arrived
  · rename_i late anchored
    have expected (member : Nat) (cast : castBy station frame = some member) :=
      expected_radio received inOrder (by rw [anchored]; rfl) cast
    have offered : dropped station frame y = false := by simpa [dropped] using undropped
    have marked := firsts.marked late.author late.sequence
    obtain ⟨case, -, -⟩ := hasReceived_same station (y.marked late.author late.sequence) frame
    have expected' (member : Nat) (cast : castBy station frame = some member) :
        Expected station seen (y.marked late.author late.sequence) frame member ∧
          (y.marked late.author late.sequence).case.untimely (t.clock .anchor) = false := by
      obtain ⟨⟨own, only, above, within⟩, timely⟩ := expected member cast
      exact ⟨⟨own, only, above, within⟩, timely offered⟩
    refine (arrived.marked late.author late.sequence).heard marked expected'
      (grew_heard _ _ _ _) fun member cast timely => ?_
    rw [← case] at timely ⊢
    exact heard_taken (marked.counted.hasReceived frame) cast timely _

theorem held_received (y : Tally) (learned : Admitted) (frame : Bytes) :
    (y.held learned frame).trace.received = y.trace.received := by
  obtain ⟨early, taken, same⟩ := held_rest y learned frame
  rw [same]

/-- What verified and is marked has just been received. -/
theorem Windowed.received {windows : List ReplayWindow} {envelope : CompactEnvelope}
    (windowed : Windowed station seen y.trace.received windows)
    (genuine : Genuine station frame envelope) :
    Windowed station seen (y.hasReceived station frame).trace.received
      (windows.modify envelope.authorIndex.toNat fun w => w.mark envelope.sequence) := by
  refine (windowed.grow (received_subset station y frame)).modify _ _ fun _ =>
    ⟨frame, ?_, envelope, genuine, rfl, rfl⟩
  rw [Tally.hasReceived, verified_eq_some.mpr genuine]
  exact List.mem_append_right _ List.mem_cons_self

theorem Windowed.hearing (windowed : Windowed station seen y.trace.received y.windows) :
    Windowed station seen (NodeSteps.hearing station t y).trace.received
      (NodeSteps.hearing station t y).windows := by
  unfold NodeSteps.hearing
  split
  · exact windowed
  rename_i frame _
  have windows : (y.hasReceived station frame).windows = y.windows := hasReceived_windows y frame
  have more := windowed.grow (received_subset station y frame)
  dsimp only
  split
  · rw [windows]
    exact more
  split
  · rename_i opened
    obtain ⟨envelope, genuine, -, rfl, rfl⟩ := triggerRound_some opened
    have marked := windowed.received genuine
    rw [← windows] at marked
    exact marked
  · obtain ⟨marks, same, grown⟩ :=
      reading_held station (y.hasReceived station frame) frame (t.clock .received)
    rw [same, held_windows, held_received]
    dsimp only
    rw [(grew_offered station (y.hasReceived station frame) frame (t.clock .received)).received]
    rcases grown with rfl | ⟨envelope, genuine, rfl⟩
    · rw [windows]
      exact more
    · rw [windows]
      exact windowed.received genuine

theorem Windowed.awaiting (windowed : Windowed station seen y.trace.received y.windows) :
    Windowed station seen (NodeSteps.awaiting station t y).trace.received
      (NodeSteps.awaiting station t y).windows := by
  unfold NodeSteps.awaiting
  split
  · exact windowed
  rename_i frame _
  split
  · exact windowed
  split
  · rename_i opened
    obtain ⟨envelope, genuine, -, rfl, rfl⟩ := triggerRound_some opened
    have windows : ((y.marked envelope.authorIndex.toNat envelope.sequence).hasReceived station
        frame).windows = (y.marked envelope.authorIndex.toNat envelope.sequence).windows :=
      hasReceived_windows _ frame
    have marked : Windowed station seen
        (y.marked envelope.authorIndex.toNat envelope.sequence).trace.received y.windows := windowed
    rw [windows]
    exact marked.received genuine
  split
  · exact windowed
  · rename_i late anchored
    obtain ⟨envelope, genuine, author, sequence⟩ := lateAnchor_some anchored
    rw [NodeSteps.anchoring, held_windows, held_received, offered_windows,
      (grew_offered station _ frame (t.clock .anchor)).received, hasReceived_windows, ← author,
      ← sequence]
    have marked : Windowed station seen
        (y.marked envelope.authorIndex.toNat envelope.sequence).trace.received y.windows := windowed
    exact marked.received genuine

/-! ## The close -/

/-- What a drain leaves as it was. -/
structure Shutting (y z : Tally) : Prop where
  received : z.trace.received = y.trace.received
  windows : z.windows = y.windows
  admitted : z.ownAdmitted = y.ownAdmitted

variable (station) in
theorem draining_shutting (y : Tally) (t : Turn) (p : Nat × Bytes) :
    Shutting y (NodeSteps.draining station t y p) := by
  obtain ⟨lapsed, same⟩ := draining_rest y (t.clock (.drained p.1))
  rw [NodeSteps.draining, same]
  have grew := grew_offered station { y with trace := { y.trace with lapsed } } p.2
    (t.clock (.drained p.1))
  exact ⟨grew.received, offered_windows _ _ _, grew.admitted⟩

variable (station) in
theorem closing_shutting (y : Tally) (t : Turn) :
    Shutting y (NodeSteps.closing station t y) := by
  refine closing_keeps (I := Shutting y) (fun {z} p shut => ?_) ⟨rfl, rfl, rfl⟩
    fun case _ => ⟨rfl, rfl, rfl⟩
  obtain ⟨received, windows, admitted⟩ := draining_shutting station z t p
  exact ⟨received.trans shut.received, windows.trans shut.windows,
    admitted.trans shut.admitted⟩

/-- A frame is offered that casts no vote, or whose vote has been taken under its author. -/
theorem Arrived.again {clock : Clock} (arrived : Arrived station y)
    (known : ∀ member, castBy station frame = some member → (member, frame) ∈ y.trace.taken) :
    Arrived station (y.offered station frame clock).2 := by
  rcases offered_cases station y frame clock with ⟨-, listed, same⟩ |
    ⟨member, o, case, -, casts, ok, grown, same⟩
  · rw [same]
    exact ⟨arrived.reached, arrived.back, arrived.one, arrived.held, arrived.shut, arrived.own,
      arrived.admitted⟩
  · obtain ⟨phase, -, -, rfl⟩ := accept_timely ok grown
    have mem := known member (castBy_casts casts)
    have fresh : ∀ p ∈ y.trace.taken ++ [(member, frame)], p ∈ y.trace.taken := by
      intro p here
      rcases List.mem_append.mp here with old | last
      · exact old
      · rw [List.mem_singleton.mp last]
        exact mem
    rw [same]
    refine ⟨fun other here voter cast foreign =>
      List.mem_append_left _ (arrived.reached other here voter cast foreign),
      fun p here => arrived.back p (fresh p here), arrived.one, fun voter kept here =>
        (arrived.held voter kept here).imp_right fun mem => List.mem_append_left _ mem,
      fun _ => phase, fun p here => arrived.own p (fresh p here), fun before => ?_⟩
    obtain ⟨vote, here, backs⟩ := arrived.admitted before
    exact ⟨vote, List.mem_append_left _ here, backs⟩

theorem Grew.taken_subset (grew : Grew station frame y z) : y.trace.taken ⊆ z.trace.taken := by
  rcases grew.taken with same | ⟨member, -, same⟩
  · rw [same]
    exact fun _ mem => mem
  · rw [same]
    exact fun _ mem => List.mem_append_left _ mem

/-- What is drained has been taken, if it is a vote at all. -/
theorem Arrived.drain {early : List (Nat × Bytes)} (drains : Drains station early y)
    (arrived : Arrived station y)
    (held : ∀ p ∈ early, castBy station p.2 = none ∨ p ∈ y.trace.taken) :
    Arrived station (early.foldl (NodeSteps.draining station t) y) := by
  induction early generalizing y with
  | nil => exact arrived
  | cons p early ih =>
    obtain ⟨lapsed, same⟩ := draining_rest y (t.clock (.drained p.1))
    have begun : Arrived station (y.draining (t.clock (.drained p.1))) := by
      rw [same]
      exact ⟨arrived.reached, arrived.back, arrived.one, arrived.held, arrived.shut, arrived.own,
        arrived.admitted⟩
    have taken : (y.draining (t.clock (.drained p.1))).trace.taken = y.trace.taken := by rw [same]
    have known : ∀ member, castBy station p.2 = some member →
        (member, p.2) ∈ (y.draining (t.clock (.drained p.1))).trace.taken := by
      intro member cast
      rw [taken]
      rcases held p List.mem_cons_self with none | mem
      · rw [none] at cast
        cases cast
      · rw [drains.voters p mem] at cast
        cases cast
        exact mem
    refine ih (drains.step t) (begun.again known) fun q mem => ?_
    refine (held q (List.mem_cons_of_mem _ mem)).imp_right fun here => ?_
    rw [← taken] at here
    exact (grew_offered station _ p.2 _).taken_subset here

theorem Arrived.closing (firsts : Firsts station y) (arrived : Arrived station y) :
    Arrived station (NodeSteps.closing station t y) := by
  unfold NodeSteps.closing
  split
  swap
  · exact arrived
  split
  · exact arrived
  rename_i case ok
  obtain ⟨-, -, rfl⟩ := Case.closeConsultation_ok ok
  refine Arrived.drain (firsts.shutting ok) ?_ fun p mem => ?_
  · refine ⟨arrived.reached, arrived.back, arrived.one, fun member frame here => ?_, fun _ => rfl,
      arrived.own, arrived.admitted⟩
    cases Std.ExtTreeMap.getElem?_empty.symm.trans here
  · exact arrived.held p.1 p.2 (Std.ExtTreeMap.mem_toList_iff_getElem?_eq_some.mp mem)

/-! ## The node's own frames -/

theorem admittedOwn_apply (y : Tally) (stage other : Stage) :
    (y.admittedOwn stage).ownAdmitted other = (y.ownAdmitted other || decide (stage = other)) := by
  unfold Tally.admittedOwn
  dsimp only
  rw [Function.update_apply]
  by_cases same : other = stage
  · simp [same]
  · simp [same, Ne.symm same]

/-- A frame of the node's own that casts no vote. -/
theorem Arrived.sending_other (arrived : Arrived station y) {stage : Stage}
    (other : stage ≠ .bindingSupport) (uncast : castBy station frame = none) :
    Arrived station (NodeSteps.sending station t y stage frame) := by
  obtain ⟨windows, marked⟩ := ownMarked_same station y frame
  rw [NodeSteps.sending, NodeSteps.admittingOwn, marked]
  split
  · have kept : (Tally.admittedOwn { y with windows } stage).ownAdmitted .bindingSupport =
        y.ownAdmitted .bindingSupport := by
      rw [admittedOwn_apply, decide_eq_false other, Bool.or_false]
    have admitted : Arrived station (Tally.admittedOwn { y with windows } stage) := by
      refine ⟨arrived.reached, arrived.back, arrived.one, arrived.held, arrived.shut, ?_, ?_⟩
      · rw [kept]
        exact arrived.own
      · rw [kept]
        exact arrived.admitted
    refine admitted.again fun member cast => ?_
    rw [uncast] at cast
    cases cast
  · exact ⟨arrived.reached, arrived.back, arrived.one, arrived.held, arrived.shut, arrived.own,
      arrived.admitted⟩

/-- The node's own vote is counted, if it is offered in time. -/
theorem Arrived.sending_vote (firsts : Firsts station y) (arrived : Arrived station y)
    (closed : y.closed = true) (backs : y.ownAdmitted .bindingSupport = false →
      Backs station station.options.index frame)
    (timely : y.ownAdmitted .bindingSupport = false →
      y.case.untimely (t.clock (.own .bindingSupport)) = false) :
    Arrived station (NodeSteps.sending station t y .bindingSupport frame) := by
  obtain ⟨windows, marked⟩ := ownMarked_same station y frame
  rw [NodeSteps.sending, NodeSteps.admittingOwn, marked]
  split
  swap
  · exact ⟨arrived.reached, arrived.back, arrived.one, arrived.held, arrived.shut, arrived.own,
      arrived.admitted⟩
  rename_i unadmitted
  have phase := arrived.shut closed
  have cast := (backs unadmitted).cast
  have unvoted : station.memberId station.options.index ∉ y.case.voted := by
    intro voted
    obtain ⟨vote, counted⟩ := (voted_iff firsts.counted station.seated).mp voted
    have admitted := arrived.own _ (lookup_mem (firsts.first _ counted)) rfl
    rw [show y.ownAdmitted .bindingSupport = false from unadmitted] at admitted
    cases admitted
  rcases offered_cases station (Tally.admittedOwn { y with windows } .bindingSupport) frame
      (t.clock (.own .bindingSupport)) with ⟨none, -⟩ | ⟨member, o, case, -, casts, ok, grown, same⟩
  · have subject : (Tally.admittedOwn { y with windows } .bindingSupport).case.subject =
        station.subject := firsts.counted.subject
    rcases offered_uncounted cast subject phase none with late | voted
    · rw [show Case.untimely y.case (t.clock (.own .bindingSupport)) = true from late] at timely
      cases timely unadmitted
    · exact absurd voted unvoted
  · have author : member = station.options.index :=
      Option.some.inj ((castBy_casts casts).symm.trans cast)
    subst author
    obtain ⟨-, -, -, rfl⟩ := accept_timely ok grown
    have admitted : (Tally.admittedOwn { y with windows } .bindingSupport).ownAdmitted
        .bindingSupport = true := by
      rw [admittedOwn_apply, decide_eq_true rfl, Bool.or_true]
    rw [same]
    refine ⟨fun other here voter cast foreign =>
      List.mem_append_left _ (arrived.reached other here voter cast foreign), ?_, arrived.one,
      fun voter kept here => (arrived.held voter kept here).imp_right fun mem =>
        List.mem_append_left _ mem, fun _ => phase, fun _ _ _ => admitted,
      fun _ => ⟨frame, List.mem_append_right _ List.mem_cons_self, backs unadmitted⟩⟩
    intro p mem foreign
    rcases List.mem_append.mp mem with old | last
    · exact arrived.back p old foreign
    · cases List.mem_singleton.mp last
      exact absurd rfl foreign

/-- What one's own frame does to the windows and the flags. -/
theorem Windowed.sending (windowed : Windowed station seen y.trace.received y.windows)
    (stage : Stage) (frame : Bytes) :
    Windowed station seen (NodeSteps.sending station t y stage frame).trace.received
      (NodeSteps.sending station t y stage frame).windows := by
  have marked : Windowed station seen (y.ownMarked station frame).trace.received
      (y.ownMarked station frame).windows := by
    unfold Tally.ownMarked
    split
    · exact windowed
    · exact windowed.modify _ _ fun foreign => absurd rfl foreign
  rw [NodeSteps.sending, NodeSteps.admittingOwn]
  split
  · rw [offered_windows, (grew_offered station _ frame _).received]
    exact marked
  · exact marked

variable (station) in
theorem ownMarked_admitted (y : Tally) (frame : Bytes) :
    (y.ownMarked station frame).ownAdmitted = y.ownAdmitted := by
  obtain ⟨windows, marked⟩ := ownMarked_same station y frame
  rw [marked]

variable (station) in
theorem sending_admitted (t : Turn) (y : Tally) (stage : Stage) (frame : Bytes) :
    (NodeSteps.sending station t y stage frame).ownAdmitted .bindingSupport =
      (y.ownAdmitted .bindingSupport || decide (stage = .bindingSupport)) := by
  have kept := ownMarked_admitted station y frame
  rw [NodeSteps.sending, NodeSteps.admittingOwn]
  split
  · rw [(grew_offered station _ frame _).admitted, admittedOwn_apply, kept]
  · rename_i admitted
    rw [Bool.not_eq_false, kept] at admitted
    rw [kept]
    cases stage <;> simp [admitted]

/-! ## Turns -/

/-- A life in which nothing has lapsed and what is taken has arrived. -/
structure Onward (station : Station C) (seen : Map UInt16 UInt64) (n : Node) : Prop where
  firsts : Firsts station n.mind.tally
  arrived : Arrived station n.mind.tally
  windowed : Windowed station seen n.mind.tally.trace.received n.mind.tally.windows
  lasting : n.mind.tally.trace.lapsed = false
  unvoted : n.mind.tally.ownAdmitted .bindingSupport = false →
    lockKey station.subject (station.memberId station.options.index) ∉ locks n
  spoken : n.mind.tally.ownAdmitted .bindingSupport = true ↔
    ∃ p ∈ NodeSteps.spoken n, p.1 = .bindingSupport

theorem Onward.became {n m : Node} (onward : Onward station seen n) (became : Became n y m)
    (firsts : Firsts station y) (arrived : Arrived station y)
    (windowed : Windowed station seen y.trace.received y.windows)
    (lasting : y.trace.lapsed = false) (admitted : y.ownAdmitted = n.mind.tally.ownAdmitted) :
    Onward station seen m := by
  obtain ⟨tally, locks, spoken⟩ := became
  refine ⟨?_, ?_, ?_, ?_, ?_, ?_⟩
  · rw [tally]
    exact firsts
  · rw [tally]
    exact arrived
  · rw [tally]
    exact windowed
  · rw [tally]
    exact lasting
  · rw [tally, admitted, locks]
    exact onward.unvoted
  · rw [tally, admitted, spoken]
    exact onward.spoken

section speaking

variable {n m k : Node}

/-- The node's own vote has not been admitted. -/
def Unadmitted (n : Node) : Prop := n.mind.tally.ownAdmitted .bindingSupport = false

/-- A held vote has lapsed, or since the turn began the node's own vote was offered too late. -/
def Missed (t : Turn) (n : Node) (y : Tally) : Prop :=
  y.trace.lapsed = true ∨ (Unadmitted n ∧ y.ownAdmitted .bindingSupport = true ∧
    y.case.untimely (t.clock (.own .bindingSupport)) = true)

theorem Missed.sending (missed : Missed t n y) (stage : Stage) (frame : Bytes) :
    Missed t n (NodeSteps.sending station t y stage frame) := by
  obtain ⟨expires, lapsed⟩ := sending_same station t y stage frame
  rcases missed with had | ⟨before, admitted, late⟩
  · exact Or.inl (lapsed.trans had)
  · refine Or.inr ⟨before, ?_, (untimely_congr expires _).trans late⟩
    rw [sending_admitted, admitted, Bool.true_or]

/-- Up to the radio: the node goes on, or has missed something. -/
def Going (station : Station C) (seen : Map UInt16 UInt64) (t : Turn) (n m : Node) : Prop :=
  (Unadmitted m → Unadmitted n) ∧ (Onward station seen m ∨ Missed t n m.mind.tally)

theorem hasVoted_iff (journal : Journal) (voter : String) :
    hasVoted journal station.subject voter = false ↔
      lockKey station.subject voter ∉ journal.state.locks := by
  rw [hasVoted, decide_eq_false_iff_not]

/-- What a stage's frame that is sent makes of a node that has gone on. -/
theorem Onward.sent (aead : Aead C) (signatures : Signatures C) {stage : Stage} {desk : Desk}
    (onward : Onward station seen m)
    (due : stage = .bindingSupport → m.mind.tally.closed = true)
    (built : build P C station.fleet station.options station.keys (t.envs (.own stage)) stage
      station.subject m.mind.heard m.mind.round m.desk = (.ok frame, desk))
    (tally : k.mind.tally = sending station t m.mind.tally stage frame)
    (locks : stage ≠ .bindingSupport → NodeSteps.locks k = NodeSteps.locks m)
    (spoken : NodeSteps.spoken k = NodeSteps.spoken m ++ [(stage, frame)]) :
    Onward station seen k ∨ Missed t m k.mind.tally := by
  have same := (sending_same station t m.mind.tally stage frame).2
  have admitted := sending_admitted station t m.mind.tally stage frame
  have firsts : Firsts station k.mind.tally := by
    rw [tally]
    refine (onward.firsts.sending t stage frame).resolve_right fun spoiled => ?_
    exact absurd (onward.lasting.symm.trans spoiled.1) Bool.false_ne_true
  have windowed := onward.windowed.sending (t := t) stage frame
  have lasting := same.trans onward.lasting
  rw [← tally] at admitted windowed lasting
  by_cases vote : stage = .bindingSupport
  · subst vote
    rw [decide_eq_true rfl, Bool.or_true] at admitted
    by_cases late : Unadmitted m ∧
        m.mind.tally.case.untimely (t.clock (.own .bindingSupport)) = true
    · refine Or.inr (Or.inr ⟨late.1, admitted, ?_⟩)
      rw [tally]
      exact (untimely_congr (sending_same station t m.mind.tally .bindingSupport frame).1 _).trans
        late.2
    · left
      have backs (unadmitted : Unadmitted m) :
          Backs station station.options.index frame := by
        have fresh := (hasVoted_iff m.desk.running.journal _).mpr (onward.unvoted unadmitted)
        obtain ⟨envelope, genuine, author, stage, verdict⟩ :=
          build_genuine aead signatures (fun _ => fresh) built
        exact ⟨envelope, genuine, author, stage, by rw [verdict]; rfl⟩
      have arrived := onward.arrived.sending_vote (t := t) onward.firsts (due rfl) backs
        fun unadmitted => Bool.eq_false_iff.mpr fun late' => late ⟨unadmitted, late'⟩
      rw [← tally] at arrived
      refine ⟨firsts, arrived, windowed, lasting, fun unadmitted => ?_, fun _ => ?_, fun _ =>
        admitted⟩
      · rw [admitted] at unadmitted
        cases unadmitted
      · rw [spoken]
        exact ⟨_, List.mem_append_right _ List.mem_cons_self, rfl⟩
  · left
    rw [decide_eq_false vote, Bool.or_false] at admitted
    have uncast : castBy station frame = none := by
      obtain ⟨envelope, genuine, -, code, -⟩ :=
        build_genuine aead signatures (fun same => absurd same vote) built
      cases cast : castBy station frame with
      | none => rfl
      | some voter =>
        obtain ⟨other, -, here, -, binding, -⟩ := castBy_eq_some.mp cast
        rw [here.unique genuine, code] at binding
        cases stage with
        | bindingSupport => exact absurd rfl vote
        | _ => exact absurd binding (by decide)
    have arrived := onward.arrived.sending_other (t := t) vote uncast
    rw [← tally] at arrived
    refine ⟨firsts, arrived, windowed, lasting, ?_, ?_⟩
    · rw [admitted, locks vote]
      exact onward.unvoted
    · rw [admitted, spoken, onward.spoken]
      constructor
      · rintro ⟨p, mem, binding⟩
        exact ⟨p, List.mem_append_left _ mem, binding⟩
      · rintro ⟨p, mem, binding⟩
        rcases List.mem_append.mp mem with old | last
        · exact ⟨p, old, binding⟩
        · cases List.mem_singleton.mp last
          exact absurd binding vote

theorem Going.became (going : Going station seen t n m) (became : Became m m.mind.tally k) :
    Going station seen t n k := by
  obtain ⟨since, here⟩ := going
  refine ⟨fun unadmitted => since ?_, ?_⟩
  · rwa [Unadmitted, became.tally] at unadmitted
  · rw [became.tally]
    refine here.imp_left fun onward => ?_
    exact onward.became became onward.firsts onward.arrived onward.windowed onward.lasting rfl

theorem Going.spoke (aead : Aead C) (signatures : Signatures C) {stage : Stage}
    (going : Going station seen t n m) (spoke : Spoke P station t stage m k) :
    Going station seen t n k := by
  cases spoke with
  | silent became => exact going.became became
  | sent due built tally locks spoken =>
    rename_i frame desk
    obtain ⟨since, here⟩ := going
    have before (unadmitted : Unadmitted k) : Unadmitted m := by
      rw [Unadmitted, tally, sending_admitted, Bool.or_eq_false_iff] at unadmitted
      exact unadmitted.1
    refine ⟨fun unadmitted => since (before unadmitted), ?_⟩
    rcases here with onward | missed
    · refine (onward.sent aead signatures due built tally locks spoken).imp_right fun missed => ?_
      exact missed.imp_right fun late => ⟨since late.1, late.2⟩
    · rw [tally]
      exact Or.inr (missed.sending stage frame)

theorem going_untilRadio (aead : Aead C) (signatures : Signatures C)
    (onward : Onward station seen n) :
    Yields (untilRadio P station t) n fun _ k => Going station seen t n k := by
  refine (yields_untilRadio (I := fun m => Onward station seen m ∧
      m.mind.tally.ownAdmitted = n.mind.tally.ownAdmitted)
    (A := Going station seen t n) ?_ ?_ ?_ ?_).weaken ?_
  · intro m became
    refine ⟨onward.became became onward.firsts onward.arrived onward.windowed onward.lasting rfl,
      ?_⟩
    rw [became.tally]
  · rintro m k ⟨here, same⟩ became
    obtain ⟨received, windows, admitted⟩ := closing_shutting station m.mind.tally t
    refine ⟨fun unadmitted => ?_, ?_⟩
    · rwa [Unadmitted, became.tally, admitted, same] at unadmitted
    · rw [became.tally]
      by_cases lapsed : (closing station t m.mind.tally).trace.lapsed = true
      · exact Or.inr (Or.inl lapsed)
      · refine Or.inl (here.became became (here.firsts.closing t)
          (here.arrived.closing here.firsts) ?_ (Bool.eq_false_iff.mpr lapsed) admitted)
        rw [received, windows]
        exact here.windowed
  · intro stage m k going spoke
    exact going.spoke aead signatures spoke
  · intro m k going became
    exact going.became became
  · intro anchor k here
    cases anchor with
    | none => exact ⟨fun unadmitted => by rwa [Unadmitted, here.2] at unadmitted, Or.inl here.1⟩
    | some anchor => exact here

/-- Whatever the node offers in a turn, it offers before expiry, and what it reads is orderly. -/
def orderlyTurn (P : Postcard) (station : Station C) (seen : Map UInt16 UInt64) (t : Turn)
    (n : Node) : Bool :=
  match untilRadio P station t n with
  | (.ok anchor, k) =>
    !k.mind.tally.trace.lapsed &&
      (n.mind.tally.ownAdmitted .bindingSupport || !k.mind.tally.ownAdmitted .bindingSupport ||
        !k.mind.tally.case.untimely (t.clock (.own .bindingSupport))) &&
      orderly station seen t anchor k.mind.tally
  | (.error _, _) => true

/-- The single vote of a member pushes none out. -/
theorem orderly_keeps {anchor : Option Nat} (firsts : Firsts station y)
    (arrived : Arrived station y) (inOrder : orderly station seen t anchor y = true) :
    pushesOut station t anchor y = false := by
  by_contra pushed
  rw [Bool.not_eq_false, pushesOut] at pushed
  split at pushed
  · cases pushed
  rename_i frame received
  split at pushed
  · cases pushed
  rename_i member cast
  simp only [Bool.and_eq_true, decide_eq_true_eq, Option.any_eq_true] at pushed
  obtain ⟨⟨⟨⟨read, -⟩, consulting⟩, -⟩, other, held, differs, vote⟩ := pushed
  have expected := (expected_radio received inOrder read cast).1
  have taken : (member, other) ∈ y.trace.taken := by
    refine (arrived.held member other held).resolve_left fun none => ?_
    rw [vote] at none
    cases none
  by_cases own : member = station.options.index
  · obtain ⟨ownVote, counted, -⟩ := arrived.admitted (arrived.own _ taken own)
    rw [counted_early firsts.toTracked consulting] at counted
    cases counted
  · exact differs (expected.only own other (arrived.back _ taken own) vote)

/-- Neither the node's flags nor the lapses have changed. -/
structure Still (y z : Tally) : Prop where
  admitted : z.ownAdmitted = y.ownAdmitted
  lapsed : z.trace.lapsed = y.trace.lapsed

theorem Still.trans {x : Tally} (first : Still y z) (second : Still z x) : Still y x :=
  ⟨second.admitted.trans first.admitted, second.lapsed.trans first.lapsed⟩

variable (station) in
theorem still_received (y : Tally) (frame : Bytes) : Still y (y.hasReceived station frame) := by
  obtain ⟨received, same⟩ := hasReceived_rest station y frame
  rw [same]
  exact ⟨rfl, rfl⟩

variable (station) in
theorem still_heard (y : Tally) (frame : Bytes) (clock : Clock) (windows : List ReplayWindow) :
    Still y (Tally.held { (y.offered station frame clock).2 with windows }
      (y.offered station frame clock).1 frame) := by
  have offered : Still y { (y.offered station frame clock).2 with windows } :=
    ⟨(grew_offered station y frame clock).admitted, (offered_same station y frame clock).2.1⟩
  obtain ⟨early, taken, same⟩ := held_rest { (y.offered station frame clock).2 with windows }
    (y.offered station frame clock).1 frame
  rw [same]
  exact ⟨offered.admitted, offered.lapsed⟩

variable (station) in
theorem hearing_still (t : Turn) (y : Tally) : Still y (hearing station t y) := by
  unfold hearing
  split
  · exact ⟨rfl, rfl⟩
  rename_i frame _
  have received := still_received station y frame
  dsimp only
  split
  · exact received
  split
  · exact received.trans ⟨rfl, rfl⟩
  · obtain ⟨windows, same, -⟩ :=
      reading_held station (y.hasReceived station frame) frame (t.clock .received)
    rw [same]
    exact received.trans (still_heard station _ _ _ _)

theorem still_marked (y : Tally) (member : Nat) (sequence : UInt64) :
    Still y (y.marked member sequence) := ⟨rfl, rfl⟩

variable (station) in
theorem awaiting_still (t : Turn) (y : Tally) : Still y (awaiting station t y) := by
  unfold awaiting
  split
  · exact ⟨rfl, rfl⟩
  rename_i frame _
  split
  · exact ⟨rfl, rfl⟩
  split
  · rename_i opener sequence _
    exact (still_marked y opener sequence).trans (still_received station _ frame)
  split
  · exact ⟨rfl, rfl⟩
  · rename_i late _
    have received := (still_marked y late.author late.sequence).trans
      (still_received station (y.marked late.author late.sequence) frame)
    exact received.trans (still_heard station _ _ _ _)

theorem onward_turn (aead : Aead C) (signatures : Signatures C)
    (onward : Onward station seen n) (inOrder : orderlyTurn P station seen t n = true) :
    Yields (turn P station t) n fun _ m => Onward station seen m := by
  intro out m ran
  rw [turn_radio] at ran
  obtain ⟨anchor, k, came, rest⟩ := andThen_eq_ok ran
  simp only [orderlyTurn, came, Bool.and_eq_true, Bool.or_eq_true, Bool.not_eq_true'] at inOrder
  obtain ⟨⟨lasting, offered⟩, inOrder⟩ := inOrder
  have here : Onward station seen k := by
    refine (going_untilRadio aead signatures onward _ _ came).2.resolve_right ?_
    rintro (lapsed | ⟨before, admitted, late⟩)
    · exact absurd (lasting.symm.trans lapsed) Bool.false_ne_true
    · rcases offered with (earlier | never) | timely
      · exact absurd (before.symm.trans earlier) Bool.false_ne_true
      · exact absurd (never.symm.trans admitted) Bool.false_ne_true
      · exact absurd (timely.symm.trans late) Bool.false_ne_true
  have kept := orderly_keeps here.firsts here.arrived inOrder
  have stays : staysLapsed t anchor k.mind.tally = true := by
    rw [staysLapsed, here.lasting, Bool.not_false, Bool.true_or]
  cases anchor with
  | none =>
    obtain ⟨admitted, lapsed⟩ := awaiting_still station t k.mind.tally
    exact here.became (yields_await _ _ rest) (here.firsts.awaiting kept stays)
      (here.arrived.awaiting here.firsts inOrder) here.windowed.awaiting
      (lapsed.trans here.lasting) admitted
  | some anchor =>
    obtain ⟨admitted, lapsed⟩ := hearing_still station t k.mind.tally
    exact here.became (yields_hear anchor _ _ rest) (here.firsts.hearing kept stays)
      (here.arrived.hearing here.firsts here.windowed inOrder) here.windowed.hearing
      (lapsed.trans here.lasting) admitted

end speaking

/-! ## A life -/

section lives

variable (P) (station) (path : Path)

/-- Every turn of a life is orderly. -/
def alwaysOrderly (seen : Map UInt16 UInt64) : Lives → List Turn → Bool
  | .alive n, t :: rest => (n.mind.finished || orderlyTurn P station seen t n) &&
      alwaysOrderly seen ((Lives.alive n).next P station path (.turn t)) rest
  | _, _ => true

/-- A journal with nothing of the case: no vote of the member's own, and none to put back. -/
def fresh (state : State) : Bool :=
  decide (lockKey station.subject (station.memberId station.options.index) ∉ state.locks) &&
    (restoredEarly station state).toList.all fun p => (castBy station p.2).isNone

/-- A life that begins on such a journal, and every turn of which is orderly. -/
def orderlyLife (lives : Lives) (turns : List Turn) : Bool :=
  match lives with
  | .dead .. => true
  | .alive n => fresh station n.desk.running.journal.state &&
      alwaysOrderly P station path n.desk.running.journal.state.seen lives turns

end lives

theorem windowed_resumed (state : State) :
    Windowed station state.seen [] (resumedWindows station state) := by
  refine ⟨resumed_fair, fun member w sequence _ here known => ?_⟩
  rcases (resumed_window here).2 with ⟨-, rfl⟩ | ⟨mark, marked, rfl⟩
  · cases known
  · refine Or.inl ⟨mark, marked, ?_⟩
    rcases (seen_iff (knows_resumed mark) sequence).mp known with le | ⟨highest, newest, far⟩
    · exact le
    · cases newest
      omega

theorem onward_begin {desk : Desk} {remembered : List (Nat × UInt64)} {handed : List Handed}
    (isFresh : fresh station desk.running.journal.state = true) :
    Onward station desk.running.journal.state.seen
      ⟨desk, .begin station desk.running.journal.state ⟨[], remembered, handed⟩⟩ := by
  rw [fresh, Bool.and_eq_true, decide_eq_true_eq, List.all_eq_true] at isFresh
  obtain ⟨unvoted, all⟩ := isFresh
  have unwitnessed (p : Nat × Bytes)
      (mem : p ∈ (restoredEarly station desk.running.journal.state).toList) :
      castBy station p.2 = none := Option.isNone_iff_eq_none.mp (all p mem)
  have back : putsBack station desk.running.journal.state [] = true := by
    rw [putsBack, List.all_nil, Bool.and_true, List.all_eq_true]
    intro p mem
    rw [unwitnessed p mem, Option.all_none]
  have unadmitted : (Tally.begin station desk.running.journal.state []).ownAdmitted
      .bindingSupport = false := by
    have absent : decide (lockKey station.subject (station.memberId station.options.index) ∈
      desk.running.journal.state.locks) = false := decide_eq_false unvoted
    rw [Tally.begin, recoveredVote, absent, Bool.false_and]
    rfl
  refine ⟨Firsts.begin back, ⟨?_, ?_, ?_, ?_, ?_, ?_, ?_⟩, windowed_resumed _, rfl,
    fun _ => unvoted, ?_⟩
  · exact fun frame none => absurd none List.not_mem_nil
  · exact fun p none => absurd none List.not_mem_nil
  · exact fun frame none => absurd none List.not_mem_nil
  · intro member frame here
    exact Or.inl (unwitnessed (member, frame)
      (Std.ExtTreeMap.mem_toList_iff_getElem?_eq_some.mpr here))
  · rintro ⟨⟩
  · exact fun p none => absurd none List.not_mem_nil
  · intro admitted
    exact absurd (unadmitted.symm.trans admitted) Bool.false_ne_true
  · constructor
    · intro admitted
      exact absurd (unadmitted.symm.trans admitted) Bool.false_ne_true
    · rintro ⟨p, none, -⟩
      cases none

theorem dead_after {path : Path} (disk : Disk Path) (sealed : List Sealing) (past : Past)
    (turns : List Turn) : (Lives.dead disk sealed past).after P station path (turns.map .turn) =
      .dead disk sealed past := by
  induction turns with
  | nil => rfl
  | cons t rest ih => exact ih

theorem onward_after (aead : Aead C) (signatures : Signatures C) {path : Path} {n m : Node}
    {turns : List Turn} (onward : Onward station seen n)
    (inOrder : alwaysOrderly P station path seen (.alive n) turns = true)
    (reached : (Lives.alive n).after P station path (turns.map .turn) = .alive m) :
    Onward station seen m := by
  induction turns generalizing n with
  | nil =>
    cases reached
    exact onward
  | cons t rest ih =>
    rw [alwaysOrderly, Bool.and_eq_true, Bool.or_eq_true] at inOrder
    obtain ⟨here, later⟩ := inOrder
    rw [List.map_cons, Lives.after, List.foldl_cons, ← Lives.after] at reached
    rw [Lives.next] at later reached
    split at reached
    · rename_i finished
      rw [if_pos finished] at later
      exact ih onward later reached
    · rename_i going
      rw [if_neg going] at later
      split at reached
      · rw [Lives.ended, dead_after] at reached
        cases reached
      · rename_i k ran
        rw [ran] at later
        exact ih (onward_turn aead signatures onward (here.resolve_left going) _ _ ran) later
          reached

theorem sent_vote (n : Node) : (∃ p ∈ NodeSteps.spoken n, p.1 = .bindingSupport) ↔
    ∃ h ∈ n.mind.handed, h.sending = .stage .bindingSupport := by
  constructor
  · rintro ⟨p, mem, vote⟩
    obtain ⟨h, handed, spoken⟩ := List.mem_filterMap.mp mem
    refine ⟨h, handed, ?_⟩
    unfold stageFrame at spoken
    split at spoken
    · rename_i stage sending
      cases spoken
      rw [sending]
      exact congrArg Sending.stage vote
    · cases spoken
  · rintro ⟨h, handed, sending⟩
    refine ⟨(.bindingSupport, h.frame), List.mem_filterMap.mpr ⟨h, handed, ?_⟩, rfl⟩
    rw [stageFrame, sending]

/-- A member whose vote was counted and says support is a supporter, and no one else is. -/
theorem supporter_iff (counted : Counted station y) (author : String) :
    author ∈ y.case.bindingSupporters ↔ ∃ member frame, author = station.memberId member ∧
      (member, frame) ∈ y.trace.counted ∧ Backs station member frame := by
  simp only [Case.bindingSupporters, List.mem_map, List.mem_filter, Verdict.canSupportApproval_iff]
  constructor
  · rintro ⟨o, ⟨inside, support⟩, rfl⟩
    obtain ⟨⟨member, frame⟩, listed, casts⟩ := forall₂_mem_right counted.casts inside
    obtain ⟨envelope, genuine, index, stage, verdict⟩ := casts.genuine
    exact ⟨member, frame, casts.author, listed, envelope, genuine, index, stage,
      verdict.trans (congrArg some support)⟩
  · rintro ⟨member, frame, rfl, listed, envelope, genuine, index, stage, verdict⟩
    obtain ⟨o, inside, casts⟩ := forall₂_mem_left counted.casts listed
    obtain ⟨other, here, -, -, said⟩ := casts.genuine
    rw [here.unique genuine, verdict] at said
    exact ⟨o, ⟨inside, (Option.some.inj said).symm⟩, casts.author⟩

/-- Who is counted behind the close. -/
theorem Onward.supporters {n : Node} (onward : Onward station seen n)
    (closed : n.mind.tally.closed = true) (author : String) :
    author ∈ n.mind.tally.case.bindingSupporters ↔
      (∃ member frame, member ≠ station.options.index ∧ author = station.memberId member ∧
        frame ∈ n.mind.tally.trace.received ∧ Backs station member frame) ∨
      (author = station.memberId station.options.index ∧
        ∃ h ∈ n.mind.handed, h.sending = .stage .bindingSupport) := by
  obtain ⟨firsts, arrived, -, lasting, -, spoken⟩ := onward
  rw [supporter_iff firsts.counted, ← sent_vote, ← spoken]
  constructor
  · rintro ⟨member, frame, rfl, counted, backs⟩
    have taken := lookup_mem (firsts.first _ counted)
    by_cases own : member = station.options.index
    · exact Or.inr ⟨by rw [own], arrived.own _ taken own⟩
    · exact Or.inl ⟨member, frame, own, rfl, arrived.back _ taken own, backs⟩
  · rintro (⟨member, frame, foreign, rfl, received, backs⟩ | ⟨rfl, admitted⟩)
    · refine ⟨member, frame, rfl, ?_, backs⟩
      have taken := arrived.reached frame received member backs.cast foreign
      obtain ⟨first, found⟩ : ∃ first, n.mind.tally.trace.taken.lookup member = some first := by
        cases found : n.mind.tally.trace.taken.lookup member with
        | some first => exact ⟨first, rfl⟩
        | none => exact absurd (List.lookup_eq_none_iff.mp found _ taken) (by simp)
      have same : first = frame := arrived.one first (arrived.back _ (lookup_mem found) foreign)
        frame received member foreign (firsts.voters _ (lookup_mem found)) backs.cast
      subst same
      rcases firsts.kept member first found with counted | held | lapsed
      · exact counted
      · rw [firsts.collecting (arrived.shut closed) member] at held
        cases held
      · exact absurd (lasting.symm.trans lapsed) Bool.false_ne_true
    · obtain ⟨frame, counted, backs⟩ := arrived.admitted admitted
      exact ⟨_, frame, rfl, counted, backs⟩

/-- In a life that begins with nothing of its case in the journal, and in which every vote read
is the single one of its member, in its window, and whatever is offered is offered before
expiry: behind the close the supporters are the other members from whom a frame that says
support has been received at any time since the round began, and the node itself once its own
vote has been handed to the radio. -/
theorem arrival_order (P : Postcard) (aead : Aead C) (signatures : Signatures C)
    (station : Station C) (path : Path) (disk : Disk Path) (sealed : List Sealing)
    (remembered : List (Nat × UInt64)) (handed : List Handed) (entropy : UInt64)
    (opening entering : Env) (turns : List Turn) :
    let start := (Lives.dead disk sealed ⟨[], remembered, handed⟩).next P station path
      (.boot entropy opening entering)
    orderlyLife P station path start turns = true →
    ∀ node, start.after P station path (turns.map .turn) = .alive node →
      node.mind.tally.closed = true →
      ∀ author, author ∈ node.mind.tally.case.bindingSupporters ↔
        (∃ member frame, member ≠ station.options.index ∧ author = station.memberId member ∧
          frame ∈ node.mind.tally.trace.received ∧ Backs station member frame) ∨
        (author = station.memberId station.options.index ∧
          ∃ h ∈ node.mind.handed, h.sending = .stage .bindingSupport) := by
  intro start inOrder node reached closed author
  have begins : (∃ d s p, start = .dead d s p) ∨ ∃ desk : Desk, start =
      .alive ⟨desk, .begin station desk.running.journal.state ⟨[], remembered, handed⟩⟩ := by
    show (∃ d s p, Lives.next _ _ _ _ _ = .dead d s p) ∨ ∃ desk : Desk, Lives.next _ _ _ _ _ = _
    rw [Lives.next]
    split
    · exact Or.inl ⟨_, _, _, rfl⟩
    · exact Or.inr ⟨⟨⟨_, _⟩, _⟩, rfl⟩
  rcases begins with ⟨d, s, p, dead⟩ | ⟨desk, alive⟩
  · rw [dead, dead_after] at reached
    cases reached
  · rw [alive] at inOrder reached
    rw [orderlyLife, Bool.and_eq_true] at inOrder
    exact (onward_after aead signatures (onward_begin inOrder.1) inOrder.2 reached).supporters
      closed author

theorem plain_signatures : Signatures plain := ⟨fun _ _ => decide_eq_true rfl⟩

/-- The first member opens a round and looks at its clocks once more, when consultation has
closed and its own slot has come. -/
def openedThenSlot (between : List Turn) (slot : Turn) : List Turn :=
  { heardEarly 0 [] with opening := true, received := none } :: between ++ [slot]

/-- A vote comes before the close and once more behind it; the node sends its own. -/
theorem arrival_order_twice :
    let vote := voiced 1 3 1 5 ⟨0, 0⟩
    let path : Path := ⟨"member", some "journal"⟩
    let start := (Lives.dead Disk.empty [] ⟨[], [], []⟩).next postcard stationed path
      (.boot 0 (fun _ => .done) (fun _ => .done))
    let turns := openedThenSlot [heardEarly 100000000000 vote] (heardAt 364190000000 (some vote))
    supporters (start.after postcard stationed path (turns.map .turn)) = ["b", "a"] ∧
      ∀ node, start.after postcard stationed path (turns.map .turn) = .alive node →
        node.mind.tally.closed = true →
        ∀ author, author ∈ node.mind.tally.case.bindingSupporters ↔
          (∃ member frame, member ≠ stationed.options.index ∧
            author = stationed.memberId member ∧
            frame ∈ node.mind.tally.trace.received ∧ Backs stationed member frame) ∨
          (author = stationed.memberId stationed.options.index ∧
            ∃ h ∈ node.mind.handed, h.sending = .stage .bindingSupport) := by
  intro vote path start turns
  refine ⟨by decide +kernel, ?_⟩
  exact arrival_order postcard plain_aead plain_signatures stationed path Disk.empty [] [] [] 0
    (fun _ => .done) (fun _ => .done) turns (by decide +kernel)

/-- Whether the frames handed over for the binding stage went out. -/
def ownVotes : Lives → List Bool
  | .dead .. => []
  | .alive node => (node.mind.handed.filter fun h => h.sending = .stage .bindingSupport).map
      Handed.aired

/-- Nothing has been received, and the node's own vote is refused by the duty cycle: it counts
itself as a supporter all the same. -/
theorem arrival_order_unsent :
    let path : Path := ⟨"member", some "journal"⟩
    let start := (Lives.dead Disk.empty [] ⟨[], [], []⟩).next postcard stationed path
      (.boot 0 (fun _ => .done) (fun _ => .done))
    let turns := openedThenSlot [] { heardAt 364190000000 none with airs := fun _ => false }
    let lives := start.after postcard stationed path (turns.map .turn)
    orderlyLife postcard stationed path start turns = true ∧ ownVotes lives = [false] ∧
      supporters lives = ["a"] := by
  decide +kernel

end ArrivalOrder
