import Lcq.Scenarios

/-!
# A scenario's accounts

Every frame that is charged for is on the air and comes to one entry of the
timeline. The counters are those of the timeline, and nobody is on the air for
longer than the hour's budget.
-/

namespace ScenarioAccounts

open ByteFormat Contracts LegalAirtime Medium Scenarios SimAdmission Wire

/-! ## Entries and counters -/

/-- The entries of a timeline with an outcome. -/
def entriesOf (outcome : Outcome) (timeline : List TraceEntry) : List TraceEntry :=
  timeline.filter fun e => decide (e.outcome = outcome)

def sentIn (timeline : List TraceEntry) : List TraceEntry :=
  timeline.filter fun e => e.outcome.wentOnAir

/-- Milliseconds on the air. -/
def airIn (timeline : List TraceEntry) : Nat := (timeline.map fun e => e.airtimeMs.toNat).sum

def airOf (node : Nat) (timeline : List TraceEntry) : Nat :=
  airIn (timeline.filter fun e => decide (e.sender = node))

/-- Frames charged for that have no entry yet. -/
abbrev Aloft := List (Nat × UInt64)

def Aloft.air (aloft : Aloft) : Nat := (aloft.map fun p => p.2.toNat).sum

def Aloft.airOf (node : Nat) (aloft : Aloft) : Nat :=
  Aloft.air (aloft.filter fun p => decide (p.1 = node))

/-- What an outcome adds to the counters. -/
def bump (outcome : Outcome) (t : Tally) : Tally :=
  match outcome with
  | .rejected => { t with rejected := t.rejected + 1 }
  | .collided => { t with collided := t.collided + 1 }
  | .tooWeak => { t with tooWeak := t.tooWeak + 1 }
  | .dutyCycleBlocked => { t with dutyCycleBlocked := t.dutyCycleBlocked + 1 }
  | _ => t

/-- The books of a run with some frames aloft; so many rejections have no entry. -/
structure Books (prior : UInt64) (unlisted : Nat) (r : Run) (aloft : Aloft) : Prop where
  sent : r.tally.framesSent = (sentIn r.tally.timeline).length + aloft.length
  air : r.tally.airtimeMs.toNat = (airIn r.tally.timeline + aloft.air) % 2 ^ 64
  used : ∀ node, (r.usedAirtime node).toNat =
    prior.toNat + airOf node r.tally.timeline + aloft.airOf node
  budget : ∀ node, r.usedAirtime node = prior ∨ r.usedAirtime node ≤ dutyCycleBudgetMs
  rejected : r.tally.rejected = (entriesOf .rejected r.tally.timeline).length + unlisted
  collided : r.tally.collided = (entriesOf .collided r.tally.timeline).length
  tooWeak : r.tally.tooWeak = (entriesOf .tooWeak r.tally.timeline).length
  blocked : r.tally.dutyCycleBlocked = (entriesOf .dutyCycleBlocked r.tally.timeline).length
  own : ∀ p ∈ r.tally.onAir, p.1 = observer

section entries

variable (timeline : List TraceEntry) (e : TraceEntry)

theorem entriesOf_concat (outcome : Outcome) :
    (entriesOf outcome (timeline ++ [e])).length =
      (entriesOf outcome timeline).length + if e.outcome = outcome then 1 else 0 := by
  unfold entriesOf
  rw [List.filter_append, List.length_append]
  by_cases same : e.outcome = outcome <;> simp [same]

theorem sentIn_concat : (sentIn (timeline ++ [e])).length =
    (sentIn timeline).length + if e.outcome = .dutyCycleBlocked then 0 else 1 := by
  unfold sentIn
  rw [List.filter_append, List.length_append]
  by_cases blocked : e.outcome = .dutyCycleBlocked <;> simp [blocked, Outcome.wentOnAir]

theorem airIn_concat : airIn (timeline ++ [e]) = airIn timeline + e.airtimeMs.toNat := by
  simp [airIn]

theorem airOf_concat (node : Nat) : airOf node (timeline ++ [e]) =
    airOf node timeline + if e.sender = node then e.airtimeMs.toNat else 0 := by
  unfold airOf
  rw [List.filter_append]
  by_cases same : e.sender = node <;> simp [same, airIn]

end entries

section aloft

variable (p : Nat × UInt64) (aloft : Aloft)

theorem air_cons : Aloft.air (p :: aloft) = p.2.toNat + aloft.air := by
  simp [Aloft.air]

theorem air_concat : Aloft.air (aloft ++ [p]) = aloft.air + p.2.toNat := by
  simp [Aloft.air]

theorem airOf_cons (node : Nat) : Aloft.airOf node (p :: aloft) =
    (if p.1 = node then p.2.toNat else 0) + aloft.airOf node := by
  unfold Aloft.airOf
  by_cases same : p.1 = node <;> simp [same, Aloft.air]

theorem aloft_concat (node : Nat) : Aloft.airOf node (aloft ++ [p]) =
    aloft.airOf node + if p.1 = node then p.2.toNat else 0 := by
  unfold Aloft.airOf
  rw [List.filter_append]
  by_cases same : p.1 = node <;> simp [same, Aloft.air]

end aloft

/-! ## What the operations do to the books -/

variable {C : Primitives} {s : Scenario} {frames : Nat → Bytes} {manifest : List VerifyingKey}
  {subject : Subject} {prior : UInt64} {unlisted : Nat} {r : Run} {aloft : Aloft}

theorem Books.alike (books : Books prior unlisted r aloft) {q : Run} (tally : q.tally = r.tally)
    (used : q.usedAirtime = r.usedAirtime) : Books prior unlisted q aloft := by
  cases q
  dsimp only at tally used
  subst tally used
  obtain ⟨a, b, c, d, e, f, g, h, i⟩ := books
  exact ⟨a, b, c, d, e, f, g, h, i⟩

theorem Books.perm (books : Books prior unlisted r aloft) {others : Aloft}
    (same : aloft.Perm others) : Books prior unlisted r others := by
  obtain ⟨sent, air, used, budget, rejected, collided, tooWeak, blocked, own⟩ := books
  refine ⟨same.length_eq ▸ sent, ?_, fun node => ?_, budget, rejected, collided, tooWeak, blocked,
    own⟩
  · rw [Aloft.air, (same.map _).sum_eq] at air
    exact air
  · have here := used node
    rw [Aloft.airOf, Aloft.air, ((same.filter _).map _).sum_eq] at here
    exact here

/-- A frame that may go out is within the budget. -/
theorem duty_add {used air : UInt64} (ok : dutyCycleOk used air = true) :
    (used + air).toNat = used.toNat + air.toNat ∧ used + air ≤ dutyCycleBudgetMs := by
  have most : dutyCycleBudgetMs.toNat = 36000 := rfl
  rw [dutyCycleOk, decide_eq_true_eq, UInt64.le_iff_toNat_le, saturatingAdd_toNat] at ok
  have exact : (used + air).toNat = used.toNat + air.toNat := by
    rw [UInt64.toNat_add, Nat.mod_eq_of_lt (by omega)]
  refine ⟨exact, ?_⟩
  rw [UInt64.le_iff_toNat_le]
  omega

theorem Books.charged (books : Books prior unlisted r aloft) (node : Nat) (air : UInt64)
    (round : Nat) : Books prior unlisted (r.charge node air round).2
      (if (r.charge node air round).1 = true then aloft ++ [(node, air)] else aloft) := by
  obtain ⟨sent, total, used, budget, rejected, collided, tooWeak, blocked, own⟩ := books
  unfold Run.charge
  split
  · -- refused: an entry without airtime
    constructor
    · simpa [Tally.record, sentIn_concat] using sent
    · simpa [Tally.record, airIn_concat] using total
    · intro other
      simpa [Tally.record, airOf_concat] using used other
    · exact budget
    · simpa [Tally.record, entriesOf_concat] using rejected
    · simpa [Tally.record, entriesOf_concat] using collided
    · simpa [Tally.record, entriesOf_concat] using tooWeak
    · simpa [Tally.record, entriesOf_concat] using blocked
    · exact own
  · rename_i allowed
    rw [Bool.not_eq_false] at allowed
    obtain ⟨exact, most⟩ := duty_add allowed
    constructor
    · simp only [List.length_append, List.length_singleton, if_true]
      omega
    · simp only [if_true, air_concat, UInt64.toNat_add]
      omega
    · intro other
      have before := used other
      simp only [if_true, aloft_concat]
      by_cases same : node = other
      · subst same
        rw [Function.update_self, if_pos rfl]
        omega
      · rw [Function.update_of_ne (Ne.symm same), if_neg same]
        omega
    · intro other
      by_cases same : other = node
      · subst same
        dsimp only
        rw [Function.update_self]
        exact Or.inr most
      · simpa only [Function.update_of_ne same] using budget other
    · exact rejected
    · exact collided
    · exact tooWeak
    · exact blocked
    · exact own

theorem bump_beside (outcome : Outcome) (t : Tally) :
    (bump outcome t).framesSent = t.framesSent ∧ (bump outcome t).airtimeMs = t.airtimeMs ∧
      (bump outcome t).timeline = t.timeline ∧ (bump outcome t).onAir = t.onAir ∧
      (bump outcome t).rejected = t.rejected + (if outcome = .rejected then 1 else 0) ∧
      (bump outcome t).collided = t.collided + (if outcome = .collided then 1 else 0) ∧
      (bump outcome t).tooWeak = t.tooWeak + (if outcome = .tooWeak then 1 else 0) ∧
      (bump outcome t).dutyCycleBlocked =
        t.dutyCycleBlocked + (if outcome = .dutyCycleBlocked then 1 else 0) := by
  cases outcome <;> exact ⟨rfl, rfl, rfl, rfl, rfl, rfl, rfl, rfl⟩

/-- A frame that was aloft comes to an entry, which the counters go by. -/
theorem Books.landed {sender : Nat} {air : UInt64}
    (books : Books prior unlisted r ((sender, air) :: aloft)) {q : Run} {entry : TraceEntry}
    (aired : entry.outcome ≠ .dutyCycleBlocked) (whose : entry.sender = sender)
    (long : entry.airtimeMs = air) (tally : q.tally = bump entry.outcome r.tally)
    (used : q.usedAirtime = r.usedAirtime) : Books prior unlisted (q.record entry) aloft := by
  obtain ⟨sent, total, spent, budget, rejected, collided, tooWeak, blocked, own⟩ := books
  obtain ⟨t1, t2, t3, t4, t5, t6, t7, t8⟩ := bump_beside entry.outcome r.tally
  have fields : (q.record entry).tally =
      { bump entry.outcome r.tally with timeline := r.tally.timeline ++ [entry] } := by
    rw [Run.record, tally, Tally.record, t3]
  have usage : (q.record entry).usedAirtime = r.usedAirtime := used
  constructor
  · rw [fields, sentIn_concat, if_neg aired]
    rw [List.length_cons] at sent
    dsimp only
    omega
  · rw [fields, airIn_concat, long]
    rw [air_cons] at total
    dsimp only at total ⊢
    rw [t2]
    omega
  · intro node
    have here := spent node
    rw [airOf_cons] at here
    rw [fields, usage, airOf_concat, whose, long]
    dsimp only at here ⊢
    omega
  · intro node
    rw [usage]
    exact budget node
  · rw [fields, entriesOf_concat]
    dsimp only
    omega
  · rw [fields, entriesOf_concat]
    dsimp only
    omega
  · rw [fields, entriesOf_concat]
    dsimp only
    omega
  · rw [fields, entriesOf_concat]
    dsimp only
    omega
  · rw [fields]
    dsimp only
    rw [t4]
    exact own

/-! ## Accepting a frame -/

/-- The name a frame is accepted under. -/
def nameOf (C : Primitives) (frames : Nat → Bytes) (manifest : List VerifyingKey)
    (subject : Subject) (sender : Nat) : Option String :=
  (signed C subject manifest labGroupKey (frames sender)).map fun envelope =>
    memberId envelope.authorIndex.toNat

/-- What an acceptance leaves. -/
structure Accepted (C : Primitives) (frames : Nat → Bytes) (manifest : List VerifyingKey)
    (subject : Subject) (sender : Nat) (r : Run) (out : Outcome × Run) : Prop where
  outcome : out.1 = if (nameOf C frames manifest subject sender).isSome = true then .decoded
    else .rejected
  tally : out.2.tally = bump out.1 r.tally
  used : out.2.usedAirtime = r.usedAirtime
  elapsed : out.2.elapsedMs = r.elapsedMs
  verified : ∀ id, id ∈ out.2.verified ↔
    id ∈ r.verified ∨ nameOf C frames manifest subject sender = some id
  once : r.verified.Nodup → out.2.verified.Nodup

theorem accepted_accept (r : Run) (sender : Nat) : Accepted C frames manifest subject sender r
    (r.accept C frames manifest subject sender) := by
  unfold Run.accept
  cases found : signed C subject manifest labGroupKey (frames sender) with
  | none =>
    have unnamed : nameOf C frames manifest subject sender = none := by rw [nameOf, found]; rfl
    exact ⟨by simp [unnamed], rfl, rfl, rfl, by simp [unnamed], fun once => once⟩
  | some envelope =>
    have named : nameOf C frames manifest subject sender =
        some (memberId envelope.authorIndex.toNat) := by rw [nameOf, found]; rfl
    dsimp only
    split
    · rename_i known
      refine ⟨by simp [named], rfl, rfl, rfl, fun id => ?_, fun once => once⟩
      rw [named, Option.some.injEq]
      refine ⟨Or.inl, ?_⟩
      rintro (old | rfl)
      · exact old
      · exact known
    · rename_i unknown
      refine ⟨by simp [named], rfl, rfl, rfl, fun id => ?_, fun once => ?_⟩
      · rw [named, Option.some.injEq, List.mem_append, List.mem_singleton]
        exact or_congr_right eq_comm
      · refine List.nodup_append.mpr ⟨once, List.nodup_singleton _, ?_⟩
        rintro id old _ new rfl
        exact unknown (List.mem_singleton.mp new ▸ old)

theorem startFor_beside (sender : Nat) (air window : UInt64) :
    (r.startFor s sender air window).2.tally = r.tally ∧
      (r.startFor s sender air window).2.usedAirtime = r.usedAirtime ∧
      (r.startFor s sender air window).2.verified = r.verified ∧
      (r.startFor s sender air window).2.elapsedMs = r.elapsedMs := by
  unfold Run.startFor
  split <;> exact ⟨rfl, rfl, rfl, rfl⟩

theorem charge_beside (node : Nat) (air : UInt64) (round : Nat) :
    (r.charge node air round).2.verified = r.verified ∧
      (r.charge node air round).2.elapsedMs = r.elapsedMs ∧
      (r.charge node air round).2.tally.onAir = r.tally.onAir := by
  unfold Run.charge
  split <;> exact ⟨rfl, rfl, rfl⟩

/-! ## Who has been counted -/

/-- Whom the observer has heard out: itself, once it has answered, and the senders of decoded
frames. -/
def HeardOut (own : Prop) (timeline : List TraceEntry) (sender : Nat) : Prop :=
  (sender = observer ∧ own) ∨ ∃ e ∈ timeline, e.sender = sender ∧ e.outcome = .decoded

section roll

variable (C : Primitives) (frames : Nat → Bytes) (manifest : List VerifyingKey) (subject : Subject)

/-- The names verified are those of the frames heard out, each once. -/
structure Roll (own : Prop) (r : Run) : Prop where
  once : r.verified.Nodup
  members : ∀ id, id ∈ r.verified ↔ ∃ sender, HeardOut own r.tally.timeline sender ∧
    nameOf C frames manifest subject sender = some id

end roll

variable {own : Prop}

theorem heardOut_concat (timeline : List TraceEntry) (e : TraceEntry) (sender : Nat) :
    HeardOut own (timeline ++ [e]) sender ↔
      HeardOut own timeline sender ∨ (e.sender = sender ∧ e.outcome = .decoded) := by
  simp only [HeardOut, List.mem_append, List.mem_singleton]
  constructor
  · rintro (self | ⟨d, listed | rfl, whose⟩)
    · exact Or.inl (Or.inl self)
    · exact Or.inl (Or.inr ⟨d, listed, whose⟩)
    · exact Or.inr whose
  · rintro ((self | ⟨d, listed, whose⟩) | whose)
    · exact Or.inl self
    · exact Or.inr ⟨d, Or.inl listed, whose⟩
    · exact Or.inr ⟨e, Or.inr rfl, whose⟩

/-- One entry more, and the name of its sender if it was heard out. -/
theorem Roll.listed (roll : Roll C frames manifest subject own r) {q : Run} {e : TraceEntry}
    (timeline : q.tally.timeline = r.tally.timeline)
    (verified : ∀ id, id ∈ q.verified ↔ id ∈ r.verified ∨
      (e.outcome = .decoded ∧ nameOf C frames manifest subject e.sender = some id))
    (once : r.verified.Nodup → q.verified.Nodup) :
    Roll C frames manifest subject own (q.record e) := by
  refine ⟨once roll.once, fun id => ?_⟩
  have shown : (q.record e).tally.timeline = r.tally.timeline ++ [e] := by
    rw [Run.record, Tally.record, timeline]
  rw [shown]
  refine (verified id).trans ?_
  rw [roll.members]
  simp only [heardOut_concat]
  constructor
  · rintro (⟨sender, out, named⟩ | ⟨decoded, named⟩)
    · exact ⟨sender, Or.inl out, named⟩
    · exact ⟨e.sender, Or.inr ⟨rfl, decoded⟩, named⟩
  · rintro ⟨sender, out | ⟨rfl, decoded⟩, named⟩
    · exact Or.inl ⟨sender, out, named⟩
    · exact Or.inr ⟨decoded, named⟩

/-- One entry more that says nothing was heard. -/
theorem Roll.unheard (roll : Roll C frames manifest subject own r) {q : Run} {e : TraceEntry}
    (timeline : q.tally.timeline = r.tally.timeline) (verified : q.verified = r.verified)
    (other : e.outcome ≠ .decoded) : Roll C frames manifest subject own (q.record e) := by
  refine roll.listed timeline (fun id => ?_) (fun once => verified ▸ once)
  rw [verified]
  exact (or_iff_left fun decoded => other decoded.1).symm

theorem Roll.alike (roll : Roll C frames manifest subject own r) {q : Run}
    (timeline : q.tally.timeline = r.tally.timeline) (verified : q.verified = r.verified) :
    Roll C frames manifest subject own q :=
  ⟨verified ▸ roll.once, by rw [verified, timeline]; exact roll.members⟩

theorem bump_timeline (outcome : Outcome) (t : Tally) : (bump outcome t).timeline = t.timeline :=
  (bump_beside outcome t).2.2.1

theorem Roll.charged (roll : Roll C frames manifest subject own r) (node : Nat) (air : UInt64)
    (round : Nat) : Roll C frames manifest subject own (r.charge node air round).2 := by
  unfold Run.charge
  split
  · exact roll.unheard (q := { r with tally := { r.tally with
      dutyCycleBlocked := r.tally.dutyCycleBlocked + 1 } }) rfl rfl (by rintro ⟨⟩)
  · exact roll.alike rfl rfl

/-! ## Keying up -/

/-- What is on the air and has no entry: the observer's own frame has one at once. -/
def aloftOf (onAir : List (Nat × Transmission)) : Aloft :=
  (onAir.filter fun p => decide (p.1 ≠ observer)).map fun p => (p.1, p.2.airtimeMs)

theorem aloftOf_append (first second : List (Nat × Transmission)) :
    aloftOf (first ++ second) = aloftOf first ++ aloftOf second := by
  simp [aloftOf]

theorem aloftOf_own {onAir : List (Nat × Transmission)} (own : ∀ p ∈ onAir, p.1 = observer) :
    aloftOf onAir = [] := by
  rw [aloftOf, List.map_eq_nil_iff, List.filter_eq_nil_iff]
  intro p mem
  simp [own p mem]

theorem reaches_other {topology : Topology} {sender fleet : Nat}
    (reaches : topology.reaches sender observer fleet = true) : sender ≠ observer := by
  cases topology with
  | fullyConnected => exact of_decide_eq_true reaches
  | partitioned =>
    rw [Topology.reaches, Bool.and_eq_true] at reaches
    exact of_decide_eq_true reaches.1

/-- The books and the roll of a round under way. -/
structure Sound (C : Primitives) (s : Scenario) (frames : Nat → Bytes)
    (manifest : List VerifyingKey) (subject : Subject) (unlisted : Nat) (own : Prop) (f : Flight) :
    Prop where
  books : Books s.priorAirtimeMs unlisted f.run (aloftOf f.onAir)
  roll : Roll C frames manifest subject own f.run

theorem Sound.keyUp {f : Flight} (sound : Sound C s frames manifest subject unlisted own f)
    (round : Nat) (window : UInt64) (sender : Nat) :
    Sound C s frames manifest subject unlisted own (Run.keyUp s frames round window f sender) := by
  have books := sound.books.charged sender (Run.air frames sender) round
  have roll := sound.roll.charged sender (Run.air frames sender) round
  unfold Run.keyUp
  dsimp only
  generalize f.run.charge sender (Run.air frames sender) round = charged at books roll
  split
  · rename_i refused
    rw [refused] at books
    exact ⟨books, roll⟩
  · rename_i granted
    rw [Bool.not_eq_false] at granted
    rw [if_pos granted] at books
    obtain ⟨tally, used, verified, -⟩ :=
      @startFor_beside s charged.2 sender (Run.air frames sender) window
    split
    · rename_i reaches
      have other := reaches_other reaches
      refine ⟨?_, roll.alike (by rw [tally]) verified⟩
      dsimp only
      rw [aloftOf_append]
      have mine : aloftOf [(sender, (⟨(charged.2.startFor s sender (Run.air frames sender)
          window).1, Run.air frames sender, (rssiAtObserver s.geometry sender
          (charged.2.startFor s sender (Run.air frames sender) window).2.drawn).1⟩ :
          Transmission))] = [(sender, Run.air frames sender)] := by
        simp [aloftOf, other]
      rw [mine]
      exact books.alike tally used
    · have first := books.perm (List.perm_append_singleton _ _)
      exact ⟨first.landed (by rintro ⟨⟩) rfl rfl tally used,
        roll.unheard (by rw [tally]) verified (by rintro ⟨⟩)⟩

theorem Sound.keyUps {f : Flight} (sound : Sound C s frames manifest subject unlisted own f)
    (round : Nat) (window : UInt64) (pending : List Nat) :
    Sound C s frames manifest subject unlisted own
      (pending.foldl (Run.keyUp s frames round window) f) := by
  induction pending generalizing f with
  | nil => exact sound
  | cons sender pending ih => exact ih (sound.keyUp round window sender)

theorem sound_schedule (books : Books s.priorAirtimeMs unlisted r [])
    (roll : Roll C frames manifest subject own r) (round : Nat) (window : UInt64)
    (pending : List Nat) : Sound C s frames manifest subject unlisted own
      (r.schedule s frames round window pending) := by
  refine Sound.keyUps ⟨?_, roll.alike rfl rfl⟩ round window pending
  dsimp only
  rw [aloftOf_own books.own]
  obtain ⟨a, b, c, d, e, f, g, h, -⟩ := books
  exact ⟨a, b, c, d, e, f, g, h, by simp⟩

/-! ## Hearing -/

/-- Whether a sender tries again after such an outcome. -/
def TriesAgain (acknowledgement : Acknowledgement) : Outcome → Prop
  | .collided | .tooWeak | .unreachable | .lostToResidualNoise => True
  | .decoded | .rejected => acknowledgement = .none
  | .ownTransmission | .dutyCycleBlocked => False

/-- What hearing a frame leaves. -/
structure Heard (C : Primitives) (s : Scenario) (frames : Nat → Bytes) (manifest : List VerifyingKey)
    (subject : Subject) (sender : Nat) (frame : Transmission) (others : List Transmission) (r : Run)
    (out : Outcome × Bool × Run) : Prop where
  aired : out.1 ≠ .dutyCycleBlocked
  tally : out.2.2.tally = bump out.1 r.tally
  used : out.2.2.usedAirtime = r.usedAirtime
  elapsed : out.2.2.elapsedMs = r.elapsedMs
  verified : ∀ id, id ∈ out.2.2.verified ↔ id ∈ r.verified ∨
    (out.1 = .decoded ∧ nameOf C frames manifest subject sender = some id)
  once : r.verified.Nodup → out.2.2.verified.Nodup
  again : out.2.1 = true → TriesAgain s.acknowledgement out.1
  hit : out.1 = .collided → receive frame others ≠ .tooWeak ∧ receive frame others ≠ .decoded

theorem heard_hear (r : Run) (sender : Nat) (frame : Transmission) (others : List Transmission) :
    Heard C s frames manifest subject sender frame others r
      (r.hear C s frames manifest subject sender frame others) := by
  unfold Run.hear
  split
  · exact ⟨by rintro ⟨⟩, rfl, rfl, rfl, by simp, fun once => once, fun _ => trivial, by rintro ⟨⟩⟩
  · dsimp only
    split
    · exact ⟨by rintro ⟨⟩, rfl, rfl, rfl, by simp, fun once => once, fun _ => trivial,
        by rintro ⟨⟩⟩
    · obtain ⟨outcome, tally, used, elapsed, verified, once⟩ :=
        @accepted_accept C frames manifest subject { r with rng := r.rng.nextUnit.2 } sender
      refine ⟨?_, tally, used, elapsed, fun id => ?_, once, fun stays => ?_, fun collided => ?_⟩
      · rw [outcome]
        split <;> rintro ⟨⟩
      · rw [verified, outcome]
        cases nameOf C frames manifest subject sender <;> simp
      · rw [outcome]
        have unheard := of_decide_eq_true stays
        split <;> exact unheard
      · have clear := outcome.symm.trans collided
        split at clear <;> cases clear
  · rename_i weak decoded
    exact ⟨by rintro ⟨⟩, rfl, rfl, rfl, by simp, fun once => once, fun _ => trivial,
      fun _ => ⟨weak, decoded⟩⟩

theorem sound_deliver (before onAir : List (Nat × Transmission)) (round : Nat)
    {state : Run × List Nat} (books : Books s.priorAirtimeMs unlisted state.1 (aloftOf onAir))
    (roll : Roll C frames manifest subject own state.1) :
    let out := (eachWithOthers Prod.snd before onAir).foldl
      (Run.deliverOne C s frames manifest subject round) state
    Books s.priorAirtimeMs unlisted out.1 [] ∧ Roll C frames manifest subject own out.1 := by
  induction onAir generalizing before state with
  | nil => exact ⟨books, roll⟩
  | cons p onAir ih =>
    obtain ⟨sender, frame⟩ := p
    rw [eachWithOthers, List.foldl_cons]
    by_cases mine : sender = observer
    · have passed : Run.deliverOne C s frames manifest subject round state ((sender, frame),
          before.map Prod.snd ++ onAir.map Prod.snd) = state := if_pos mine
      rw [passed]
      refine ih _ ?_ roll
      rwa [aloftOf, List.filter_cons_of_neg (by simp [mine])] at books
    · obtain ⟨aired, tally, used, -, verified, once, -, -⟩ := @heard_hear C s frames manifest subject
        state.1 sender frame (before.map Prod.snd ++ onAir.map Prod.snd)
      rw [Run.deliverOne]
      dsimp only
      rw [if_neg mine]
      rw [aloftOf, List.filter_cons_of_pos (by simp [mine])] at books
      refine ih _ ?_ ?_
      · exact books.landed aired rfl rfl tally used
      · exact roll.listed (by rw [tally, bump_timeline]) verified once

/-! ## The observer's own answer -/

theorem Books.grounded (books : Books prior unlisted r aloft) {q : Run}
    {onAir : List (Nat × Transmission)} (own : ∀ p ∈ onAir, p.1 = observer)
    (tally : q.tally = { r.tally with onAir := onAir }) (used : q.usedAirtime = r.usedAirtime) :
    Books prior unlisted q aloft := by
  cases q
  dsimp only at tally used
  subst tally used
  obtain ⟨a, b, c, d, e, f, g, h, -⟩ := books
  exact ⟨a, b, c, d, e, f, g, h, own⟩

/-- A vote that is counted with no frame on the air. -/
theorem Books.unaired (books : Books prior 0 r aloft) {out : Outcome × Run}
    (accepted : Accepted C frames manifest subject observer r out) :
    Books prior (if nameOf C frames manifest subject observer = none then 1 else 0) out.2 aloft := by
  obtain ⟨outcome, tally, used, -, -, -⟩ := accepted
  obtain ⟨sent, air, spent, budget, rejected, collided, tooWeak, blocked, own⟩ := books
  obtain ⟨t1, t2, t3, t4, t5, t6, t7, t8⟩ := bump_beside out.1 r.tally
  rw [← tally] at t1 t2 t3 t4 t5 t6 t7 t8
  rw [← used] at spent budget
  rw [← t1, ← t3] at sent
  rw [← t2, ← t3] at air
  rw [← t3] at spent rejected collided tooWeak blocked
  rw [← t4] at own
  cases found : nameOf C frames manifest subject observer with
  | none =>
    rw [found, Option.isSome_none, if_neg Bool.false_ne_true] at outcome
    rw [outcome] at t5 t6 t7 t8
    refine ⟨sent, air, spent, budget, ?_, ?_, ?_, ?_, own⟩
    · rw [t5, rejected]; rfl
    · rw [t6, collided]; rfl
    · rw [t7, tooWeak]; rfl
    · rw [t8, blocked]; rfl
  | some name =>
    rw [found, Option.isSome_some, if_pos rfl] at outcome
    rw [outcome] at t5 t6 t7 t8
    refine ⟨sent, air, spent, budget, ?_, ?_, ?_, ?_, own⟩
    · rw [t5, rejected]; rfl
    · rw [t6, collided]; rfl
    · rw [t7, tooWeak]; rfl
    · rw [t8, blocked]; rfl

theorem Roll.answered (roll : Roll C frames manifest subject False r) {q : Run}
    (timeline : q.tally.timeline = r.tally.timeline)
    (verified : ∀ id, id ∈ q.verified ↔
      id ∈ r.verified ∨ nameOf C frames manifest subject observer = some id)
    (once : r.verified.Nodup → q.verified.Nodup) : Roll C frames manifest subject True q := by
  refine ⟨once roll.once, fun id => (verified id).trans ?_⟩
  rw [roll.members, timeline]
  constructor
  · rintro (⟨sender, ⟨-, ⟨⟩⟩ | listed, named⟩ | named)
    · exact ⟨sender, Or.inr listed, named⟩
    · exact ⟨observer, Or.inl ⟨rfl, trivial⟩, named⟩
  · rintro ⟨sender, ⟨rfl, -⟩ | listed, named⟩
    · exact Or.inr named
    · exact Or.inl ⟨sender, Or.inr listed, named⟩

theorem Roll.congr {own' : Prop} (roll : Roll C frames manifest subject own r)
    (same : own ↔ own') : Roll C frames manifest subject own' r :=
  propext same ▸ roll

/-- The rejection that has no entry: that of the observer's own vote, when its frame may not go
out. -/
def unlistedBy (C : Primitives) (s : Scenario) (frames : Nat → Bytes)
    (manifest : List VerifyingKey) (subject : Subject) : Nat :=
  if s.silent = 0 ∧ dutyCycleOk s.priorAirtimeMs (Run.air frames observer) = false ∧
      nameOf C frames manifest subject observer = none then 1
  else 0

theorem charge_fst (node : Nat) (air : UInt64) (round : Nat) :
    (r.charge node air round).1 = dutyCycleOk (r.usedAirtime node) air := by
  unfold Run.charge
  split
  · rename_i refused
    exact refused.symm
  · rename_i granted
    exact (eq_true_of_ne_false granted).symm

theorem sound_answers (books : Books s.priorAirtimeMs 0 r [])
    (roll : Roll C frames manifest subject False r)
    (fresh : r.usedAirtime observer = s.priorAirtimeMs) (window : UInt64) :
    Books s.priorAirtimeMs (unlistedBy C s frames manifest subject)
        (r.observerAnswers C s frames manifest subject window) [] ∧
      Roll C frames manifest subject (s.silent = 0)
        (r.observerAnswers C s frames manifest subject window) := by
  have allowed := charge_fst (r := r) observer (Run.air frames observer) 0
  have charged := books.charged observer (Run.air frames observer) 0
  have chargedRoll := roll.charged observer (Run.air frames observer) 0
  rw [fresh] at allowed
  unfold Run.observerAnswers unlistedBy
  by_cases quiet : s.silent = 0
  · rw [if_neg (not_not_intro quiet)]
    dsimp only
    generalize r.charge observer (Run.air frames observer) 0 = out at allowed charged chargedRoll
    by_cases refused : out.1 = false
    · have accepts := @accepted_accept C frames manifest subject out.2 observer
      rw [if_pos refused]
      rw [refused, if_neg Bool.false_ne_true] at charged
      refine ⟨?_, (chargedRoll.answered ?_ accepts.verified accepts.once).congr
        (iff_of_true trivial quiet)⟩
      · have counted := charged.unaired accepts
        simpa only [quiet, ← allowed, refused, true_and] using counted
      · rw [accepts.tally, bump_timeline]
    · rw [if_neg refused]
      rw [Bool.not_eq_false] at refused
      rw [if_neg (by rw [← allowed, refused]; simp)]
      rw [if_pos refused, List.nil_append] at charged
      obtain ⟨tally, used, verified, -⟩ :=
        @startFor_beside s out.2 observer (Run.air frames observer) window
      generalize out.2.startFor s observer (Run.air frames observer) window = started at *
      have aired : Books s.priorAirtimeMs 0
          { started.2 with tally := { started.2.tally with
              onAir := started.2.tally.onAir ++
                [(observer, .ownTransmission started.1 (Run.air frames observer))] } }
          [(observer, Run.air frames observer)] := by
        refine charged.grounded (fun p mem => ?_) (by rw [tally]) used
        rw [List.mem_append, List.mem_singleton] at mem
        rcases mem with old | rfl
        · exact charged.own p old
        · rfl
      have listed : Roll C frames manifest subject False
          { started.2 with tally := { started.2.tally with
              onAir := started.2.tally.onAir ++
                [(observer, .ownTransmission started.1 (Run.air frames observer))] } } :=
        chargedRoll.alike (by rw [tally]) verified
      generalize ({ started.2 with tally := { started.2.tally with
          onAir := started.2.tally.onAir ++
            [(observer, .ownTransmission started.1 (Run.air frames observer))] } } : Run) = flying
        at aired listed ⊢
      have accepts := @accepted_accept C frames manifest subject flying observer
      constructor
      · refine aired.landed ?_ rfl rfl ?_ accepts.used
        · dsimp only
          split <;> rintro ⟨⟩
        · rw [accepts.tally, accepts.outcome]
          split <;> rfl
      · have voted := listed.answered (by rw [accepts.tally, bump_timeline]) accepts.verified
          accepts.once
        refine (voted.unheard rfl rfl ?_).congr (iff_of_true trivial quiet)
        dsimp only
        split <;> rintro ⟨⟩
  · rw [if_pos quiet, if_neg fun h => quiet h.1]
    exact ⟨books, roll.congr (iff_of_false id quiet)⟩

/-! ## All the rounds -/

/-- Whoever has answered when a round is scheduled. -/
def beginning (C : Primitives) (s : Scenario) (frames : Nat → Bytes)
    (manifest : List VerifyingKey) (subject : Subject) (r : Run) (number : Nat) : Run :=
  if number = 0 then
    r.observerAnswers C s frames manifest subject (Run.windowFor s frames number)
  else r

theorem round_eq (number : Nat) (pending : List Nat) :
    let flight := (beginning C s frames manifest subject r number).schedule s frames number
      (Run.windowFor s frames number) pending
    let delivered := Run.deliver C s frames manifest subject number flight
    (r.round C s frames manifest subject number pending).1 = { delivered.1 with
      elapsedMs := max (Run.tail delivered.1.elapsedMs flight.onAir)
        (delivered.1.elapsedMs + Run.windowFor s frames number) } ∧
      (r.round C s frames manifest subject number pending).2 = delivered.2 :=
  ⟨rfl, rfl⟩

/-- A round's frames all come to an entry. -/
theorem sound_heard (books : Books s.priorAirtimeMs unlisted r [])
    (roll : Roll C frames manifest subject own r) (round : Nat) (window : UInt64)
    (pending : List Nat) :
    let out := Run.deliver C s frames manifest subject round
      (r.schedule s frames round window pending)
    Books s.priorAirtimeMs unlisted out.1 [] ∧ Roll C frames manifest subject own out.1 := by
  have flight := sound_schedule books roll round window pending
  exact sound_deliver [] _ round flight.books flight.roll

theorem sound_round (number : Nat) (pending : List Nat)
    (books : Books s.priorAirtimeMs unlisted (beginning C s frames manifest subject r number) [])
    (roll : Roll C frames manifest subject own
      (beginning C s frames manifest subject r number)) :
    Books s.priorAirtimeMs unlisted (r.round C s frames manifest subject number pending).1 [] ∧
      Roll C frames manifest subject own
        (r.round C s frames manifest subject number pending).1 := by
  obtain ⟨books', roll'⟩ := sound_heard books roll number (Run.windowFor s frames number) pending
  rw [(round_eq number pending).1]
  exact ⟨books'.alike rfl rfl, roll'.alike rfl rfl⟩

theorem sound_rounds {numbers : List Nat} (later : 0 ∉ numbers)
    (books : Books s.priorAirtimeMs unlisted r []) (roll : Roll C frames manifest subject own r)
    (pending : List Nat) :
    Books s.priorAirtimeMs unlisted (Run.rounds C s frames manifest subject numbers r pending) [] ∧
      Roll C frames manifest subject own
        (Run.rounds C s frames manifest subject numbers r pending) := by
  induction numbers generalizing r pending with
  | nil => exact ⟨books, roll⟩
  | cons number numbers ih =>
    rw [List.mem_cons, not_or] at later
    rw [Run.rounds]
    split
    · exact ⟨books, roll⟩
    · have begun : beginning C s frames manifest subject r number = r :=
        if_neg (Ne.symm later.1)
      obtain ⟨books', roll'⟩ := sound_round number pending (begun.symm ▸ books)
        (begun.symm ▸ roll)
      exact ih later.2 books' roll' _

/-- Whether the observer has answered: there is no round when nobody has to be heard. -/
def answers (s : Scenario) : Prop := s.silent = 0 ∧ awaited s ≠ []

theorem books_new : Books s.priorAirtimeMs 0 (Run.new s) [] :=
  ⟨rfl, rfl, fun _ => rfl, fun _ => Or.inl rfl, rfl, rfl, rfl, rfl, by
    rintro p ⟨⟩⟩

theorem roll_new : Roll C frames manifest subject False (Run.new s) := by
  refine ⟨List.nodup_nil, fun id => ⟨?_, ?_⟩⟩
  · rintro ⟨⟩
  · rintro ⟨sender, ⟨-, ⟨⟩⟩ | ⟨e, ⟨⟩, -⟩, -⟩

/-- The books and the roll of a whole run. -/
theorem sound_played (frames : Nat → Bytes) :
    Books s.priorAirtimeMs
        (if awaited s = [] then 0 else unlistedBy C s frames (keysOf C s.fleet) simSubject)
        (played C s frames) [] ∧
      Roll C frames (keysOf C s.fleet) simSubject (answers s) (played C s frames) := by
  unfold played answers
  have numbers : List.range maxRetries = 0 :: [1, 2, 3, 4] := rfl
  rw [numbers, Run.rounds]
  by_cases none : awaited s = []
  · rw [if_pos none, if_pos none]
    exact ⟨books_new, roll_new.congr (iff_of_false id fun both => both.2 none)⟩
  · rw [if_neg none, if_neg none]
    obtain ⟨books, roll⟩ := @sound_answers C s frames (keysOf C s.fleet) simSubject _ books_new
      roll_new rfl (Run.windowFor s frames 0)
    have begun : beginning C s frames (keysOf C s.fleet) simSubject (.new s) 0 =
        (Run.new s).observerAnswers C s frames (keysOf C s.fleet) simSubject
          (Run.windowFor s frames 0) := if_pos rfl
    rw [← begun] at books roll
    obtain ⟨books', roll'⟩ := sound_round 0 (awaited s) books roll
    exact sound_rounds (by decide) books' (roll'.congr (and_iff_left none).symm) _

/-! ## The report -/

theorem mapM_map {α β : Type} {f : α → Option β} {l : List α} {made : List β}
    (done : l.mapM f = some made) : l.map f = made.map some := by
  induction l generalizing made with
  | nil =>
    cases done
    rfl
  | cons a l ih =>
    rw [List.mapM_cons, Option.bind_eq_bind, Option.bind_eq_some_iff] at done
    obtain ⟨b, here, done⟩ := done
    rw [Option.bind_eq_bind, Option.bind_eq_some_iff] at done
    obtain ⟨rest, there, done⟩ := done
    cases done
    rw [List.map_cons, List.map_cons, here, ih there]

theorem mapM_range {α : Type} {f : Nat → Option α} {count : Nat} {made : List α}
    (done : (List.range count).mapM f = some made) (fallback : α) {i : Nat} (inside : i < count) :
    f i = some (made.getD i fallback) := by
  have maps := congrArg (fun l => l[i]?) (mapM_map done)
  simp only [List.getElem?_map, List.getElem?_range inside, Option.map_some] at maps
  obtain ⟨a, found, same⟩ := Option.map_eq_some_iff.mp maps.symm
  rw [List.getD_eq_getElem?_getD, found, ← same]
  rfl

/-- What a run that comes to an end has gone through. -/
structure Ran (C : Primitives) (s : Scenario) (report : Report) (policy : Quorum.Policy)
    (frames : Nat → Bytes) (outcome : Quorum.QuorumResult) : Prop where
  chartered : Quorum.Policy.new (standing s.fleet) = .ok policy
  framed : ∀ sender < s.fleet, frameFor C s sender = some (frames sender)
  judged : Quorum.evaluate policy (played C s frames).verified = .ok outcome
  endorsed : report.endorsed = outcome.approved
  supporters : report.bindingSupporters = (played C s frames).verified.length
  least : report.minSigners = policy.minSigners
  sent : report.framesSent = (played C s frames).tally.framesSent
  rejected : report.rejectedFrames = (played C s frames).tally.rejected
  collided : report.collidedFrames = (played C s frames).tally.collided
  tooWeak : report.tooWeakFrames = (played C s frames).tally.tooWeak
  blocked : report.dutyCycleBlocked = (played C s frames).tally.dutyCycleBlocked
  air : report.airtimeMs = (played C s frames).tally.airtimeMs
  timeline : report.timeline = (played C s frames).tally.timeline

theorem toOption_eq_some {ε α : Type} {x : Except ε α} {a : α} (some : x.toOption = some a) :
    x = .ok a := by
  cases x with
  | error e => cases some
  | ok b =>
    cases some
    rfl

theorem run_ran {report : Report} (ran : s.run C = some report) :
    ∃ policy frames outcome, Ran C s report policy frames outcome := by
  unfold Scenario.run at ran
  simp only [Option.bind_eq_bind, Option.bind_eq_some_iff] at ran
  obtain ⟨policy, chartered, frames, framed, outcome, judged, made⟩ := ran
  cases made
  refine ⟨policy, fun sender => frames.getD sender [], outcome, toOption_eq_some chartered,
    fun _ inside => mapM_range framed [] inside, toOption_eq_some judged, rfl, rfl, rfl, rfl, rfl,
    rfl, rfl, rfl, rfl, rfl⟩

/-- Every count in a report is that of its timeline, but for one rejection when the observer's own
frame may not go out, and nobody is on the air for longer than is left of the hour's budget. -/
theorem report_accounts (C : Primitives) (s : Scenario) (report : Report)
    (ran : s.run C = some report) :
    report.framesSent = (sentIn report.timeline).length ∧
      report.airtimeMs.toNat = airIn report.timeline % 2 ^ 64 ∧
      report.collidedFrames = (entriesOf .collided report.timeline).length ∧
      report.tooWeakFrames = (entriesOf .tooWeak report.timeline).length ∧
      report.dutyCycleBlocked = (entriesOf .dutyCycleBlocked report.timeline).length ∧
      (report.rejectedFrames = (entriesOf .rejected report.timeline).length ∨
        report.rejectedFrames = (entriesOf .rejected report.timeline).length + 1 ∧
          s.silent = 0 ∧ ∃ frame, frameFor C s observer = some frame ∧
            dutyCycleOk s.priorAirtimeMs (Schedule.airtimeMs frame.length) = false) ∧
      ∀ node, airOf node report.timeline = 0 ∨
        s.priorAirtimeMs.toNat + airOf node report.timeline ≤ dutyCycleBudgetMs.toNat := by
  obtain ⟨policy, frames, outcome, ran⟩ := run_ran ran
  obtain ⟨books, -⟩ := @sound_played C s frames
  rw [ran.timeline]
  refine ⟨ran.sent.trans books.sent, ran.air ▸ books.air, ran.collided.trans books.collided,
    ran.tooWeak.trans books.tooWeak, ran.blocked.trans books.blocked, ?_, fun node => ?_⟩
  · have rejected := ran.rejected.trans books.rejected
    unfold unlistedBy at rejected
    split at rejected
    · exact Or.inl rejected
    · split at rejected
      · rename_i why
        exact Or.inr ⟨rejected, why.1, _, ran.framed observer s.manned, why.2.1⟩
      · exact Or.inl rejected
  · have used := books.used node
    have none : Aloft.airOf node [] = 0 := rfl
    rcases books.budget node with same | within
    · rw [same] at used
      exact Or.inl (by omega)
    · have most := UInt64.le_iff_toNat_le.mp within
      exact Or.inr (by omega)

/-- Three members in slots, one of whom signs as another and is never acknowledged. -/
def patrol : Scenario where
  fleet := 3
  loss := 0
  seed := 1
  topology := .fullyConnected
  silent := 0
  forgers := 1
  geometry := none
  priorAirtimeMs := 30000
  access := .slotted 100
  acknowledgement := .none
  manned := by decide
  counted := by decide

def patrolled : Report := (patrol.run plain).get (by decide +kernel)

theorem patrol_ran : patrol.run plain = some patrolled := (Option.some_get _).symm

theorem report_accounts_patrol :
    patrolled.framesSent = (sentIn patrolled.timeline).length ∧
      ∀ node, airOf node patrolled.timeline = 0 ∨
        30000 + airOf node patrolled.timeline ≤ dutyCycleBudgetMs.toNat := by
  have accounts := report_accounts plain patrol patrolled patrol_ran
  exact ⟨accounts.1, accounts.2.2.2.2.2.2⟩

end ScenarioAccounts
