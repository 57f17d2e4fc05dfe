import Lcq.CastVotes

/-!
# The first vote of a member

Of the binding votes a node takes, counted or held, in this life or an earlier
one, the first of each member is the one its case ends up with: unless that one
is pushed out by another held before the close, or drained when no vote is
taken, or not put back by a restart.
-/

namespace FirstVotes

open Admission ByteFormat CastVotes Contracts FileSystem JournalRecords JournalState LogJournal
  NodeLoop NodeSteps OrderedMap Program Supporters Transitions Undisturbed Utterances Wire

variable {P : Postcard} {C : Primitives} {station : Station C} {y : Tally} {frame : Bytes}
  {member : Nat}

/-! ## What is known of the votes taken -/

/-- What is taken are votes, and what is counted of a member was taken first. -/
structure Tracked (station : Station C) (y : Tally) : Prop where
  counted : Counted station y
  expires : y.case.expiresAt = station.subject.defaultExpiry
  voters : ∀ p ∈ y.trace.taken, castBy station p.2 = some p.1
  first : ∀ p ∈ y.trace.counted, y.trace.taken.lookup p.1 = some p.2

/-- The first votes are counted or still to be offered, unless some have lapsed; of what waits
under a member some may not be votes at all. -/
structure Waiting (station : Station C) (waits : Nat → Bytes → Prop) (y : Tally) : Prop
    extends Tracked station y where
  kept : ∀ member frame, y.trace.taken.lookup member = some frame →
    (member, frame) ∈ y.trace.counted ∨ waits member frame ∨ y.trace.lapsed = true
  waiting : ∀ member frame, waits member frame → ∀ author, castBy station frame = some author →
    author = member ∧ ∀ other, y.trace.taken.lookup member = some other → other = frame

/-- What waits are the votes held. -/
structure Firsts (station : Station C) (y : Tally) : Prop
    extends Waiting station (fun (member : Nat) frame => y.early[member]? = some frame) y where
  consulting : y.case.phase = .consulting → y.trace.lapsed = false
  collecting : y.case.phase = .collectingVotes → ∀ member : Nat, y.early[member]? = none

/-- What waits are the votes taken out at the close and not yet offered. -/
structure Drains (station : Station C) (rest : List (Nat × Bytes)) (y : Tally) : Prop
    extends Waiting station (fun member frame => (member, frame) ∈ rest) y where
  collecting : y.case.phase = .collectingVotes
  apart : (rest.map Prod.fst).Nodup
  emptied : ∀ member : Nat, y.early[member]? = none

/-- Windows, ghosts of what was read and one's own flags are no matter. -/
theorem Tracked.aside {z : Tally} (tracked : Tracked station y) (case : z.case = y.case)
    (counted : z.trace.counted = y.trace.counted) (taken : z.trace.taken = y.trace.taken) :
    Tracked station z := by
  refine ⟨tracked.counted.aside case counted, case ▸ tracked.expires, ?_, ?_⟩
  · rw [taken]
    exact tracked.voters
  · rw [counted, taken]
    exact tracked.first

theorem Firsts.aside {z : Tally} (firsts : Firsts station y) (case : z.case = y.case)
    (early : z.early = y.early) (counted : z.trace.counted = y.trace.counted)
    (taken : z.trace.taken = y.trace.taken) (lapsed : z.trace.lapsed = y.trace.lapsed) :
    Firsts station z := by
  refine ⟨⟨firsts.toTracked.aside case counted taken, ?_, ?_⟩, ?_, ?_⟩
  · rw [taken, counted, early, lapsed]
    exact firsts.kept
  · rw [taken, early]
    exact firsts.waiting
  · rw [case, lapsed]
    exact firsts.consulting
  · rw [case, early]
    exact firsts.collecting

theorem Tracked.listed {z : Tally} (tracked : Tracked station y) (listed : Listed y z) :
    Tracked station z := by
  obtain ⟨independent, rfl⟩ := listed
  have orderly := tracked.counted.orderly
  exact ⟨⟨tracked.counted.subject, ⟨orderly.early, orderly.once, orderly.voted, orderly.staged⟩,
    tracked.counted.casts⟩, tracked.expires, tracked.voters, tracked.first⟩

theorem Firsts.listed {z : Tally} (firsts : Firsts station y) (listed : Listed y z) :
    Firsts station z := by
  have tracked := firsts.toTracked.listed listed
  obtain ⟨independent, rfl⟩ := listed
  exact ⟨⟨tracked, firsts.kept, firsts.waiting⟩, firsts.consulting, firsts.collecting⟩

theorem lookup_snoc (taken : List (Nat × Bytes)) (member other : Nat) (frame : Bytes) :
    (taken ++ [(member, frame)]).lookup other =
      (taken.lookup other).or (if other = member then some frame else none) := by
  rw [List.lookup_append, List.lookup_cons, List.lookup_nil]
  congr 1
  by_cases same : other = member
  · rw [if_pos same, beq_iff_eq.mpr same]
  · rw [if_neg same, beq_eq_false_iff_ne.mpr same]

/-- What is first stays first. -/
theorem lookup_stays {taken : List (Nat × Bytes)} {other : Nat} {first : Bytes}
    (found : taken.lookup other = some first) (member : Nat) (frame : Bytes) :
    (taken ++ [(member, frame)]).lookup other = some first := by
  rw [lookup_snoc, found, Option.some_or]

/-- Who has taken nothing before takes this first. -/
theorem lookup_first {taken : List (Nat × Bytes)}
    (first : ∀ other, taken.lookup member = some other → other = frame) :
    (taken ++ [(member, frame)]).lookup member = some frame := by
  rw [lookup_snoc, if_pos rfl]
  cases found : taken.lookup member with
  | none => rfl
  | some other => rw [first other found, Option.some_or]

theorem lookup_mem {taken : List (Nat × Bytes)} (found : taken.lookup member = some frame) :
    (member, frame) ∈ taken := by
  obtain ⟨before, after, rfl, -⟩ := List.lookup_eq_some_iff.mp found
  exact List.mem_append_right _ List.mem_cons_self

/-! ## Counting one -/

/-- A member has voted exactly if a frame of its has been counted. -/
theorem voted_iff (counted : Counted station y) (small : member < station.fleet.size) :
    station.memberId member ∈ y.case.voted ↔ ∃ frame, (member, frame) ∈ y.trace.counted := by
  rw [counted.orderly.voted, List.mem_map]
  constructor
  · rintro ⟨o, inside, author⟩
    obtain ⟨⟨other, frame⟩, listed, casts⟩ := forall₂_mem_right counted.casts inside
    have same := Acknowledgements.memberId_inj casts.member_lt small
      (casts.author.symm.trans author)
    dsimp only at same
    subst same
    exact ⟨frame, listed⟩
  · rintro ⟨frame, listed⟩
    obtain ⟨o, inside, casts⟩ := forall₂_mem_left counted.casts listed
    exact ⟨o, inside, casts.author⟩

/-- Counting the first vote of a member. -/
theorem Tracked.counting {o : Opinion} {case : Case} {clock : Clock}
    (tracked : Tracked station y) (after : Counted station (counting y case member frame))
    (ok : y.case.accept o clock = .ok case) (cast : castBy station frame = some member)
    (first : ∀ other, y.trace.taken.lookup member = some other → other = frame) :
    Tracked station (counting y case member frame) := by
  refine ⟨after, ?_, ?_, ?_⟩
  · obtain ⟨-, -, ⟨-, -, listed, rfl⟩ | ⟨-, -, -, -, rfl⟩⟩ := Case.accept_ok ok
    · exact tracked.expires
    · exact tracked.expires
  · intro p mem
    rcases List.mem_append.mp mem with old | new
    · exact tracked.voters p old
    · cases List.mem_singleton.mp new
      exact cast
  · intro p mem
    rcases List.mem_append.mp mem with old | new
    · exact lookup_stays (tracked.first p old) _ _
    · cases List.mem_singleton.mp new
      exact lookup_first first

/-- What waits is first still, behind one more that is counted. -/
theorem Waiting.counting {waits : Nat → Bytes → Prop} {o : Opinion} {case : Case} {clock : Clock}
    (waiting : Waiting station waits y) (after : Counted station (counting y case member frame))
    (ok : y.case.accept o clock = .ok case) (cast : castBy station frame = some member)
    (first : ∀ other, y.trace.taken.lookup member = some other → other = frame)
    (alone : ∀ kept, waits member kept → kept = frame) :
    Waiting station waits (counting y case member frame) := by
  refine ⟨waiting.toTracked.counting after ok cast first, ?_, ?_⟩
  · intro other kept found
    have taken : (CastVotes.counting y case member frame).trace.taken =
        y.trace.taken ++ [(member, frame)] := rfl
    rw [taken, lookup_snoc] at found
    cases before : y.trace.taken.lookup other with
    | some held =>
      rw [before, Option.some_or] at found
      cases found
      rcases waiting.kept other kept before with counted | rest
      · exact Or.inl (List.mem_append_left _ counted)
      · exact Or.inr rest
    | none =>
      rw [before, Option.none_or] at found
      split at found
      · rename_i same
        cases found
        subst same
        exact Or.inl (List.mem_append_right _ List.mem_cons_self)
      · cases found
  · intro other kept waits author casts
    obtain ⟨own, only⟩ := waiting.waiting other kept waits author casts
    refine ⟨own, fun found here => ?_⟩
    by_cases same : other = member
    · subst same
      rw [alone kept waits]
      exact Option.some.inj (here.symm.trans (lookup_first first))
    · dsimp only [CastVotes.counting, Tally.hasTaken] at here
      rw [lookup_snoc, if_neg same, Option.or_none] at here
      exact only found here

/-- A frame is offered from anywhere but a drain, after a lapse at times only at which no vote
is taken. -/
theorem Firsts.offered (firsts : Firsts station y) (frame : Bytes) {clock : Clock}
    (past : y.trace.lapsed = true → y.case.untimely clock = true) :
    Firsts station (y.offered station frame clock).2 := by
  have after := firsts.counted.offered frame clock
  rcases offered_cases station y frame clock with ⟨-, listed⟩ |
    ⟨member, o, case, -, casts, ok, grown, same⟩
  · exact firsts.listed listed
  · obtain ⟨phase, timely, fresh, rfl⟩ := accept_timely ok grown
    rw [same] at after ⊢
    have first : ∀ other, y.trace.taken.lookup member = some other → other = frame := by
      intro other found
      rcases firsts.kept member other found with counted | held | lapsed
      · refine absurd ?_ fresh
        rw [casts.author]
        exact (voted_iff firsts.counted casts.member_lt).mpr ⟨other, counted⟩
      · rw [firsts.collecting phase member] at held
        cases held
      · rw [past lapsed] at timely
        cases timely
    refine ⟨firsts.toWaiting.counting after ok (castBy_casts casts) first fun kept held => ?_,
      fun consulting => ?_, fun _ => firsts.collecting phase⟩
    · exact absurd (held.symm.trans (firsts.collecting phase member)) (Option.some_ne_none kept)
    · exact absurd (phase.symm.trans consulting) (by decide)

/-! ## Holding one -/

theorem counted_early (tracked : Tracked station y) (consulting : y.case.phase = .consulting) :
    y.trace.counted = [] := by
  have casts := tracked.counted.casts
  rw [tracked.counted.orderly.early consulting] at casts
  exact List.forall₂_nil_right_iff.mp casts

/-- A vote is held while consultation is open, and pushes no other one out. -/
theorem Firsts.held (firsts : Firsts station y) {learned : Admitted}
    (early : learned.refused = some .wrongStageForPhase →
      y.case.phase = .consulting ∧ ∀ member sequence, learned.verified = some (member, sequence) →
        castBy station frame = some member ∧ ∀ other, y.early[member]? = some other →
          castBy station other = some member → other = frame) :
    Firsts station (y.held learned frame) := by
  unfold Tally.held
  split
  · exact firsts
  rename_i member sequence found
  split
  swap
  · exact firsts
  rename_i refused
  obtain ⟨consulting, alone⟩ := early refused.1
  obtain ⟨cast, only⟩ := alone member sequence found
  have first : ∀ other, y.trace.taken.lookup member = some other → other = frame := by
    intro other before
    rcases firsts.kept member other before with counted | held | lapsed
    · rw [counted_early firsts.toTracked consulting] at counted
      cases counted
    · exact only other held (firsts.voters _ (lookup_mem before))
    · rw [firsts.consulting consulting] at lapsed
      cases lapsed
  refine ⟨⟨⟨firsts.counted.aside rfl rfl, firsts.expires, ?_, ?_⟩, ?_, ?_⟩, firsts.consulting, ?_⟩
  · intro p mem
    rcases List.mem_append.mp mem with old | new
    · exact firsts.voters p old
    · cases List.mem_singleton.mp new
      exact cast
  · exact fun p mem => lookup_stays (firsts.first p mem) _ _
  · intro other kept here
    dsimp only [Tally.hasTaken] at here ⊢
    rw [lookup_snoc] at here
    rw [get_insert]
    cases before : y.trace.taken.lookup other with
    | some g =>
      rw [before, Option.some_or] at here
      cases here
      rcases firsts.kept other kept before with counted | held | lapsed
      · exact Or.inl counted
      · right
        left
        split
        · rename_i same
          subst same
          rw [only kept held (firsts.voters _ (lookup_mem before))]
        · exact held
      · exact Or.inr (Or.inr lapsed)
    | none =>
      rw [before, Option.none_or] at here
      split at here
      · rename_i same
        cases here
        exact Or.inr (Or.inl (if_pos same.symm))
      · cases here
  · intro other kept here author casts
    dsimp only [Tally.hasTaken] at here ⊢
    rw [get_insert] at here
    split at here
    · rename_i same
      cases here
      subst same
      refine ⟨Option.some.inj (casts.symm.trans cast), fun found here => ?_⟩
      exact Option.some.inj (here.symm.trans (lookup_first first))
    · rename_i same
      obtain ⟨own, only⟩ := firsts.waiting other kept here author casts
      refine ⟨own, fun found here => only found ?_⟩
      rwa [lookup_snoc, if_neg (Ne.symm same), Option.or_none] at here
  · intro collecting
    exact absurd (consulting.symm.trans collecting) (by decide)

/-! ## The close -/

theorem Waiting.narrow {waits waits' : Nat → Bytes → Prop} (waiting : Waiting station waits y)
    (less : ∀ member frame, waits' member frame → waits member frame)
    (gone : ∀ member frame, waits member frame → y.trace.taken.lookup member = some frame →
      waits' member frame ∨ (member, frame) ∈ y.trace.counted ∨ y.trace.lapsed = true) :
    Waiting station waits' y := by
  refine ⟨waiting.toTracked, fun member frame found => ?_, fun member frame here =>
    waiting.waiting member frame (less member frame here)⟩
  rcases waiting.kept member frame found with counted | rest | lapsed
  · exact Or.inl counted
  · rcases gone member frame rest found with still | counted | lapsed
    · exact Or.inr (Or.inl still)
    · exact Or.inl counted
    · exact Or.inr (Or.inr lapsed)
  · exact Or.inr (Or.inr lapsed)

theorem Drains.step {p : Nat × Bytes} {rest : List (Nat × Bytes)}
    (drains : Drains station (p :: rest) y) (t : Turn) :
    Drains station rest (NodeSteps.draining station t y p) := by
  have waits := drains.waiting p.1 p.2 List.mem_cons_self
  obtain ⟨fresh, apart⟩ := List.nodup_cons.mp drains.apart
  unfold NodeSteps.draining
  generalize t.clock (.drained p.1) = clock
  by_cases late : y.case.untimely clock = true
  · -- a lapse, and the offer is refused
    have lapsed : y.draining clock = { y with trace := { y.trace with lapsed := true } } :=
      if_pos late
    rw [lapsed]
    have tracked : Tracked station { y with trace := { y.trace with lapsed := true } } :=
      drains.toTracked.aside rfl rfl rfl
    have waits : Waiting station (fun member frame => (member, frame) ∈ rest)
        { y with trace := { y.trace with lapsed := true } } :=
      ⟨tracked, fun _ _ _ => Or.inr (Or.inr rfl), fun member frame mem =>
        drains.waiting member frame (List.mem_cons_of_mem _ mem)⟩
    rcases offered_cases station
        { y with trace := { y.trace with lapsed := true } } p.2 clock with ⟨-, listed⟩ |
      ⟨member, o, case, -, casts, ok, grown, -⟩
    · have after := tracked.listed listed
      obtain ⟨independent, same⟩ := listed
      rw [same] at after ⊢
      exact ⟨⟨after, waits.kept, waits.waiting⟩, drains.collecting, apart, drains.emptied⟩
    · obtain ⟨-, timely, -⟩ := accept_timely ok grown
      rw [show Case.untimely y.case clock = false from timely] at late
      cases late
  · have same : y.draining clock = y := if_neg late
    rw [same]
    have counted := drains.counted.offered p.2 clock
    rcases offered_cases station y p.2 clock with ⟨none, listed⟩ |
      ⟨member, o, case, -, casts, ok, grown, counts⟩
    · have waits : Waiting station (fun member frame => (member, frame) ∈ rest) y := by
        refine drains.toWaiting.narrow (fun _ _ => List.mem_cons_of_mem _)
          fun member frame mem first => ?_
        rcases List.mem_cons.mp mem with here | later
        · -- its author has voted, and by this frame
          have cast : castBy station p.2 = some p.1 :=
            here ▸ drains.voters _ (lookup_mem first)
          have voted := (offered_uncounted cast drains.counted.subject drains.collecting
            none).resolve_left late
          obtain ⟨other, before⟩ := (voted_iff drains.counted (castBy_lt cast)).mp voted
          have earlier := (waits p.1 cast).2 other (drains.first _ before)
          subst earlier
          exact Or.inr (Or.inl (here ▸ before))
        · exact Or.inl later
      have after := drains.toTracked.listed listed
      obtain ⟨independent, same⟩ := listed
      rw [same] at after ⊢
      exact ⟨⟨after, waits.kept, waits.waiting⟩, drains.collecting, apart, drains.emptied⟩
    · rw [counts] at counted ⊢
      obtain ⟨rfl, only⟩ := waits member (castBy_casts casts)
      obtain ⟨-, -, -, rfl⟩ := accept_timely ok grown
      have waits := drains.toWaiting.counting counted ok (castBy_casts casts) only
        fun kept mem => by
          rcases List.mem_cons.mp mem with here | later
          · exact congrArg Prod.snd here
          · exact absurd (List.mem_map.mpr ⟨_, later, rfl⟩) fresh
      refine ⟨waits.narrow (fun _ _ => List.mem_cons_of_mem _) fun member frame mem _ => ?_,
        drains.collecting, apart, drains.emptied⟩
      rcases List.mem_cons.mp mem with rfl | later
      · exact Or.inr (Or.inl (List.mem_append_right _ List.mem_cons_self))
      · exact Or.inl later

theorem drains_all {rest : List (Nat × Bytes)} (drains : Drains station rest y) (t : Turn) :
    Drains station [] (rest.foldl (NodeSteps.draining station t) y) := by
  induction rest generalizing y with
  | nil => exact drains
  | cons p rest ih => exact ih (drains.step t)

/-- When consultation closes, what was held waits to be drained. -/
theorem Firsts.shutting {case : Case} {clock : Clock} (firsts : Firsts station y)
    (ok : y.case.closeConsultation clock = .ok case) :
    Drains station y.early.toList { y with case, closed := true, early := ∅ } := by
  have orderly := Case.orderly_close firsts.counted.orderly ok
  obtain ⟨-, -, rfl⟩ := Case.closeConsultation_ok ok
  have tracked : Tracked station { y with
      case := { y.case with phase := .collectingVotes }, closed := true, early := ∅ } :=
    ⟨⟨firsts.counted.subject, orderly, firsts.counted.casts⟩, firsts.expires, firsts.voters,
      firsts.first⟩
  refine ⟨⟨tracked, fun member frame found => ?_, fun member frame mem => ?_⟩, rfl, ?_,
    fun member => ?_⟩
  · rw [Std.ExtTreeMap.mem_toList_iff_getElem?_eq_some]
    exact firsts.kept member frame found
  · rw [Std.ExtTreeMap.mem_toList_iff_getElem?_eq_some] at mem
    exact firsts.waiting member frame mem
  · rw [Std.ExtTreeMap.map_fst_toList_eq_keys]
    exact Std.ExtTreeMap.nodup_keys
  · exact Std.ExtTreeMap.getElem?_empty

theorem Firsts.closing (firsts : Firsts station y) (t : Turn) :
    Firsts station (NodeSteps.closing station t y) := by
  unfold NodeSteps.closing
  split
  swap
  · exact firsts
  split
  · exact firsts
  rename_i case ok
  have drained := drains_all (firsts.shutting ok) t
  refine ⟨drained.toWaiting.narrow (fun member frame here => ?_) fun _ _ mem _ => ?_,
    fun consulting => ?_, fun _ => drained.emptied⟩
  · exact absurd (here.symm.trans (drained.emptied member)) (Option.some_ne_none frame)
  · exact absurd mem List.not_mem_nil
  · exact absurd (drained.collecting.symm.trans consulting) (by decide)

/-! ## At the radio -/

section conditions

variable (station) (t : Turn) (anchor : Option Nat) (y : Tally)

/-- What the clock reads when the frame that is read is offered. -/
def atOffer : Clock := if anchor.isSome = true then t.clock .received else t.clock .anchor

/-- The frame that is read would push another vote out of those held. -/
def pushesOut : Bool :=
  match t.received with
  | none => false
  | some frame =>
    match castBy station frame with
    | none => false
    | some member =>
      (anchor.isSome || (lateAnchor station frame (t.now .anchor 0)).isSome)
        && !dropped station frame y && decide (y.case.phase = .consulting)
        && !certainlyAfter (atOffer t anchor 0) y.case.expiresAt
        && (y.early[member]?.any fun other =>
          decide (other ≠ frame) && decide (castBy station other = some member))

/-- After a lapse no frame is offered at a time at which votes are taken. -/
def staysLapsed : Bool :=
  !y.trace.lapsed || (y.case.untimely (atOffer t anchor) &&
    y.case.untimely (t.clock (.own .independent)) &&
    y.case.untimely (t.clock (.own .consultation)) &&
    y.case.untimely (t.clock (.own .bindingSupport)))

end conditions

theorem untimely_congr {case other : Case} (same : case.expiresAt = other.expiresAt)
    (clock : Clock) :
    case.untimely clock = other.untimely clock := by
  rw [Case.untimely, Case.untimely, Case.doubtful, Case.doubtful, same]

variable (station) in
/-- What an offer never changes. -/
theorem offered_same (y : Tally) (frame : Bytes) (clock : Clock) :
    (y.offered station frame clock).2.case.expiresAt = y.case.expiresAt ∧
      (y.offered station frame clock).2.trace.lapsed = y.trace.lapsed ∧
      (y.offered station frame clock).2.early = y.early := by
  rcases offered_cases station y frame clock with ⟨-, _, same⟩ |
    ⟨_, _, case, -, -, ok, -, same⟩
  · rw [same]
    exact ⟨rfl, rfl, rfl⟩
  · rw [same]
    refine ⟨?_, rfl, rfl⟩
    obtain ⟨-, -, ⟨-, -, _, rfl⟩ | ⟨-, -, -, -, rfl⟩⟩ := Case.accept_ok ok
    · rfl
    · rfl

/-- What reading a frame has to find. -/
structure Unpushed (station : Station C) (frame : Bytes) (clock : Clock) (y : Tally) : Prop where
  past : y.trace.lapsed = true → y.case.untimely clock = true
  alone : y.case.phase = .consulting → certainlyAfter (clock 0) y.case.expiresAt = false →
    ∀ member, castBy station frame = some member → ∀ other, y.early[member]? = some other →
      castBy station other = some member → other = frame

/-- What is held after an offer pushes nothing out. -/
theorem Unpushed.early {clock : Clock} (unpushed : Unpushed station frame clock y)
    (refused : (y.offered station frame clock).1.refused = some .wrongStageForPhase) :
    y.case.phase = .consulting ∧ ∀ member sequence,
      (y.offered station frame clock).1.verified = some (member, sequence) →
        castBy station frame = some member ∧
          ∀ other, (y.offered station frame clock).2.early[member]? = some other →
            castBy station other = some member → other = frame := by
  obtain ⟨same, consulting, valid, casts⟩ := offered_early refused
  refine ⟨consulting, fun member sequence found => ⟨casts member sequence found, ?_⟩⟩
  rw [same]
  exact unpushed.alone consulting valid member (casts member sequence found)

theorem Firsts.anchoring {clock : Clock} (firsts : Firsts station y)
    (unpushed : Unpushed station frame clock y) :
    Firsts station (NodeSteps.anchoring station y frame clock) := by
  have offered := firsts.offered frame unpushed.past
  refine offered.held fun refused => ?_
  rw [show (y.offered station frame clock).2.case = y.case from
    congrArg Tally.case (offered_early refused).1]
  exact unpushed.early refused

theorem Firsts.marked (firsts : Firsts station y) (member : Nat) (sequence : UInt64) :
    Firsts station (y.marked member sequence) :=
  firsts.aside rfl rfl rfl rfl rfl

theorem Firsts.reading {clock : Clock} (firsts : Firsts station y)
    (unpushed : Unpushed station frame clock y) :
    Firsts station (NodeSteps.reading station y frame clock) := by
  have offered := firsts.offered frame unpushed.past
  unfold NodeSteps.reading
  dsimp only
  split
  · exact offered
  · refine (offered.marked _ _).held fun refused => ?_
    show (y.offered station frame clock).2.case.phase = .consulting ∧ _
    rw [show (y.offered station frame clock).2.case = y.case from
      congrArg Tally.case (offered_early refused).1]
    exact unpushed.early refused

/-- Genuine frames read are a ghost. -/
theorem Firsts.hasReceived (firsts : Firsts station y) (frame : Bytes) :
    Firsts station (y.hasReceived station frame) := by
  obtain ⟨received, same⟩ := hasReceived_rest station y frame
  rw [same]
  exact firsts.aside rfl rfl rfl rfl rfl

variable (station) in
theorem hasReceived_same (y : Tally) (frame : Bytes) :
    (y.hasReceived station frame).case = y.case ∧
      (y.hasReceived station frame).early = y.early ∧
      (y.hasReceived station frame).trace.lapsed = y.trace.lapsed := by
  obtain ⟨received, same⟩ := hasReceived_rest station y frame
  rw [same]
  exact ⟨rfl, rfl, rfl⟩

/-- A turn at whose radio nothing is pushed out. -/
theorem unpushed_radio {t : Turn} {anchor : Option Nat} (received : t.received = some frame)
    (kept : pushesOut station t anchor y = false) (stays : staysLapsed t anchor y = true)
    (read : (anchor.isSome || (lateAnchor station frame (t.now .anchor 0)).isSome) = true)
    (undropped : dropped station frame y = false) :
    Unpushed station frame (atOffer t anchor) y := by
  constructor
  · intro lapsed
    simp only [staysLapsed, lapsed, Bool.not_true, Bool.false_or, Bool.and_eq_true] at stays
    exact stays.1.1.1
  · intro consulting valid member cast other held vote
    by_contra differs
    simp only [pushesOut, received, cast, read, undropped, consulting, held, Option.any_some,
      valid, vote, decide_true, Bool.not_false, Bool.true_and, Bool.and_true,
      decide_eq_false_iff_not, not_not] at kept
    exact differs kept

theorem Unpushed.aside {z : Tally} {clock : Clock} (unpushed : Unpushed station frame clock y)
    (case : z.case = y.case) (early : z.early = y.early)
    (lapsed : z.trace.lapsed = y.trace.lapsed) : Unpushed station frame clock z := by
  constructor
  · rw [lapsed, case]
    exact unpushed.past
  · rw [case, early]
    exact unpushed.alone

theorem Firsts.hearing {t : Turn} {anchor : Nat} (firsts : Firsts station y)
    (kept : pushesOut station t (some anchor) y = false)
    (stays : staysLapsed t (some anchor) y = true) :
    Firsts station (NodeSteps.hearing station t y) := by
  unfold NodeSteps.hearing
  split
  · exact firsts
  rename_i frame received
  have read := firsts.hasReceived frame
  dsimp only
  split
  · exact read
  rename_i undropped
  split
  · exact read.marked _ _
  · have unpushed : Unpushed station frame (t.clock .received) y :=
      unpushed_radio received kept stays rfl (by simpa [dropped] using undropped)
    obtain ⟨case, early, lapsed⟩ := hasReceived_same station y frame
    exact read.reading (unpushed.aside case early lapsed)

theorem Firsts.awaiting {t : Turn} (firsts : Firsts station y)
    (kept : pushesOut station t none y = false) (stays : staysLapsed t none y = true) :
    Firsts station (NodeSteps.awaiting station t y) := by
  unfold NodeSteps.awaiting
  split
  · exact firsts
  rename_i frame received
  split
  · exact firsts
  rename_i undropped
  split
  · exact (firsts.marked _ _).hasReceived _
  split
  · exact firsts
  · rename_i late anchored
    have unpushed : Unpushed station frame (t.clock .anchor) y :=
      unpushed_radio received kept stays (by rw [anchored]; rfl)
        (by simpa [dropped] using undropped)
    have marked := firsts.marked late.author late.sequence
    obtain ⟨case, early, lapsed⟩ := hasReceived_same station
      (y.marked late.author late.sequence) frame
    exact (marked.hasReceived frame).anchoring (unpushed.aside case early lapsed)

/-! ## Turns -/

/-- A held vote had lapsed, and a frame of one's own was offered at a time at which votes are
taken. -/
def Spoiled (t : Turn) (y : Tally) : Prop :=
  y.trace.lapsed = true ∧ ∃ stage, y.case.untimely (t.clock (.own stage)) = false

theorem Spoiled.not_stays {t : Turn} {anchor : Option Nat} (spoiled : Spoiled t y) :
    staysLapsed t anchor y = false := by
  obtain ⟨lapsed, stage, timely⟩ := spoiled
  cases stage <;> simp [staysLapsed, lapsed, timely]

theorem Spoiled.aside {t : Turn} {z : Tally} (spoiled : Spoiled t y)
    (expires : z.case.expiresAt = y.case.expiresAt) (lapsed : z.trace.lapsed = y.trace.lapsed) :
    Spoiled t z := by
  obtain ⟨had, stage, timely⟩ := spoiled
  refine ⟨lapsed.trans had, stage, ?_⟩
  rw [untimely_congr expires]
  exact timely

variable (station) in
theorem ownMarked_same (y : Tally) (frame : Bytes) :
    ∃ windows, y.ownMarked station frame = { y with windows } := by
  unfold Tally.ownMarked
  split
  · exact ⟨_, rfl⟩
  · exact ⟨_, rfl⟩

variable (station) in
theorem sending_same (t : Turn) (y : Tally) (stage : Stage) (frame : Bytes) :
    (NodeSteps.sending station t y stage frame).case.expiresAt = y.case.expiresAt ∧
      (NodeSteps.sending station t y stage frame).trace.lapsed = y.trace.lapsed := by
  obtain ⟨windows, marked⟩ := ownMarked_same station y frame
  rw [NodeSteps.sending, NodeSteps.admittingOwn, marked]
  split
  · obtain ⟨expires, lapsed, -⟩ := offered_same station
      (Tally.admittedOwn { y with windows } stage) frame (t.clock (.own stage))
    exact ⟨expires, lapsed⟩
  · exact ⟨rfl, rfl⟩

/-- What the node sends itself is offered like any other frame. -/
theorem Firsts.sending (firsts : Firsts station y) (t : Turn) (stage : Stage) (frame : Bytes) :
    Firsts station (NodeSteps.sending station t y stage frame) ∨ Spoiled t y := by
  by_cases past : y.trace.lapsed = true ∧ y.case.untimely (t.clock (.own stage)) = false
  · exact Or.inr ⟨past.1, stage, past.2⟩
  · left
    obtain ⟨windows, marked⟩ := ownMarked_same station y frame
    rw [NodeSteps.sending, NodeSteps.admittingOwn, marked]
    split
    · have admitted : Firsts station (Tally.admittedOwn { y with windows } stage) :=
        firsts.aside rfl rfl rfl rfl rfl
      refine admitted.offered frame fun lapsed => ?_
      by_contra timely
      exact past ⟨lapsed, Bool.eq_false_iff.mpr timely⟩
    · exact firsts.aside rfl rfl rfl rfl rfl

variable {t : Turn} {n : Node}

theorem firsts_untilRadio (firsts : Firsts station n.mind.tally) :
    Yields (untilRadio P station t) n fun _ k =>
      Firsts station k.mind.tally ∨ Spoiled t k.mind.tally := by
  refine (yields_untilRadio (I := fun k => Firsts station k.mind.tally)
    (A := fun k => Firsts station k.mind.tally ∨ Spoiled t k.mind.tally) ?_ ?_ ?_ ?_).weaken ?_
  · intro m became
    rw [became.tally]
    exact firsts
  · intro m k here became
    rw [became.tally]
    exact Or.inl (Firsts.closing here t)
  · intro stage m k here spoke
    cases spoke with
    | silent became =>
      rw [became.tally]
      exact here
    | sent _ _ tally =>
      rw [tally]
      obtain ⟨expires, lapsed⟩ := sending_same station t m.mind.tally stage _
      rcases here with firsts | spoiled
      · exact (firsts.sending t stage _).imp_right fun spoiled => spoiled.aside expires lapsed
      · exact Or.inr (spoiled.aside expires lapsed)
  · intro m k here became
    rw [became.tally]
    exact here
  · intro anchor k here
    cases anchor with
    | none => exact Or.inl here
    | some anchor => exact here

/-- The turn pushes no held vote out, and takes none after a lapse. -/
def keeping (P : Postcard) (station : Station C) (t : Turn) (n : Node) : Bool :=
  match untilRadio P station t n with
  | (.ok anchor, k) =>
    !pushesOut station t anchor k.mind.tally && staysLapsed t anchor k.mind.tally
  | (.error _, _) => true

theorem firsts_turn (firsts : Firsts station n.mind.tally)
    (keeps : keeping P station t n = true) :
    Yields (turn P station t) n fun _ m => Firsts station m.mind.tally := by
  intro out m ran
  rw [turn_radio] at ran
  obtain ⟨anchor, k, came, rest⟩ := andThen_eq_ok ran
  simp only [keeping, came, Bool.and_eq_true, Bool.not_eq_true'] at keeps
  obtain ⟨kept, stays⟩ := keeps
  have here : Firsts station k.mind.tally := by
    refine (firsts_untilRadio firsts _ _ came).resolve_right fun spoiled => ?_
    rw [spoiled.not_stays] at stays
    cases stays
  cases anchor with
  | none =>
    rw [(yields_await _ _ rest).tally]
    exact here.awaiting kept stays
  | some anchor =>
    rw [(yields_hear anchor _ _ rest).tally]
    exact here.hearing kept stays

/-! ## Lives -/

section runs

variable (P) (station) (path : Path)

/-- What has been taken are votes, and a restart puts back the first of every member; what it
puts back under a member, if it is a vote at all, is one of the member's. -/
def putsBack (state : State) (taken : List (Nat × Bytes)) : Bool :=
  let early := restoredEarly station state
  early.toList.all (fun p => (castBy station p.2).all fun author =>
    decide (author = p.1) && (taken.lookup p.1).all fun first => decide (first = p.2)) &&
  taken.all fun p => decide (castBy station p.2 = some p.1) &&
    (early[p.1]?.any fun frame => decide (taken.lookup p.1 = some frame))

def keepsFirsts : Lives → Happening → Bool
  | .dead disk _ past, .boot entropy opening entering =>
    match boot P station path entropy opening entering disk with
    | (.error _, _) => true
    | (.ok journal, _) => putsBack station journal.state past.taken
  | .alive node, .turn t => node.mind.finished || keeping P station t node
  | _, _ => true

/-- No first vote of a member gets lost in a run. -/
def alwaysKeepsFirsts : Lives → List Happening → Bool
  | _, [] => true
  | lives, happening :: rest => keepsFirsts P station path lives happening &&
      alwaysKeepsFirsts (lives.next P station path happening) rest

end runs

theorem Firsts.begin {state : State} {taken : List (Nat × Bytes)}
    (kept : putsBack station state taken = true) : Firsts station (.begin station state taken) := by
  rw [putsBack, Bool.and_eq_true, List.all_eq_true, List.all_eq_true] at kept
  obtain ⟨back, all⟩ := kept
  have waiting (member : Nat) (frame : Bytes)
      (here : (restoredEarly station state)[member]? = some frame) (author : Nat)
      (casts : castBy station frame = some author) :
      author = member ∧ ∀ other, taken.lookup member = some other → other = frame := by
    have listed := back (member, frame) (Std.ExtTreeMap.mem_toList_iff_getElem?_eq_some.mpr here)
    rw [casts, Option.all_some, Bool.and_eq_true, decide_eq_true_eq] at listed
    refine ⟨listed.1, fun other before => ?_⟩
    have same := listed.2
    rw [before, Option.all_some, decide_eq_true_eq] at same
    exact same
  refine ⟨⟨⟨Counted.begin state taken, rfl, fun p mem => ?_, fun p none =>
    absurd none List.not_mem_nil⟩, fun member frame first => ?_, waiting⟩, fun _ => rfl,
    fun collecting => ?_⟩
  · have vote := all p mem
    rw [Bool.and_eq_true, decide_eq_true_eq] at vote
    exact vote.1
  · have here := all _ (lookup_mem first)
    rw [Bool.and_eq_true] at here
    obtain ⟨other, held, same⟩ := (Option.any_eq_true _ _).mp here.2
    have same := first.symm.trans (of_decide_eq_true same)
    cases same
    exact Or.inr (Or.inl held)
  · cases collecting

/-- In a life that is going on first votes are kept. -/
def Faithful (station : Station C) : Lives → Prop
  | .dead .. => True
  | .alive node => Firsts station node.mind.tally

theorem faithful_next {path : Path} {lives : Lives} {happening : Happening}
    (faithful : Faithful station lives)
    (keeps : keepsFirsts P station path lives happening = true) :
    Faithful station (lives.next P station path happening) := by
  cases lives with
  | dead disk sealed past =>
    cases happening with
    | boot entropy opening entering =>
      rw [Lives.next]
      split
      · trivial
      · rename_i booted
        rw [keepsFirsts, booted] at keeps
        exact Firsts.begin keeps
    | turn t => trivial
    | crash => trivial
  | alive node =>
    cases happening with
    | boot entropy opening entering => exact faithful
    | crash => trivial
    | turn t =>
      rw [Lives.next]
      split
      · exact faithful
      · rename_i going
        split
        · trivial
        · rename_i ran
          have kept : keeping P station t node = true := by
            simpa [keepsFirsts, going] using keeps
          exact firsts_turn faithful kept _ _ ran

theorem faithful_after {path : Path} {lives : Lives} {happenings : List Happening}
    (faithful : Faithful station lives)
    (keeps : alwaysKeepsFirsts P station path lives happenings = true) :
    ∀ earlier, earlier <+: happenings →
      Faithful station (lives.after P station path earlier) := by
  intro earlier before
  induction earlier generalizing lives happenings with
  | nil => exact faithful
  | cons happening earlier ih =>
    obtain ⟨rest, rfl⟩ : ∃ rest, happenings = happening :: rest := by
      obtain ⟨later, rfl⟩ := before
      exact ⟨earlier ++ later, rfl⟩
    rw [alwaysKeepsFirsts, Bool.and_eq_true] at keeps
    exact ih (faithful_next faithful keeps.1) keeps.2 (List.prefix_cons_inj happening |>.mp before)

/-- In a run in which no vote read pushes another one out of those held, every restart puts back
the first votes taken, and nothing is offered in time after a held vote has lapsed: every vote
a case counts is of a frame of its author, and of all that have been taken of that author, in
this life and those before it, that frame was the first. -/
theorem first_vote_stands (P : Postcard) (station : Station C) (path : Path) (disk : Disk Path)
    (sealed : List Sealing) (past : Past) (happenings : List Happening) :
    let start : Lives := .dead disk sealed past
    alwaysKeepsFirsts P station path start happenings = true →
    ∀ earlier, earlier <+: happenings → ∀ node,
      start.after P station path earlier = .alive node →
      ∀ o ∈ node.mind.tally.case.binding, ∃ member frame, Casts station member frame o ∧
        (member, frame) ∈ node.mind.tally.trace.counted ∧
        node.mind.tally.trace.taken.lookup member = some frame := by
  intro start keeps earlier before node reached o mem
  have faithful : Faithful station start := trivial
  have firsts := faithful_after faithful keeps earlier before
  rw [reached] at firsts
  obtain ⟨⟨member, frame⟩, counted, casts⟩ := forall₂_mem_right firsts.counted.casts mem
  exact ⟨member, frame, casts, counted, firsts.first _ counted⟩

/-- The votes a life has counted, and those taken in all. -/
def votes : Lives → List (Nat × Bytes) × List (Nat × Bytes)
  | .dead .. => ([], [])
  | .alive node => (node.mind.tally.trace.counted, node.mind.tally.trace.taken)

/-- A turn before consultation closes. -/
def heardEarly (now : Nat) (received : Bytes) : Turn :=
  { heardAt now (some received) with clock := fun _ _ => ⟨1100⟩ }

/-- The first member opens a round and reads two frames, the one before consultation closes. -/
def earlyThenLate (first second : Bytes) : List Happening :=
  [.boot 0 (fun _ => .done) (fun _ => .done),
    .turn { heardEarly 0 [] with opening := true, received := none },
    .turn (heardEarly 500000000000 first), .turn (heardAt 510000000000 (some second))]

/-- A vote is held, and another one of its author comes when consultation has closed. -/
theorem first_vote_stands_early :
    let first := voiced 1 3 1 5 ⟨0, 0⟩
    let start : Lives := .dead Disk.empty [] ⟨[], [], []⟩
    let path : Path := ⟨"member", some "journal"⟩
    let happenings := earlyThenLate first (voiced 1 3 2 6 ⟨0, 0⟩)
    votes (start.after postcard stationed path happenings) =
        ([(1, first)], [(1, first), (1, first)]) ∧
      ∀ earlier, earlier <+: happenings → ∀ node,
        start.after postcard stationed path earlier = .alive node →
        ∀ o ∈ node.mind.tally.case.binding, ∃ member frame, Casts stationed member frame o ∧
          (member, frame) ∈ node.mind.tally.trace.counted ∧
          node.mind.tally.trace.taken.lookup member = some frame := by
  intro first start path happenings
  refine ⟨by decide +kernel, ?_⟩
  exact first_vote_stands postcard stationed path Disk.empty [] ⟨[], [], []⟩ happenings
    (by decide +kernel)

/-- Both come before it closes: the other one is counted. -/
theorem first_vote_pushed :
    let first := voiced 1 3 1 5 ⟨0, 0⟩
    let second := voiced 1 3 2 6 ⟨0, 0⟩
    let start : Lives := .dead Disk.empty [] ⟨[], [], []⟩
    let happenings := (earlyThenLate first second).take 3 ++
      [.turn (heardEarly 505000000000 second), .turn (heardAt 510000000000 none)]
    castBy stationed first = some 1 ∧ castBy stationed second = some 1 ∧ first ≠ second ∧
      votes (start.after postcard stationed ⟨"member", some "journal"⟩ happenings) =
        ([(1, second)], [(1, first), (1, second), (1, second)]) := by
  decide +kernel

end FirstVotes
