import Lcq.EvaluationLaws
import Lcq.FleetSafety

/-!
# What approvals rest on

What honest members count of each other are the ballots in their files, so two
approvals that are reached anywhere, at any time, meet in the ballot of an
honest member, and nothing approves what enough of them have voted against.
-/

namespace Approvals

open Admission ArrivalOrder Ballots ByteFormat CastVotes Contracts EvaluationLaws FileSystem
  FleetSafety JournalRecords LogJournal NodeLoop NodeSteps OrderedMap Parties Quorum SealedFrames
  SlotKeeping Supporters Undisturbed Utterances Wire

variable {P : Postcard} {C : Primitives}

/-! ## One policy -/

section charter

variable (stations : Nat → Station C) (honest : Nat → Prop)

/-- Honest members go by one policy, made of the fleet's members and no others, as those of
`Fleet::uniform` and `Fleet::from_manifest` are. -/
structure Chartered : Prop where
  policy : ∀ i j, honest i → honest j → (stations i).policy = (stations j).policy
  charter : ∀ i, honest i → ∃ members bps ratio, members.map Prod.fst = (stations i).fleet.ids ∧
    Policy.withSettings members bps ratio = .ok (stations i).policy

variable {stations honest}

theorem Chartered.keys (chartered : Chartered stations honest) {i : Nat} (hi : honest i) :
    keySet (stations i).policy.competences = (stations i).fleet.ids.toFinset := by
  obtain ⟨members, bps, ratio, names, accepted⟩ := chartered.charter i hi
  ext name
  rw [← mem_members, withSettings_members accepted, names, List.mem_toFinset]

theorem Chartered.size (chartered : Chartered stations honest) {i : Nat} (hi : honest i) :
    (stations i).policy.competences.size = (stations i).fleet.size := by
  rw [← card_keySet, chartered.keys hi, List.toFinset_card_of_nodup (stations i).fleet.distinct,
    Fleet.size]

theorem Chartered.fits (chartered : Chartered stations honest) {i : Nat} (hi : honest i) :
    (stations i).policy.competences.size ≤ 2 ^ 48 := by
  have sized := (stations i).sized
  have capacity : Heard.capacity = 64 := rfl
  rw [chartered.size hi]
  omega

theorem Chartered.budget (chartered : Chartered stations honest) {i : Nat} (hi : honest i) :
    (stations i).policy.maxFaulty.toNat < (stations i).fleet.size := by
  rw [← chartered.size hi]
  exact maxFaulty_lt (chartered.fits hi)

end charter

/-- What an approval says of the supporters. -/
theorem approved_exact {station : Station C} {case : Transitions.Case}
    (fits : station.policy.competences.size ≤ 2 ^ 48) (approves : approved station case = true) :
    case.bindingSupporters.toFinset ⊆ keySet station.policy.competences ∧
      (station.policy.competences.size + station.policy.maxFaulty.toNat) / 2 + 1 ≤
        case.bindingSupporters.toFinset.card := by
  unfold approved at approves
  split at approves
  · cases approves
  · rename_i outcome ok
    have exact := evaluate_exact fits ok
    rw [QuorumResult.approved, Bool.and_eq_true] at approves
    exact ⟨exact.known, exact.countMet.mp approves.1⟩

/-! ## Runs of the fleet -/

section runs

variable {stations : Nat → Station C} {paths : Nat → Path} {honest : Nat → Prop}
  (aead : Aead C) (signatures : Signatures C) (manned : Manned stations honest)
  (apart : ∀ i, honest i → (paths i).extension ≠ some "compacting") {start : Nat → Lives}
  (fresh : ∀ i, honest i → blank P (paths i) (start i)) {events : List (Nat × Happening)}
  (follows : (fleetOf P stations paths honest).Follows (unforged stations honest) start events)

/-- A vote is the only ballot of a member at the end of a run. -/
def OnlyBallot (P : Postcard) (stations : Nat → Station C) (paths : Nat → Path)
    (honest : Nat → Prop) (start : Nat → Lives) (events : List (Nat × Happening)) (member : Nat)
    (vote : CompactEnvelope) : Prop :=
  ∀ other, Ballot (stations member) (found P (paths member)
    ((fleetOf P stations paths honest).after start events member)) other ↔ other = vote

include aead signatures manned apart fresh follows

/-- What is counted of an honest member is its ballot, from then on. -/
theorem counted_ballot {earlier : List (Nat × Happening)} (before : earlier <+: events) {i : Nat}
    (hi : honest i) {node : Node}
    (alive : (fleetOf P stations paths honest).after start earlier i = .alive node)
    {member : Nat} {frame : Bytes} (counted : (member, frame) ∈ node.mind.tally.trace.counted)
    (hm : honest member) : ∃ vote, voteOf (stations i) frame = some vote ∧
      vote.authorIndex.toNat = member ∧ ∀ later, earlier <+: later → later <+: events →
        OnlyBallot P stations paths honest start later member vote := by
  obtain ⟨keeps, lasting⟩ := keeps_after P aead signatures manned apart fresh follows before
  have kept := keeps i hi
  rw [alive] at kept
  -- the frame casts a vote of the member it is counted for
  have sincere : Counted (stations i) node.mind.tally := kept.sincere
  obtain ⟨o, -, casts⟩ := forall₂_mem_left sincere.casts counted
  have cast := castBy_casts casts
  rw [castBy_voteOf, Option.map_eq_some_iff] at cast
  obtain ⟨vote, voted, author⟩ := cast
  have known : (fleetOf P stations paths honest).Known
      ((fleetOf P stations paths honest).after start earlier) (.ballot vote) := by
    have vouched := kept.upright.counted _ counted vote voted
    by_cases own : vote.authorIndex.toNat = (stations i).options.index
    · rw [if_pos own] at vouched
      rw [manned.seat i hi] at own
      exact ⟨i, hi, own, by rw [alive]; exact vouched⟩
    · rw [if_neg own] at vouched
      exact vouched (author.symm ▸ hm)
  refine ⟨vote, voted, author, fun later more within other => ?_⟩
  have sole := ((keeps_after P aead signatures manned apart fresh follows within).1
    member hm).upright.sole
  obtain ⟨j, -, seat, ballot⟩ := lasting later more within _ known
  cases seat.symm.trans author
  constructor
  · intro another
    exact another.unique sole ballot
  · rintro rfl
    exact ballot

/-- What any two honest members count of a third, whenever they do, is one and the same vote: the
one ballot that its file keeps. -/
theorem fleet_agrees {first second : List (Nat × Happening)} (before : first <+: events)
    (before' : second <+: events) {i j member : Nat} (hi : honest i) (hj : honest j)
    (hm : honest member) {node node' : Node} {frame frame' : Bytes}
    (alive : (fleetOf P stations paths honest).after start first i = .alive node)
    (alive' : (fleetOf P stations paths honest).after start second j = .alive node')
    (counted : (member, frame) ∈ node.mind.tally.trace.counted)
    (counted' : (member, frame') ∈ node'.mind.tally.trace.counted) :
    ∃ vote, voteOf (stations i) frame = some vote ∧ voteOf (stations j) frame' = some vote ∧
      vote.authorIndex.toNat = member ∧
      ∀ later, (first <+: later ∨ second <+: later) → later <+: events →
        OnlyBallot P stations paths honest start later member vote := by
  obtain ⟨vote, voted, author, lasting⟩ := counted_ballot aead signatures manned apart fresh
    follows before hi alive counted hm
  obtain ⟨vote', voted', -, lasting'⟩ := counted_ballot aead signatures manned apart fresh
    follows before' hj alive' counted' hm
  have same : vote = vote' :=
    (lasting' events before' List.prefix_rfl vote).mp
      ((lasting events before List.prefix_rfl vote).mpr rfl)
  subst same
  refine ⟨vote, voted, voted', author, fun later more within => ?_⟩
  rcases more with more | more
  · exact lasting later more within
  · exact lasting' later more within

/-- A supporter's name is its member's, and the vote that is counted of it says support. -/
theorem supporter_ballot {earlier : List (Nat × Happening)} (before : earlier <+: events) {i : Nat}
    (hi : honest i) {node : Node}
    (alive : (fleetOf P stations paths honest).after start earlier i = .alive node)
    {member : Nat} (small : member < (stations i).fleet.size)
    (supports : (stations i).memberId member ∈ node.mind.tally.case.bindingSupporters)
    (hm : honest member) : ∃ frame vote, (member, frame) ∈ node.mind.tally.trace.counted ∧
      voteOf (stations i) frame = some vote ∧ verdictOf vote.verdict = some .support ∧
      ∀ later, earlier <+: later → later <+: events →
        OnlyBallot P stations paths honest start later member vote := by
  have kept := (keeps_after P aead signatures manned apart fresh follows before).1 i hi
  rw [alive] at kept
  have sincere : Counted (stations i) node.mind.tally := kept.sincere
  obtain ⟨seat, frame, named, counted, backs⟩ := (supporter_iff sincere _).mp supports
  have cast := castBy_lt backs.cast
  cases Acknowledgements.memberId_inj small cast named
  obtain ⟨vote, voted, -, lasting⟩ := counted_ballot aead signatures manned apart fresh follows
    before hi alive counted hm
  obtain ⟨envelope, genuine, -, stage, verdict⟩ := backs
  have same : voteOf (stations i) frame = some envelope :=
    voteOf_eq_some.mpr ⟨genuine, stage, _, verdict⟩
  cases voted.symm.trans same
  exact ⟨frame, vote, counted, voted, verdict, lasting⟩

variable (chartered : Chartered stations honest)
include chartered

/-- The honest members behind an approval, who are more than half of them. -/
theorem honest_supporters {earlier : List (Nat × Happening)} (before : earlier <+: events) {i : Nat}
    (hi : honest i) {bad : Finset Nat}
    (all : ∀ member, member < (stations i).fleet.size → member ∉ bad → honest member)
    (budget : bad.card ≤ (stations i).policy.maxFaulty.toNat) {node : Node}
    (alive : (fleetOf P stations paths honest).after start earlier i = .alive node)
    (approves : approved (stations i) node.mind.tally.case = true) :
    ∃ voters : Finset Nat, voters ⊆ Finset.range (stations i).fleet.size \ bad ∧
      (stations i).fleet.size < 2 * voters.card + bad.card ∧
      ∀ member ∈ voters, honest member ∧
        ∃ frame vote, (member, frame) ∈ node.mind.tally.trace.counted ∧
          voteOf (stations i) frame = some vote ∧ verdictOf vote.verdict = some .support ∧
          ∀ later, earlier <+: later → later <+: events →
            OnlyBallot P stations paths honest start later member vote := by
  obtain ⟨known, count⟩ := approved_exact (chartered.fits hi) approves
  rw [chartered.size hi] at count
  let supporters := node.mind.tally.case.bindingSupporters
  let voters := (Finset.range (stations i).fleet.size \ bad).filter
    fun member => (stations i).memberId member ∈ supporters
  have named : supporters.toFinset ⊆ (voters ∪ bad).image (stations i).memberId := by
    intro name mem
    have listed := known mem
    rw [chartered.keys hi, List.mem_toFinset, List.mem_iff_getElem] at listed
    obtain ⟨member, small, same⟩ := listed
    have placed : (stations i).memberId member = name := by
      rw [Station.memberId, Fleet.id, List.getD_eq_getElem _ _ small, same]
    refine Finset.mem_image.mpr ⟨member, ?_, placed⟩
    by_cases faulty : member ∈ bad
    · exact Finset.mem_union_right _ faulty
    · refine Finset.mem_union_left _ (Finset.mem_filter.mpr ⟨?_, ?_⟩)
      · exact Finset.mem_sdiff.mpr ⟨Finset.mem_range.mpr small, faulty⟩
      · rw [placed]
        exact List.mem_toFinset.mp mem
  have few : node.mind.tally.case.bindingSupporters.toFinset.card ≤ voters.card + bad.card :=
    calc supporters.toFinset.card
      _ ≤ ((voters ∪ bad).image (stations i).memberId).card := Finset.card_le_card named
      _ ≤ (voters ∪ bad).card := Finset.card_image_le
      _ ≤ voters.card + bad.card := Finset.card_union_le _ _
  refine ⟨voters, Finset.filter_subset _ _, by omega, fun member mem => ?_⟩
  obtain ⟨place, supports⟩ := Finset.mem_filter.mp mem
  obtain ⟨small, sound⟩ := Finset.mem_sdiff.mp place
  have hm := all member (Finset.mem_range.mp small) sound
  exact ⟨hm, supporter_ballot aead signatures manned apart fresh follows before hi alive
    (Finset.mem_range.mp small) supports hm⟩

variable {faulty : Finset Nat}

/-- Two approvals, wherever and whenever they are reached, share an honest member: both have
counted its one ballot, which says support. -/
theorem approvals_meet {first second : List (Nat × Happening)} (before : first <+: events)
    (before' : second <+: events) {i j : Nat} (hi : honest i) (hj : honest j)
    (all : ∀ member, member < (stations i).fleet.size → member ∉ faulty → honest member)
    (budget : faulty.card ≤ (stations i).policy.maxFaulty.toNat) {node node' : Node}
    (alive : (fleetOf P stations paths honest).after start first i = .alive node)
    (alive' : (fleetOf P stations paths honest).after start second j = .alive node')
    (approves : approved (stations i) node.mind.tally.case = true)
    (approves' : approved (stations j) node'.mind.tally.case = true) :
    ∃ member vote, honest member ∧ verdictOf vote.verdict = some .support ∧
      (∃ frame, (member, frame) ∈ node.mind.tally.trace.counted ∧
        voteOf (stations i) frame = some vote) ∧
      (∃ frame, (member, frame) ∈ node'.mind.tally.trace.counted ∧
        voteOf (stations j) frame = some vote) ∧
      ∀ later, (first <+: later ∨ second <+: later) → later <+: events →
        OnlyBallot P stations paths honest start later member vote := by
  let bad := faulty ∩ Finset.range (stations i).fleet.size
  have all' : ∀ member, member < (stations i).fleet.size → member ∉ bad → honest member := by
    intro member small sound
    refine all member small fun mem => sound ?_
    exact Finset.mem_inter.mpr ⟨mem, Finset.mem_range.mpr small⟩
  have few : bad.card ≤ (stations i).policy.maxFaulty.toNat :=
    Nat.le_trans (Finset.card_le_card Finset.inter_subset_left) budget
  obtain ⟨voters, within, most, counted⟩ := honest_supporters aead signatures manned apart fresh
    follows chartered before hi all' few alive approves
  obtain ⟨voters', within', most', counted'⟩ := honest_supporters aead signatures manned apart
    fresh follows chartered before' hj (manned.fleet i j hi hj ▸ all')
    (chartered.policy i j hi hj ▸ few) alive' approves'
  rw [← manned.fleet i j hi hj] at within' most'
  -- two majorities of the honest members meet
  have honestly : (Finset.range (stations i).fleet.size \ bad).card =
      (stations i).fleet.size - bad.card := by
    rw [Finset.card_sdiff_of_subset Finset.inter_subset_right, Finset.card_range]
  have share := card_add_card_le within within'
  have fewer := chartered.budget hi
  have some : 0 < (voters ∩ voters').card := by omega
  obtain ⟨member, both⟩ := Finset.card_pos.mp some
  obtain ⟨here, there⟩ := Finset.mem_inter.mp both
  obtain ⟨hm, frame, vote, listed, voted, verdict, lasting⟩ := counted member here
  obtain ⟨-, frame', vote', listed', voted', -, lasting'⟩ := counted' member there
  have same : vote = vote' :=
    (lasting' events before' List.prefix_rfl vote).mp
      ((lasting events before List.prefix_rfl vote).mpr rfl)
  subst same
  refine ⟨member, vote, hm, verdict, ⟨frame, listed, voted⟩, ⟨frame', listed', voted'⟩,
    fun later more within => ?_⟩
  rcases more with more | more
  · exact lasting later more within
  · exact lasting' later more within

/-- When a member approves, more than half of the honest members have their ballots on disk, and
these say support for the rest of the run. -/
theorem approval_backed {earlier : List (Nat × Happening)} (before : earlier <+: events) {i : Nat}
    (hi : honest i)
    (all : ∀ member, member < (stations i).fleet.size → member ∉ faulty → honest member)
    (budget : faulty.card ≤ (stations i).policy.maxFaulty.toNat) {node : Node}
    (alive : (fleetOf P stations paths honest).after start earlier i = .alive node)
    (approves : approved (stations i) node.mind.tally.case = true) :
    ∃ voters : Finset Nat, voters ⊆ Finset.range (stations i).fleet.size \ faulty ∧
      (stations i).fleet.size - faulty.card < 2 * voters.card ∧
      ∀ member ∈ voters, ∃ vote, verdictOf vote.verdict = some .support ∧
        ∀ later, earlier <+: later → later <+: events →
          OnlyBallot P stations paths honest start later member vote := by
  obtain ⟨voters, within, most, counted⟩ := honest_supporters aead signatures manned apart fresh
    follows chartered before hi all budget alive approves
  have fewer := chartered.budget hi
  refine ⟨voters, within, by omega, fun member mem => ?_⟩
  obtain ⟨-, _, vote, -, -, verdict, lasting⟩ := counted member mem
  exact ⟨vote, verdict, lasting⟩

end runs

/-! ## Two honest members and a third -/

/-- The second member of the crew. -/
def secondStationed : Station plain where
  fleet := crew
  policy := crewPolicy
  options := { firstMember with index := 1 }
  keys := { provisioned with signing := crewKey 1 }
  subject := deliberated
  seated := by decide
  sized := stationed.sized
  keyed := by decide
  named := by decide
  scheduled := by decide +kernel

def crewStations : Nat → Station plain
  | 1 => secondStationed
  | _ => stationed

def crewPaths : Nat → Path
  | 1 => ⟨"second", some "journal"⟩
  | _ => ⟨"first", some "journal"⟩

def crewFleet : System Nat Lives Happening Fact := fleetOf postcard crewStations crewPaths (· < 2)

def crewStart (_ : Nat) : Lives := .dead Disk.empty [] ⟨[], [], []⟩

/-- A vote of the first two is handed over by a radio only if its member has handed it over. -/
def vetted (world : Nat → Lives) : Happening → Bool
  | .turn t => (t.received.bind (voteOf stationed)).all fun vote =>
    decide (2 ≤ vote.authorIndex.toNat) ||
      (handedOver (world vote.authorIndex.toNat)).any fun h =>
        decide (voteOf stationed h.frame = some vote)
  | _ => true

def alwaysVetted : (Nat → Lives) → List (Nat × Happening) → Bool
  | _, [] => true
  | world, event :: rest =>
    vetted world event.2 && alwaysVetted (crewFleet.step world event) rest

/-- The second member of the crew differs from the first by its seat and its key. -/
theorem crew_alike (i : Nat) : (crewStations i).fleet = crew ∧ (crewStations i).policy = crewPolicy ∧
    (crewStations i).subject = deliberated ∧
    (crewStations i).keys.keyring = provisioned.keyring ∧
    (crewStations i).keys.group = provisioned.group := by
  unfold crewStations
  split <;> exact ⟨rfl, rfl, rfl, rfl, rfl⟩

theorem crew_manned : Manned crewStations (· < 2) where
  seat := by decide
  fleet i j _ _ := (crew_alike i).1.trans (crew_alike j).1.symm
  subject i j _ _ := (crew_alike i).2.2.1.trans (crew_alike j).2.2.1.symm
  keyring i j _ _ := (crew_alike i).2.2.2.1.trans (crew_alike j).2.2.2.1.symm
  group i j _ _ := (crew_alike i).2.2.2.2.trans (crew_alike j).2.2.2.2.symm

theorem crew_chartered : Chartered crewStations (· < 2) where
  policy i j _ _ := (crew_alike i).2.1.trans (crew_alike j).2.1.symm
  charter i _ := by
    refine ⟨[("a", 100), ("b", 100), ("c", 100)], 4000, 3, ?_, ?_⟩
    · rw [(crew_alike i).1]
      rfl
    · rw [(crew_alike i).2.1]
      exact ok_get _

theorem follows_vetted {world : Nat → Lives} {events : List (Nat × Happening)}
    (honest : ∀ event ∈ events, event.1 < 2 ∧ mildly event.2)
    (always : alwaysVetted world events = true) :
    crewFleet.Follows (unforged crewStations (· < 2)) world events := by
  induction events generalizing world with
  | nil => trivial
  | cons event rest ih =>
    rw [alwaysVetted, Bool.and_eq_true] at always
    obtain ⟨hi, mild⟩ := honest event List.mem_cons_self
    refine ⟨⟨hi, mild, fun t frame vote turn received voted good => ?_⟩,
      ih (fun other mem => honest other (List.mem_cons_of_mem _ mem)) always.2⟩
    have here := always.1
    have same : ∀ i, i < 2 → ∀ frame, voteOf (crewStations i) frame = voteOf stationed frame :=
      fun i small frame => voteOf_same crew_manned small (show 0 < 2 by decide) frame
    rw [same _ hi] at voted
    rw [turn, vetted, received, Option.bind_some, voted, Option.all_some, Bool.or_eq_true,
      decide_eq_true_eq, List.any_eq_true] at here
    rcases here with far | ⟨h, mem, cast⟩
    · omega
    · refine ⟨_, good, rfl, h, mem, ?_⟩
      rw [same _ good]
      exact of_decide_eq_true cast

theorem mild_done : JournalRuns.Mild fun _ => .done := by
  intro c fails
  cases fails

/-- The second member opens a round and both vote; each hears the other's vote and the third
member's. -/
def bothVote : List (Nat × Happening) :=
  let round : RoundId := ⟨1, 16777216⟩
  [(1, .boot 0 (fun _ => .done) (fun _ => .done)), (0, .boot 0 (fun _ => .done) (fun _ => .done)),
    (1, .turn { heardAt 0 none with opening := true }),
    (0, .turn (heardAt 1000000000 (some (voiced 1 0 0 16777216 round)))),
    (0, .turn (heardAt 364190000000 none)),
    (1, .turn (heardAt 366190000000 (some (voiced 0 3 1 16777216 round)))),
    (0, .turn (heardAt 367190000000 (some (voiced 1 3 1 16777217 round)))),
    (1, .turn (heardAt 368190000000 (some (voiced 2 3 1 5 round)))),
    (0, .turn (heardAt 369190000000 (some (voiced 2 3 1 5 round))))]

theorem bothVote_follows :
    crewFleet.Follows (unforged crewStations (· < 2)) crewStart bothVote := by
  refine follows_vetted (fun event mem => ?_) (by decide +kernel)
  simp only [bothVote, List.mem_cons, List.not_mem_nil, or_false] at mem
  rcases mem with rfl | rfl | rfl | rfl | rfl | rfl | rfl | rfl | rfl
  · exact ⟨by decide, mild_done, mild_done⟩
  · exact ⟨by decide, mild_done, mild_done⟩
  all_goals exact ⟨by decide, fun _ _ => mild_done⟩

theorem crew_apart : ∀ i, i < 2 → (crewPaths i).extension ≠ some "compacting" := by
  intro i _
  unfold crewPaths
  split <;> decide

theorem crew_fresh : ∀ i, i < 2 → blank postcard (crewPaths i) (crewStart i) := by
  intro i _
  have nothing : (replay postcard ((Disk.empty : Disk Path).read (crewPaths i))).1 =
      JournalState.State.initial := rfl
  refine ⟨fun k => ?_, fun author => ?_, rfl⟩
  · rw [nothing]
    exact Std.ExtTreeMap.getElem?_empty
  · rw [nothing]
    exact Std.ExtTreeMap.getElem?_empty

/-- The frames that a member has counted. -/
def countedBy : Lives → List (Nat × Bytes)
  | .dead .. => []
  | .alive node => node.mind.tally.trace.counted

def approvedBy (station : Station plain) : Lives → Bool
  | .dead .. => false
  | .alive node => approved station node.mind.tally.case

theorem countedBy_alive {lives : Lives} {p : Nat × Bytes} (counted : p ∈ countedBy lives) :
    ∃ node, lives = .alive node ∧ p ∈ node.mind.tally.trace.counted := by
  cases lives with
  | dead => cases counted
  | alive node => exact ⟨node, rfl, counted⟩

theorem approvedBy_alive {station : Station plain} {lives : Lives}
    (approves : approvedBy station lives = true) :
    ∃ node, lives = .alive node ∧ approved station node.mind.tally.case = true := by
  cases lives with
  | dead => cases approves
  | alive node => exact ⟨node, rfl, approves⟩

/-- The second member has counted the first when only these two have voted. -/
theorem fleet_agrees_crew :
    let frame := voiced 0 3 1 16777216 ⟨1, 16777216⟩
    (0, frame) ∈ countedBy (crewFleet.after crewStart (bothVote.take 6) 1) ∧
      (0, frame) ∈ countedBy (crewFleet.after crewStart bothVote 0) ∧
      ∃ vote, voteOf stationed frame = some vote ∧
        OnlyBallot postcard crewStations crewPaths (· < 2) crewStart bothVote 0 vote := by
  intro frame
  have counted : (0, frame) ∈ countedBy (crewFleet.after crewStart (bothVote.take 6) 1) := by
    decide +kernel
  have counted' : (0, frame) ∈ countedBy (crewFleet.after crewStart bothVote 0) := by
    decide +kernel
  refine ⟨counted, counted', ?_⟩
  obtain ⟨node, alive, listed⟩ := countedBy_alive counted
  obtain ⟨node', alive', listed'⟩ := countedBy_alive counted'
  obtain ⟨vote, -, voted, -, lasting⟩ := fleet_agrees plain_aead plain_signatures crew_manned
    crew_apart crew_fresh bothVote_follows (List.take_prefix 6 _) List.prefix_rfl
    (show 1 < 2 by decide) (show 0 < 2 by decide) (show 0 < 2 by decide) alive alive' listed listed'
  exact ⟨vote, voted, lasting bothVote (Or.inr List.prefix_rfl) List.prefix_rfl⟩

theorem crew_all : ∀ member, member < (crewStations 0).fleet.size → member ∉ ({2} : Finset Nat) →
    member < 2 := by
  intro member small sound
  have size : (crewStations 0).fleet.size = 3 := rfl
  rw [Finset.mem_singleton] at sound
  omega

theorem approvals_meet_crew :
    approvedBy stationed (crewFleet.after crewStart bothVote 0) = true ∧
      approvedBy secondStationed (crewFleet.after crewStart (bothVote.take 8) 1) = true ∧
      ∃ member vote, member < 2 ∧ verdictOf vote.verdict = some .support ∧
        OnlyBallot postcard crewStations crewPaths (· < 2) crewStart bothVote member vote := by
  have approves : approvedBy stationed (crewFleet.after crewStart bothVote 0) = true := by
    decide +kernel
  have approves' : approvedBy secondStationed (crewFleet.after crewStart (bothVote.take 8) 1) =
      true := by
    decide +kernel
  refine ⟨approves, approves', ?_⟩
  obtain ⟨node, alive, yes⟩ := approvedBy_alive approves
  obtain ⟨node', alive', yes'⟩ := approvedBy_alive approves'
  obtain ⟨member, vote, hm, verdict, -, -, lasting⟩ := approvals_meet plain_aead plain_signatures
    crew_manned crew_apart crew_fresh bothVote_follows crew_chartered List.prefix_rfl
    (List.take_prefix 8 _) (show 0 < 2 by decide) (show 1 < 2 by decide) crew_all (by decide)
    alive alive' yes yes'
  exact ⟨member, vote, hm, verdict, lasting bothVote (Or.inl List.prefix_rfl) List.prefix_rfl⟩

theorem approval_backed_crew :
    approvedBy secondStationed (crewFleet.after crewStart (bothVote.take 8) 1) = true ∧
      ∃ voters : Finset Nat, 2 < 2 * voters.card ∧ ∀ member ∈ voters, ∃ vote,
        OnlyBallot postcard crewStations crewPaths (· < 2) crewStart (bothVote.take 8) member
          vote := by
  have approves : approvedBy secondStationed (crewFleet.after crewStart (bothVote.take 8) 1) =
      true := by
    decide +kernel
  refine ⟨approves, ?_⟩
  obtain ⟨node, alive, yes⟩ := approvedBy_alive approves
  obtain ⟨voters, -, most, ballots⟩ := approval_backed plain_aead plain_signatures crew_manned
    crew_apart crew_fresh bothVote_follows crew_chartered (List.take_prefix 8 _)
    (show 1 < 2 by decide) crew_all (by decide) alive yes
  refine ⟨voters, most, fun member mem => ?_⟩
  obtain ⟨vote, -, lasting⟩ := ballots member mem
  exact ⟨vote, lasting _ List.prefix_rfl (List.take_prefix 8 _)⟩

end Approvals
