import Lcq.Parties
import Lcq.SlotKeeping
import Lcq.VouchedTurns

/-!
# A fleet and its approvals

Honest members run the node's loop over their own journals; between their turns
anything may be on the air, but the vote of an honest member only if the member
has handed it over. However turns, crashes and restarts are interleaved, what
any of them counts of an honest member is the one ballot that this member's
file keeps, and two approvals meet in such a ballot.
-/

namespace FleetSafety

open Admission ArrivalOrder Ballots ByteFormat CastVotes Contracts CrashSafety FileSystem
  JournalOutcomes JournalRecords JournalRuns JournalState JournaledTurns LogJournal NodeLoop
  NodeSteps OrderedMap Parties Program RadioQueue RestoredVotes SafeTurns SealedFrames SlotKeeping
  Supporters Transitions Utterances VouchedTurns Wire

variable {P : Postcard} {C : Primitives} {station : Station C} {path : Path}
  {V : CompactEnvelope → Prop}

/-! ## One member's lives -/

def diskOf : Lives → Disk Path
  | .dead disk .. => disk
  | .alive node => node.desk.running.disk

/-- What an opening would find. -/
def found (P : Postcard) (path : Path) (lives : Lives) : State :=
  (replay P ((diskOf lives).read path)).1

/-- What is known of a member that is dead: its file keeps one ballot at most, and the votes on
record and those handed over are vouched for. -/
structure Laid (station : Station C) (V : CompactEnvelope → Prop) (past : Past) (s : State) :
    Prop where
  sole : Sole station s
  recorded : ∀ (author : String) frame, s.witnessed[author]? = some frame →
    Vouched station V s frame
  handed : ∀ h ∈ past.handed, Vouched station V s h.frame

/-- Nothing has been said. -/
def silent : Said := ⟨[], fun _ => False⟩

/-- What a member has said so far. -/
def sayings (P : Postcard) (station : Station C) (path : Path) (lives : Lives) : Said :=
  ⟨handedOver lives, Ballot station (found P path lives)⟩

/-- The second has all that the first has. -/
structure Repeats (first second : Said) : Prop where
  handed : first.handed ⊆ second.handed
  ballots : ∀ vote, first.ballots vote → second.ballots vote

theorem Repeats.refl (said : Said) : Repeats said said :=
  ⟨List.Subset.refl _, fun _ ballot => ballot⟩

/-- A member's lives keep to the ballots. -/
def Upright (P : Postcard) (station : Station C) (path : Path) (V : CompactEnvelope → Prop) :
    Lives → Prop
  | .dead disk _ past => Laid station V past (replay P (disk.read path)).1
  | .alive node => Stands P path (Sane station V silent []) node

theorem Laid.grows {past : Past} {s t : State} (laid : Laid station V past s)
    (grows : Grows station s t) : Laid station V past t := by
  refine ⟨grows.sole laid.sole, fun author frame here => ?_, fun h mem =>
    (laid.handed h mem).ballots grows.ballots⟩
  rw [grows.witnessed] at here
  exact (laid.recorded author frame here).ballots grows.ballots

/-- What is put down from a listing was listed. -/
theorem put_listed {put : Map Nat Bytes → String × Bytes → Map Nat Bytes}
    (puts : ∀ early p, put early p =
      (station.memberIndex p.1).elim early fun index => early.insert index p.2)
    (listing : List (String × Bytes)) (member : Nat) (frame : Bytes) :
    (listing.foldl put ∅)[member]? = some frame → ∃ p ∈ listing, p.2 = frame := by
  have grown : ∀ early : Map Nat Bytes, (listing.foldl put early)[member]? = some frame →
      early[member]? = some frame ∨ ∃ p ∈ listing, p.2 = frame := by
    induction listing with
    | nil => exact fun _ here => Or.inl here
    | cons p listing ih =>
      intro early here
      rcases ih (put early p) here with before | ⟨q, mem, same⟩
      · rw [puts] at before
        cases place : station.memberIndex p.1 with
        | none =>
          rw [place] at before
          exact Or.inl before
        | some index =>
          rw [place, Option.elim_some, get_insert] at before
          split at before
          · exact Or.inr ⟨p, List.mem_cons_self, Option.some.inj before⟩
          · exact Or.inl before
      · exact Or.inr ⟨q, List.mem_cons_of_mem _ mem, same⟩
  intro here
  refine (grown ∅ here).resolve_left ?_
  simp

/-- What a restart puts back is on record, or is the ballot. -/
theorem restored_source {s : State} {member : Nat} {frame : Bytes}
    (here : (restoredEarly station s)[member]? = some frame) :
    (∃ author : String, s.witnessed[author]? = some frame) ∨
      (ownKey station ∈ s.locks ∧ ∃ (k : UInt64) (f : OutgoingFrame),
        s.pending[k]? = some f ∧ f.bytes = frame) := by
  unfold restoredEarly at here
  dsimp only at here
  generalize folded : s.witnessed.toList.foldl _ (∅ : Map Nat Bytes) = early at here
  have recorded : early[member]? = some frame →
      ∃ author : String, s.witnessed[author]? = some frame := by
    intro put
    rw [← folded] at put
    obtain ⟨p, mem, rfl⟩ := put_listed (fun early p => by
      cases station.memberIndex p.1 <;> rfl) _ member frame put
    exact ⟨p.1, Std.ExtTreeMap.mem_toList_iff_getElem?_eq_some.mp mem⟩
  cases first : (values s.pending).head? with
  | none =>
    rw [first] at here
    exact Or.inl (recorded here)
  | some f =>
    rw [first] at here
    dsimp only at here
    split at here
    · rename_i locked
      rw [get_insert] at here
      split at here
      · cases here
        obtain ⟨k, kept, -⟩ := (head_values_iff _ _).mp first
        exact Or.inr ⟨locked, k, f, kept, rfl⟩
      · exact Or.inl (recorded here)
    · exact Or.inl (recorded here)

/-- A life begins with what was laid down. -/
theorem begin_sane {past : Past} {s : State} (laid : Laid station V past s) :
    Sane station V silent [] (.begin station s past) s := by
  refine ⟨laid.sole, laid.recorded, fun member frame here => ?_, by rintro _ ⟨⟩,
    fun priority f mem => ?_, fun h mem => ?_, by simp [silent], by rintro _ ⟨⟩,
    by rintro _ ⟨⟩⟩
  · rcases restored_source here with ⟨author, recorded⟩ | ⟨locked, k, f, kept, rfl⟩
    · exact laid.recorded author frame recorded
    · refine vouched_own fun vote cast => ?_
      have ballot : Ballot station s vote := ⟨locked, k, f, kept, cast⟩
      exact ⟨ballot.own laid.sole, ballot⟩
  · cases priority <;> cases mem
  · rcases List.mem_append.mp mem with old | new
    · exact laid.handed h old
    · cases new

theorem ended_laid {node : Node} {told : Said} {hand : List Bytes}
    (fell : Fell P path (Sane station V told hand) node) :
    Upright P station path V (.ended node) ∧
      Repeats told (sayings P station path (.ended node)) :=
  ⟨⟨fell.sole, fell.recorded, fell.handed⟩, fell.told, fell.ballots⟩

/-- Nothing fails but, perhaps, compactions up to their rename. -/
def mildly : Happening → Prop
  | .boot _ opening entering => Mild opening ∧ Mild entering
  | .turn t => ∀ spot i, Mild (t.envs spot i)
  | .crash => True

theorem found_standing {node : Node} {I : Deliberation → State → Prop}
    (stands : Stands P path I node) :
    found P path (.alive node) = node.desk.running.journal.state := by
  have agree := stands.1.agree
  rw [bytes, stands.1.path] at agree
  exact agree

/-- What happens next to a member keeps to the ballots, if what its radio hands over does, and
takes back nothing it has handed over. -/
theorem upright_next (aead : Aead C) (signatures : Signatures C)
    (apart : path.extension ≠ some "compacting") {lives : Lives} {happening : Happening}
    (upright : Upright P station path V lives) (mild : mildly happening)
    (received : ∀ t frame, happening = .turn t → t.received = some frame →
      Vouched station V (found P path lives) frame) :
    Upright P station path V (lives.next P station path happening) ∧
      Repeats (sayings P station path lives)
        (sayings P station path (lives.next P station path happening)) := by
  cases lives with
  | dead disk sealed past =>
    cases happening with
    | turn t => exact ⟨upright, Repeats.refl _⟩
    | crash => exact ⟨upright, Repeats.refl _⟩
    | boot entropy opening entering =>
      obtain ⟨opens, enters⟩ := mild
      let J (s : State) : Prop := Grows station (replay P (disk.read path)).1 s
      have numbers {s : State} {n : UInt64} (grows : J s) : J (s.apply (.sequence n)) :=
        grows.trans (grows_sequence n)
      have epochs {s : State} {es : List Entry}
          (part : es ⊆ Op.entries s (.enterEpoch station.fleet.missionEpoch)) (grows : J s) :
          J (s.applyAll es) := by
        refine grows.trans (grows_told fun e mem => ?_)
        have told := part mem
        simp only [Op.entries] at told
        split at told
        · cases told
        · exact ⟨0, 0, _, Or.inr (Or.inr (List.mem_singleton.mp told))⟩
      obtain ⟨failed, booted⟩ := @boot_holds P C station path J disk entropy opening entering
        opens enters apart numbers epochs (Grows.refl _)
      rw [Lives.next]
      split
      · rename_i ran
        have grows := failed _ _ ran
        exact ⟨Laid.grows upright grows, List.Subset.refl _, grows.ballots⟩
      · rename_i journal d ran
        obtain ⟨sound, -, grows⟩ := booted journal d ran
        have stands : Stands P path (Sane station V silent [])
            ⟨⟨⟨d, journal⟩, sealed⟩, .begin station journal.state past⟩ :=
          ⟨sound, begin_sane (Laid.grows upright grows)⟩
        refine ⟨stands, List.subset_append_left _ _, fun vote ballot => ?_⟩
        dsimp only [sayings]
        rw [found_standing stands]
        exact grows.ballots vote ballot
  | alive node =>
    have telling : Stands P path
        (Sane station V (sayings P station path (.alive node)) []) node := by
      refine ⟨upright.1, { upright.2 with
        told := List.Subset.refl _
        ballots := fun vote ballot => ?_ }⟩
      dsimp only [sayings] at ballot
      rwa [found_standing upright] at ballot
    have still {m : Node} {told : Said}
        (stands : Stands P path (Sane station V told []) m) :
        Upright P station path V (.alive m) ∧
          Repeats told (sayings P station path (.alive m)) := by
      refine ⟨⟨stands.1, { stands.2 with
        told := List.nil_subset _
        ballots := by rintro _ ⟨⟩ }⟩, stands.2.told, fun vote said => ?_⟩
      dsimp only [sayings]
      rw [found_standing stands]
      exact stands.2.ballots vote said
    cases happening with
    | boot entropy opening entering => exact still telling
    | crash => exact ended_laid telling.fell
    | turn t =>
      rw [Lives.next]
      split
      · exact still telling
      have vouched : ∀ frame ∈ t.received.toList,
          Vouched station V node.desk.running.journal.state frame := by
        intro frame mem
        rw [← found_standing upright]
        exact received t frame rfl (Option.mem_toList.mp mem)
      have safe := Safe.taking t.received.toList telling vouched
        (safe_turn mild apart aead signatures fun frame here =>
          List.mem_append_left _ (Option.mem_toList.mpr here))
      split
      · rename_i ran
        exact ended_laid (safe.stopped _ _ ran)
      · rename_i ran
        exact still (safe.returned _ _ ran)

/-- Whatever a member has handed over, or counts, is vouched for by its file. -/
theorem Upright.handed {lives : Lives} (upright : Upright P station path V lives) :
    ∀ h ∈ handedOver lives, Vouched station V (found P path lives) h.frame := by
  cases lives with
  | dead disk sealed past => exact Laid.handed upright
  | alive node =>
    rw [found_standing upright]
    exact upright.2.handed

theorem Upright.sole {lives : Lives} (upright : Upright P station path V lives) :
    Sole station (found P path lives) := by
  cases lives with
  | dead disk sealed past => exact Laid.sole upright
  | alive node =>
    rw [found_standing upright]
    exact upright.2.sole

theorem Upright.counted {node : Node} (upright : Upright P station path V (.alive node)) :
    ∀ p ∈ node.mind.tally.trace.counted,
      Vouched station V (found P path (.alive node)) p.2 := by
  rw [found_standing upright]
  exact upright.2.counted

theorem Upright.more {W : CompactEnvelope → Prop} {lives : Lives}
    (upright : Upright P station path V lives) (more : ∀ vote, V vote → W vote) :
    Upright P station path W lives := by
  cases lives with
  | dead disk sealed past =>
    obtain ⟨sole, recorded, handed⟩ := upright
    exact ⟨sole, fun author frame here => (recorded author frame here).more more,
      fun h mem => (handed h mem).more more⟩
  | alive node => exact ⟨upright.1, upright.2.more more⟩

/-! ## The fleet -/

section fleet

variable (P) (stations : Nat → Station C) (paths : Nat → Path) (honest : Nat → Prop)

/-- Honest members have their own places in one fleet, deliberate one subject, and know the same
keys. -/
structure Manned : Prop where
  seat : ∀ i, honest i → (stations i).options.index = i
  fleet : ∀ i j, honest i → honest j → (stations i).fleet = (stations j).fleet
  subject : ∀ i j, honest i → honest j → (stations i).subject = (stations j).subject
  keyring : ∀ i j, honest i → honest j → (stations i).keys.keyring = (stations j).keys.keyring
  group : ∀ i j, honest i → honest j → (stations i).keys.group = (stations j).keys.group

/-- Of an honest member's own votes, one it has handed over, or the ballot its file keeps. -/
inductive Fact where
  | handed (vote : CompactEnvelope)
  | ballot (vote : CompactEnvelope)

/-- What a member shows of the votes in its own name. -/
def showsOf (i : Nat) (lives : Lives) : Fact → Prop
  | .handed vote => honest i ∧ vote.authorIndex.toNat = i ∧
      ∃ h ∈ handedOver lives, voteOf (stations i) h.frame = some vote
  | .ballot vote => honest i ∧ vote.authorIndex.toNat = i ∧
      Ballot (stations i) (found P (paths i) lives) vote

/-- The members' lives. -/
def fleetOf : System Nat Lives Happening Fact where
  next i lives happening := lives.next P (stations i) (paths i) happening
  shows := showsOf P stations paths honest

/-- It is an honest member to whom something happens, and nothing fails but compactions; what
its radio hands over casts no vote of an honest member but one that member has handed over. -/
def unforged (known : Fact → Prop) (i : Nat) (_ : Lives) (happening : Happening) : Prop :=
  honest i ∧ mildly happening ∧ ∀ t frame vote, happening = .turn t → t.received = some frame →
    voteOf (stations i) frame = some vote → honest vote.authorIndex.toNat → known (.handed vote)

/-- An honest member counts genuine votes, and keeps to the ballots. -/
structure KeepsTo (known : Fact → Prop) (i : Nat) (lives : Lives) : Prop where
  sincere : Sincere (stations i) lives
  upright : Upright P (stations i) (paths i)
    (fun vote => honest vote.authorIndex.toNat → known (.ballot vote)) lives

/-- Dead, with nothing pending, on record or handed over. -/
def blank (path : Path) : Lives → Prop
  | .dead disk _ past => (∀ k : UInt64, (replay P (disk.read path)).1.pending[k]? = none) ∧
      (∀ author : String, (replay P (disk.read path)).1.witnessed[author]? = none) ∧
      past.handed = []
  | .alive _ => False

variable {stations paths honest}

theorem verified_same (manned : Manned stations honest) {i j : Nat} (hi : honest i)
    (hj : honest j) (frame : Bytes) :
    verified (stations i) frame = verified (stations j) frame := by
  apply Option.ext
  intro envelope
  rw [verified_eq_some, verified_eq_some]
  have group := manned.group i j hi hj
  have keyring := manned.keyring i j hi hj
  have subject := manned.subject i j hi hj
  have fleet := manned.fleet i j hi hj
  constructor
  · rintro ⟨opened, epoch, event, revision, case, startedAt⟩
    rw [group, keyring, subject] at opened
    exact ⟨opened, fleet ▸ epoch, event, revision, subject ▸ case, subject ▸ startedAt⟩
  · rintro ⟨opened, epoch, event, revision, case, startedAt⟩
    rw [← group, ← keyring, ← subject] at opened
    exact ⟨opened, fleet ▸ epoch, event, revision, subject ▸ case, subject ▸ startedAt⟩

theorem voteOf_same (manned : Manned stations honest) {i j : Nat} (hi : honest i)
    (hj : honest j) (frame : Bytes) : voteOf (stations i) frame = voteOf (stations j) frame := by
  rw [voteOf, voteOf, verified_same manned hi hj]

theorem blank_keepsTo {known : Fact → Prop} {i : Nat} {lives : Lives}
    (none : blank P (paths i) lives) : KeepsTo P stations paths honest known i lives := by
  cases lives with
  | alive node => exact none.elim
  | dead disk sealed past =>
    obtain ⟨pending, witnessed, handed⟩ := none
    refine ⟨trivial, ⟨?_, ?_, ?_⟩, ?_, ?_⟩
    · intro k f here
      rw [pending k] at here
      cases here
    · intro k l f g here
      rw [pending k] at here
      cases here
    · intro k f here
      rw [pending k] at here
      cases here
    · intro author frame here
      rw [witnessed author] at here
      cases here
    · rw [handed]
      rintro h ⟨⟩

/-- What an honest member has handed over as its own vote is its ballot. -/
theorem handed_ballot (manned : Manned stations honest) {known : Fact → Prop} {i : Nat}
    {lives : Lives} (keeps : KeepsTo P stations paths honest known i lives) {vote : CompactEnvelope}
    (handed : showsOf P stations paths honest i lives (.handed vote)) :
    showsOf P stations paths honest i lives (.ballot vote) := by
  obtain ⟨hi, seat, h, mem, voted⟩ := handed
  have vouched := keeps.upright.handed h mem vote voted
  rw [if_pos (seat.trans (manned.seat i hi).symm)] at vouched
  exact ⟨hi, seat, vouched⟩

/-- Honest members may rely on each other. -/
theorem fleet_reliable (aead : Aead C) (signatures : Signatures C)
    (manned : Manned stations honest)
    (apart : ∀ i, honest i → (paths i).extension ≠ some "compacting") :
    (fleetOf P stations paths honest).Reliable (unforged stations honest)
      (fun known i lives => honest i → KeepsTo P stations paths honest known i lives) := by
  have next {world : Nat → Lives} {i : Nat} {happening : Happening}
      (holds : ∀ j, honest j → KeepsTo P stations paths honest
        ((fleetOf P stations paths honest).Known world) j (world j))
      (allowed : unforged stations honest ((fleetOf P stations paths honest).Known world) i
        (world i) happening) :
      Upright P (stations i) (paths i) (fun vote => honest vote.authorIndex.toNat →
          (fleetOf P stations paths honest).Known world (.ballot vote))
        ((world i).next P (stations i) (paths i) happening) ∧
      Repeats (sayings P (stations i) (paths i) (world i))
        (sayings P (stations i) (paths i) ((world i).next P (stations i) (paths i) happening)) := by
    obtain ⟨hi, mild, radio⟩ := allowed
    refine upright_next aead signatures (apart i hi) (holds i hi).upright mild
      fun t frame turn received vote cast => ?_
    have ballot (good : honest vote.authorIndex.toNat) :
        (fleetOf P stations paths honest).Known world (.ballot vote) := by
      obtain ⟨j, handed⟩ := radio t frame vote turn received cast good
      exact ⟨j, handed_ballot P manned (holds j handed.1) handed⟩
    split
    · -- its own vote: it is the member itself that has handed it over
      rename_i own
      rw [manned.seat i hi] at own
      obtain ⟨j, -, seat, kept⟩ := ballot (own ▸ hi)
      cases seat.symm.trans own
      exact kept
    · exact ballot
  constructor
  · intro K L i lives more keeps hi
    exact ⟨(keeps hi).sincere, (keeps hi).upright.more fun vote known good => more _ (known good)⟩
  · intro world i happening holds allowed hi
    exact ⟨sincere_next (paths i) (holds i hi).sincere happening, (next holds allowed).1⟩
  · intro world i happening fact holds allowed shown
    have repeats := (next holds allowed).2
    cases fact with
    | handed vote =>
      obtain ⟨hi, seat, h, mem, voted⟩ := shown
      exact ⟨hi, seat, h, repeats.handed mem, voted⟩
    | ballot vote =>
      obtain ⟨hi, seat, ballot⟩ := shown
      exact ⟨hi, seat, repeats.ballots vote ballot⟩

/-! ## Runs of the fleet -/

section runs

variable (aead : Aead C) (signatures : Signatures C) (manned : Manned stations honest)
  (apart : ∀ i, honest i → (paths i).extension ≠ some "compacting") {start : Nat → Lives}
  (fresh : ∀ i, honest i → blank P (paths i) (start i)) {events : List (Nat × Happening)}
  (follows : (fleetOf P stations paths honest).Follows (unforged stations honest) start events)
include aead signatures manned apart fresh follows

/-- Every member keeps to the ballots at any time, and what is shown then is shown later. -/
theorem keeps_after {earlier : List (Nat × Happening)} (before : earlier <+: events) :
    (∀ i, honest i → KeepsTo P stations paths honest
      ((fleetOf P stations paths honest).Known ((fleetOf P stations paths honest).after start
        earlier)) i ((fleetOf P stations paths honest).after start earlier i)) ∧
    ∀ later, earlier <+: later → later <+: events → ∀ fact,
      (fleetOf P stations paths honest).Known ((fleetOf P stations paths honest).after start
        earlier) fact →
      (fleetOf P stations paths honest).Known ((fleetOf P stations paths honest).after start
        later) fact := by
  have reliable := fleet_reliable P aead signatures manned apart
  have begins : ∀ i, honest i → KeepsTo P stations paths honest
      ((fleetOf P stations paths honest).Known start) i (start i) :=
    fun i hi => blank_keepsTo P (fresh i hi)
  obtain ⟨rest, rfl⟩ := before
  have holds := (System.holds_after reliable begins (System.follows_append.mp follows).1).1
  refine ⟨holds, ?_⟩
  rintro later ⟨more, rfl⟩ ⟨last, split⟩ fact known
  rw [List.append_assoc, List.append_cancel_left_eq] at split
  subst split
  have onward := (System.follows_append.mp (System.follows_append.mp follows).2).1
  rw [System.after_append]
  exact (System.holds_after reliable holds onward).2 fact known

end runs

end fleet

end FleetSafety
