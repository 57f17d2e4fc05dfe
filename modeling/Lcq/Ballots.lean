import Lcq.QueueRuns
import Lcq.RestoredVotes

/-!
# One ballot for each member

A member's own vote is committed together with its lock before anything of it
leaves the member, and it is the only frame its journal keeps. Wherever a turn
or a life stops, what a member has counted, held, put on record, queued or
handed over as its own vote is that ballot.
-/

namespace Ballots

open Admission ArrivalOrder ByteFormat CastVotes Contracts CrashSafety FileSystem JournalOutcomes
  JournalRecords JournalRuns JournalState JournaledTurns LogJournal NodeLoop NodeSteps
  NonceFreshness OrderedMap Program RadioQueue RestoredVotes SafeTurns SealedFrames
  Supporters Transitions Utterances Wire

variable {P : Postcard} {C : Primitives} {station : Station C} {path : Path}
  {V : CompactEnvelope → Prop} {s t : State} {frame : Bytes} {vote : CompactEnvelope}

/-! ## Ballots -/

section ballots

variable (station)

/-- The binding vote a frame casts, whole. -/
def voteOf (frame : Bytes) : Option CompactEnvelope :=
  (verified station frame).filter fun envelope =>
    decide (envelope.stage = stageCode .bindingSupport) && (verdictOf envelope.verdict).isSome

def ownKey : String := lockKey station.subject (station.memberId station.options.index)

/-- A journal that keeps at most one frame: the member's own vote, which is locked. -/
structure Sole (s : State) : Prop where
  locked : ∀ (k : UInt64) f, s.pending[k]? = some f → ownKey station ∈ s.locks
  one : ∀ (k l : UInt64) f g, s.pending[k]? = some f → s.pending[l]? = some g → f = g
  own : ∀ (k : UInt64) f, s.pending[k]? = some f → ∃ vote, voteOf station f.bytes = some vote ∧
    vote.authorIndex.toNat = station.options.index

/-- The vote is locked, and is a frame the journal keeps. -/
structure Ballot (s : State) (vote : CompactEnvelope) : Prop where
  locked : ownKey station ∈ s.locks
  kept : ∃ (k : UInt64) (f : OutgoingFrame), s.pending[k]? = some f ∧
    voteOf station f.bytes = some vote

/-- If the frame casts the member's own vote it is the ballot, if another's, it is one of those
that are said to stand. -/
def Vouched (V : CompactEnvelope → Prop) (s : State) (frame : Bytes) : Prop :=
  ∀ vote, voteOf station frame = some vote →
    if vote.authorIndex.toNat = station.options.index then Ballot station s vote else V vote

/-- What the member's own records make of its journal: the ballot stays, and what it has on
record of the others. -/
structure Grows (s t : State) : Prop where
  ballots : ∀ vote, Ballot station s vote → Ballot station t vote
  sole : Sole station s → Sole station t
  witnessed : t.witnessed = s.witnessed

end ballots

theorem voteOf_eq_some : voteOf station frame = some vote ↔
    Genuine station frame vote ∧ vote.stage = stageCode .bindingSupport ∧
      ∃ verdict, verdictOf vote.verdict = some verdict := by
  rw [voteOf, Option.filter_eq_some_iff, verified_eq_some, Bool.and_eq_true, decide_eq_true_eq,
    Option.isSome_iff_exists]

theorem castBy_voteOf : castBy station frame =
    (voteOf station frame).map fun vote => vote.authorIndex.toNat := by
  apply Option.ext
  intro member
  rw [castBy_eq_some, Option.map_eq_some_iff]
  constructor
  · rintro ⟨envelope, verdict, genuine, author, stage, known⟩
    exact ⟨envelope, voteOf_eq_some.mpr ⟨genuine, stage, verdict, known⟩, author⟩
  · rintro ⟨envelope, found, author⟩
    obtain ⟨genuine, stage, verdict, known⟩ := voteOf_eq_some.mp found
    exact ⟨envelope, verdict, genuine, author, stage, known⟩

theorem Ballot.unique {other : CompactEnvelope} (sole : Sole station s)
    (ballot : Ballot station s vote) (ballot' : Ballot station s other) : vote = other := by
  obtain ⟨k, f, here, cast⟩ := ballot.kept
  obtain ⟨l, g, there, cast'⟩ := ballot'.kept
  cases sole.one k l f g here there
  exact Option.some.inj (cast.symm.trans cast')

/-- The ballot is the member's own. -/
theorem Ballot.own (sole : Sole station s) (ballot : Ballot station s vote) :
    vote.authorIndex.toNat = station.options.index := by
  obtain ⟨k, f, here, cast⟩ := ballot.kept
  obtain ⟨other, cast', own⟩ := sole.own k f here
  cases cast.symm.trans cast'
  exact own

/-- Other votes are vouched for by more. -/
theorem Vouched.more {W : CompactEnvelope → Prop} (vouched : Vouched station V s frame)
    (more : ∀ vote, V vote → W vote) : Vouched station W s frame := by
  intro vote cast
  have here := vouched vote cast
  split
  · rename_i own
    rwa [if_pos own] at here
  · rename_i other
    rw [if_neg other] at here
    exact more vote here

theorem Vouched.ballots (vouched : Vouched station V s frame)
    (ballots : ∀ vote, Ballot station s vote → Ballot station t vote) :
    Vouched station V t frame := by
  intro vote cast
  have here := vouched vote cast
  split
  · rename_i own
    rw [if_pos own] at here
    exact ballots vote here
  · rename_i other
    rwa [if_neg other] at here

theorem vouched_none (none : voteOf station frame = none) : Vouched station V s frame := by
  intro vote cast
  rw [none] at cast
  cases cast

theorem vouched_own (own : ∀ vote, voteOf station frame = some vote →
    vote.authorIndex.toNat = station.options.index ∧ Ballot station s vote) :
    Vouched station V s frame := by
  intro vote cast
  obtain ⟨author, ballot⟩ := own vote cast
  rw [if_pos author]
  exact ballot

/-! ## What the records of a turn do -/

theorem Grows.refl (s : State) : Grows station s s := ⟨fun _ ballot => ballot, fun sole => sole, rfl⟩

theorem Grows.trans {u : State} (first : Grows station s t) (second : Grows station t u) :
    Grows station s u :=
  ⟨fun vote ballot => second.ballots vote (first.ballots vote ballot),
    fun sole => second.sole (first.sole sole), second.witnessed.trans first.witnessed⟩

/-- Counters, marks and epochs are no matter. -/
theorem grows_beside (locks : t.locks = s.locks) (pending : t.pending = s.pending)
    (witnessed : t.witnessed = s.witnessed) : Grows station s t := by
  refine ⟨fun vote ballot => ⟨locks ▸ ballot.locked, pending ▸ ballot.kept⟩, fun sole => ?_,
    witnessed⟩
  exact ⟨pending ▸ locks ▸ sole.locked, pending ▸ sole.one, pending ▸ sole.own⟩

/-- A vote is committed that has not been locked. -/
theorem grows_vote {f : OutgoingFrame} (free : ownKey station ∉ s.locks)
    (cast : voteOf station f.bytes = some vote)
    (own : vote.authorIndex.toNat = station.options.index) :
    Grows station s (s.apply (voteEntry (ownKey station) f)) := by
  rw [apply_vote]
  refine ⟨fun other ballot => absurd ballot.locked free, fun sole => ?_, rfl⟩
  -- what is locked is pending, so nothing has been
  have only : ∀ (k : UInt64) g, (s.pending.insert f.sequence f)[k]? = some g → g = f := by
    intro k g here
    rw [get_insert] at here
    split at here
    · exact (Option.some.inj here).symm
    · exact absurd (sole.locked k g here) free
  constructor
  · intro _ _ _
    exact (mem_insert_iff _ _ _).mpr (Or.inl rfl)
  · intro k l g h here there
    exact (only k g here).trans (only l h there).symm
  · intro k g here
    rw [only k g here]
    exact ⟨vote, cast, own⟩

theorem ballot_vote {f : OutgoingFrame} (cast : voteOf station f.bytes = some vote) :
    Ballot station (s.apply (voteEntry (ownKey station) f)) vote := by
  rw [apply_vote]
  refine ⟨(mem_insert_iff _ _ _).mpr (Or.inl rfl), f.sequence, f, ?_, cast⟩
  rw [get_insert, if_pos rfl]

theorem grows_sequence (n : UInt64) : Grows station s (s.apply (.sequence n)) :=
  grows_beside rfl rfl rfl

/-- Numbers, marks and epochs. -/
theorem grows_told {es : List Entry} (told : ∀ e ∈ es, ∃ n sender epoch,
    e = .sequence n ∨ e = .seen sender n ∨ e = .epoch epoch) : Grows station s (s.applyAll es) := by
  induction es generalizing s with
  | nil => exact Grows.refl s
  | cons e es ih =>
    have here : Grows station s (s.apply e) := by
      obtain ⟨n, sender, epoch, rfl | rfl | rfl⟩ := told e List.mem_cons_self
      · exact grows_beside rfl rfl rfl
      · exact grows_beside rfl rfl rfl
      · exact grows_beside rfl rfl rfl
    exact here.trans (ih fun d mem => told d (List.mem_cons_of_mem _ mem))

/-! ## Building a frame -/

section leaving

variable {σ ε α β : Type} {get : σ → Running} {J K : State → Prop} {Q R : α → State → Prop}

/-- Wherever a program over a journal stops, its journal, or its file if the process died, is as
`J` says, and what it returns goes with the journal as `Q` says. -/
structure Leaves (P : Postcard) (path : Path) (get : σ → Running) (J : State → Prop)
    (Q : α → State → Prop) (out : Except (Stop ε) α × σ) : Prop where
  fallen : out.1 = .error .died → J (replay P ((get out.2).disk.read path)).1
  standing : out.1 ≠ .error .died → Sound P path (get out.2) ∧ J (get out.2).journal.state
  returned : ∀ a, out.1 = .ok a → Q a (get out.2).journal.state

theorem leaves_alive {out : Except (Stop ε) α} {d : σ} (alive : out ≠ .error .died)
    (sound : Sound P path (get d)) (holds : J (get d).journal.state)
    (returned : ∀ a, out = .ok a → Q a (get d).journal.state) :
    Leaves P path get J Q (out, d) :=
  ⟨fun dead => absurd dead alive, fun _ => ⟨sound, holds⟩, returned⟩

theorem leaves_andThen {out : Except (Stop ε) α × σ} {f : α → Prog σ ε β}
    {Q : β → State → Prop} (first : Leaves P path get J R out)
    (weaker : ∀ s, J s → K s)
    (second : ∀ a d, out = (.ok a, d) → Sound P path (get d) → J (get d).journal.state →
      R a (get d).journal.state → Leaves P path get K Q (f a d)) :
    Leaves P path get K Q (andThen out f) := by
  obtain ⟨answer, d⟩ := out
  cases answer with
  | ok a =>
    obtain ⟨sound, holds⟩ := first.standing (by rintro ⟨⟩)
    exact second a d rfl sound holds (first.returned a rfl)
  | error stop =>
    rw [andThen_error]
    refine ⟨fun dead => ?_, fun alive => ?_, by rintro _ ⟨⟩⟩
    · cases dead
      exact weaker _ (first.fallen rfl)
    · obtain ⟨sound, holds⟩ := first.standing fun dead => alive (by cases dead; rfl)
      exact ⟨sound, weaker _ holds⟩

/-- A call of the journal that tells entries leaves it as any part of them would. -/
theorem leaves_onJournal {p : Prog Running JournalError α} {d : Desk} {es : List Entry}
    (told : Told P path d.running es (p d.running))
    (holds : ∀ k, J (d.running.journal.state.applyAll (es.take k)))
    (returned : ∀ a r, p d.running = (.ok a, r) → Q a r.journal.state) :
    Leaves P path Desk.running J Q (onJournal p d) := by
  have all := holds es.length
  rw [List.take_length] at all
  obtain ⟨named, rest⟩ := told_mapError (f := BuildError.journal) told
  constructor
  · intro dead
    obtain ⟨-, k, cut⟩ | ⟨alive, -⟩ := rest
    · rw [bytes, named] at cut
      exact cut ▸ holds k
    · exact absurd dead alive
  · intro alive
    obtain ⟨dead, -⟩ | ⟨-, sound, state⟩ := rest
    · exact absurd dead alive
    · exact ⟨sound, state ▸ all⟩
  · intro a ok
    have ran : onJournal p d = (.ok a, (onJournal p d).2) := Prod.ext ok rfl
    exact returned a _ (onJournal_ok ran).1

end leaving

/-- A commitment that is made puts its one entry down. -/
theorem commitVote_ok {env : Env} {r u : Running} {subject : Subject} {voter : String}
    {f : OutgoingFrame} (sound : Sound P path r) (mild : Mild env)
    (apart : path.extension ≠ some "compacting")
    (ok : commitVote P env subject voter f r = (.ok (), u)) :
    u.journal.state = r.journal.state.apply (voteEntry (lockKey subject voter) f) := by
  have told := commitVote_told (P := P) sound mild apart subject voter f
  rw [ok] at told
  simp only [commitVote, bind_apply, read_apply, andThen_ok] at ok
  split at ok
  · cases ok
  · rename_i free
    obtain ⟨_, _, recorded, -⟩ := andThen_eq_ok ok
    obtain ⟨⟨bytes, made⟩, -⟩ := record_ok recorded
    rw [Op.entries, if_neg free, recordable_made made] at told
    obtain ⟨-, ⟨dead, -⟩ | ⟨-, -, state⟩⟩ := told
    · cases dead
    · exact state

/-- What is uttered for another purpose casts no vote. -/
theorem uncast (stage : UInt8) (other : stage ≠ stageCode .bindingSupport)
    (genuine : ∃ envelope, Genuine station frame envelope ∧
      envelope.authorIndex.toNat = station.options.index ∧ envelope.stage = stage) :
    voteOf station frame = none := by
  obtain ⟨envelope, here, -, rfl⟩ := genuine
  cases cast : voteOf station frame with
  | none => rfl
  | some vote =>
    obtain ⟨there, stage, -⟩ := voteOf_eq_some.mp cast
    rw [here.unique there] at other
    exact absurd stage other

section building

variable {heard : Heard} {round : RoundId} {d : Desk} {env : Env}
  (aead : Aead C) (signatures : Signatures C) (apart : path.extension ≠ some "compacting")
include aead signatures apart

/-- What is uttered takes a number, and is a genuine frame of the member's. -/
theorem utter_leaves (mild : Mild env) (sound : Sound P path d.running) (stage verdict : UInt8) :
    Leaves P path Desk.running
      (fun t => Grows station d.running.journal.state t ∧ t.locks = d.running.journal.state.locks)
      (fun (r : UInt64 × Bytes) _ => ∃ envelope, Genuine station r.2 envelope ∧
        envelope.authorIndex.toNat = station.options.index ∧ envelope.stage = stage ∧
        envelope.verdict = verdict)
      (utter P C station.fleet station.options station.keys env station.subject stage verdict heard
        round d) := by
  have genuine : ∀ r e, utter P C station.fleet station.options station.keys env station.subject
      stage verdict heard round d = (.ok r, e) → ∃ envelope, Genuine station r.2 envelope ∧
        envelope.authorIndex.toNat = station.options.index ∧ envelope.stage = stage ∧
        envelope.verdict = verdict := fun _ _ ok => utter_genuine aead signatures ok
  have told := reserveSequence_told (P := P) sound mild apart
  have numbered (k : Nat) : Grows station d.running.journal.state
      (d.running.journal.state.applyAll ((recordable P (Op.entries d.running.journal.state
        .reserveSequence)).take k)) ∧
      (d.running.journal.state.applyAll ((recordable P (Op.entries d.running.journal.state
        .reserveSequence)).take k)).locks = d.running.journal.state.locks := by
    have listed : ∀ e ∈ (recordable P (Op.entries d.running.journal.state
        .reserveSequence)).take k, ∃ n, e = .sequence n := fun e mem =>
      ⟨_, List.mem_singleton.mp (List.mem_filter.mp (List.mem_of_mem_take mem)).1⟩
    revert listed
    generalize (recordable P (Op.entries d.running.journal.state .reserveSequence)).take k = es
    generalize d.running.journal.state = s
    intro listed
    refine ⟨grows_told fun e mem => ?_, ?_⟩
    · obtain ⟨n, same⟩ := listed e mem
      exact ⟨n, 0, 0, Or.inl same⟩
    · induction es generalizing s with
      | nil => rfl
      | cons e es ih =>
        obtain ⟨n, rfl⟩ := listed e List.mem_cons_self
        exact ih _ fun d mem => listed d (List.mem_cons_of_mem _ mem)
  have reserved : Leaves P path Desk.running
      (fun t => Grows station d.running.journal.state t ∧
        t.locks = d.running.journal.state.locks) (fun (_ : UInt64) _ => True)
      (onJournal (reserveSequence P env) d) :=
    leaves_onJournal told numbered fun _ _ _ => trivial
  have left : Leaves P path Desk.running
      (fun t => Grows station d.running.journal.state t ∧
        t.locks = d.running.journal.state.locks) (fun (_ : UInt64 × Bytes) _ => True)
      (utter P C station.fleet station.options station.keys env station.subject stage verdict heard
        round d) := by
    refine leaves_andThen reserved (fun _ holds => holds) fun n u _ sound' holds _ => ?_
    generalize encodeCompact _ = encoded
    cases encoded with
    | error e => exact leaves_alive (by simp) sound' holds fun _ _ => trivial
    | ok signed =>
      simp only [Except.mapError, bind_apply, ofExcept_ok, andThen_ok, Utterances.sealing,
        change_apply]
      cases sealFrame C station.keys.group (authorOf station.options.index) n signed with
      | error e => exact leaves_alive (by simp) sound' holds fun _ _ => trivial
      | ok frame => exact leaves_alive (by simp) sound' holds fun _ _ => trivial
  exact ⟨left.fallen, left.standing, fun r ok => genuine r _ (Prod.ext ok rfl)⟩

/-- What is built for a stage is vouched for by what it leaves in the journal. -/
theorem build_leaves {envs : Nat → Env} (mild : ∀ i, Mild (envs i)) (stage : Stage)
    (sound : Sound P path d.running) (sole : Sole station d.running.journal.state) :
    Leaves P path Desk.running (Grows station d.running.journal.state)
      (fun frame t => Vouched station V t frame)
      (build P C station.fleet station.options station.keys envs stage station.subject heard round
        d) := by
  simp only [build, bind_apply, read_apply, andThen_ok]
  split
  · rename_i voted
    cases first : (pending d.running.journal).head? with
    | none => exact leaves_alive (by simp) sound (Grows.refl _) (by rintro _ ⟨⟩)
    | some f =>
      refine leaves_alive (by simp) sound (Grows.refl _) ?_
      rintro _ ⟨⟩
      obtain ⟨k, here, -⟩ := (head_values_iff _ _).mp first
      refine vouched_own fun vote cast => ?_
      have ballot : Ballot station d.running.journal.state vote :=
        ⟨of_decide_eq_true voted.2, k, f, here, cast⟩
      exact ⟨ballot.own sole, ballot⟩
  · rename_i unvoted
    refine leaves_andThen (utter_leaves aead signatures apart (mild 0) sound _ _)
      (fun _ holds => holds.1) fun r u ran sound' holds genuine => ?_
    obtain ⟨grown, locks⟩ := holds
    split
    · exact leaves_alive (by simp) sound' grown (by rintro _ ⟨⟩)
    · split
      · rename_i binding
        obtain ⟨envelope, here, author, coded, verdict⟩ := genuine
        have cast : voteOf station r.2 = some envelope := by
          refine voteOf_eq_some.mpr ⟨here, ?_, .support, ?_⟩
          · rw [coded, binding]
          · rw [verdict]
            rfl
        have free : ownKey station ∉ u.running.journal.state.locks := by
          intro held
          rw [locks] at held
          exact unvoted ⟨binding, decide_eq_true held⟩
        have told := commitVote_told (P := P) sound' (mild 1) apart station.subject
          (station.fleet.id station.options.index) (.new r.2 r.1)
        have committed : Leaves P path Desk.running (Grows station d.running.journal.state)
            (fun _ t => Vouched station V t r.2)
            (onJournal (commitVote P (envs 1) station.subject
              (station.fleet.id station.options.index) (.new r.2 r.1)) u) := by
          refine leaves_onJournal told (fun k => ?_) fun _ v ok => ?_
          · have parts := commit_parts (P := P) u.running.journal.state station.subject
              (station.fleet.id station.options.index) (.new r.2 r.1) k
            rcases parts with none | one
            · rw [none]
              exact grown
            · rw [one]
              exact grown.trans (grows_vote (f := .new r.2 r.1) free cast author)
          · rw [commitVote_ok sound' (mild 1) apart ok]
            refine vouched_own fun vote cast' => ?_
            cases cast.symm.trans cast'
            exact ⟨author, ballot_vote (f := .new r.2 r.1) cast⟩
        refine leaves_andThen committed (fun _ holds => holds) fun _ v _ sound'' grown' vouched => ?_
        refine leaves_alive (by simp) sound'' grown' ?_
        rintro _ ⟨⟩
        exact vouched
      · rename_i other
        refine leaves_alive (by simp) sound' grown ?_
        rintro _ ⟨⟩
        obtain ⟨envelope, here, author, coded, -⟩ := genuine
        refine vouched_none (uncast (stageCode stage) ?_
          ⟨envelope, here, author, coded⟩)
        cases stage with
        | bindingSupport => exact absurd rfl other
        | independent => decide
        | consultation => decide

/-- A frame that is uttered for another purpose, by itself. -/
theorem utter_alone (mild : Mild env) (sound : Sound P path d.running) (stage verdict : UInt8)
    (other : stage ≠ stageCode .bindingSupport) :
    Leaves P path Desk.running (Grows station d.running.journal.state)
      (fun frame t => Vouched station V t frame)
      (andThen (utter P C station.fleet station.options station.keys env station.subject stage
        verdict heard round d) fun r => (pure r.2 : Prog Desk BuildError Bytes)) := by
  refine leaves_andThen (utter_leaves aead signatures apart mild sound _ _)
    (fun _ holds => holds.1) fun r u _ sound' holds genuine => ?_
  refine leaves_alive (by simp) sound' holds.1 ?_
  rintro _ ⟨⟩
  obtain ⟨envelope, here, author, coded, -⟩ := genuine
  exact vouched_none (uncast stage other ⟨envelope, here, author, coded⟩)

end building

end Ballots
