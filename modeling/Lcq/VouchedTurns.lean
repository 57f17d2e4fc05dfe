import Lcq.Ballots

/-!
# Turns that keep to the ballots

Of what is vouched for when a turn begins, and of the frame its radio hands
over, a turn makes nothing that is not: neither in the mind nor in the journal,
wherever it stops.
-/

namespace VouchedTurns

open Admission ArrivalOrder Ballots ByteFormat CastVotes Contracts CrashSafety FileSystem
  JournalOutcomes JournalRecords JournalRuns JournalState JournaledTurns LogJournal NodeLoop
  NodeSteps OrderedMap Program RadioQueue RestoredVotes SafeTurns SealedFrames Supporters
  Transitions Utterances Wire

variable {P : Postcard} {C : Primitives} {station : Station C} {path : Path}
  {V : CompactEnvelope → Prop} {said : Said} {hand : List Bytes} {d e : Deliberation} {s : State} {n : Node}

/-- What a member has handed over, and the ballots its file has kept. -/
structure Said where
  handed : List Handed
  ballots : CompactEnvelope → Prop

/-- The journal keeps one ballot at most, and the votes on record, held, counted, waiting to be
passed on, handed over in any life, and those at hand are vouched for; what has been
said is not taken back. -/
structure Sane (station : Station C) (V : CompactEnvelope → Prop) (said : Said)
    (hand : List Bytes) (d : Deliberation) (s : State) : Prop where
  sole : Sole station s
  recorded : ∀ (author : String) frame, s.witnessed[author]? = some frame →
    Vouched station V s frame
  early : ∀ (member : Nat) frame, d.tally.early[member]? = some frame → Vouched station V s frame
  counted : ∀ p ∈ d.tally.trace.counted, Vouched station V s p.2
  queued : ∀ priority, ∀ f ∈ QueueRuns.line d.forwards priority, Vouched station V s f.bytes
  handed : ∀ h ∈ d.handedBefore ++ d.handed, Vouched station V s h.frame
  told : said.handed ⊆ d.handedBefore ++ d.handed
  ballots : ∀ vote, said.ballots vote → Ballot station s vote
  hand : ∀ frame ∈ hand, Vouched station V s frame

/-! ## What a mind has to do with it -/

/-- The votes held, counted, waiting and handed over are the same. -/
structure Beside (d e : Deliberation) : Prop where
  early : e.tally.early = d.tally.early
  counted : e.tally.trace.counted = d.tally.trace.counted
  forwards : e.forwards = d.forwards
  handed : e.handed = d.handed
  handedBefore : e.handedBefore = d.handedBefore

theorem Beside.trans {f : Deliberation} (first : Beside d e) (second : Beside e f) : Beside d f :=
  ⟨second.early.trans first.early, second.counted.trans first.counted,
    second.forwards.trans first.forwards, second.handed.trans first.handed,
    second.handedBefore.trans first.handedBefore⟩

theorem Sane.beside (sane : Sane station V said hand d s) (beside : Beside d e) :
    Sane station V said hand e s := by
  obtain ⟨early, counted, forwards, handed, before⟩ := beside
  exact ⟨sane.sole, sane.recorded, early ▸ sane.early, counted ▸ sane.counted,
    forwards ▸ sane.queued, by rw [before, handed]; exact sane.handed,
    by rw [before, handed]; exact sane.told, sane.ballots, sane.hand⟩

theorem Sane.grows {t : State} (sane : Sane station V said hand d s) (grows : Grows station s t) :
    Sane station V said hand d t := by
  have still {frame : Bytes} (vouched : Vouched station V s frame) : Vouched station V t frame :=
    vouched.ballots grows.ballots
  refine ⟨grows.sole sane.sole, ?_, fun member frame here => still (sane.early member frame here),
    fun p mem => still (sane.counted p mem), fun priority f mem => still (sane.queued priority f mem),
    fun h mem => still (sane.handed h mem), sane.told,
    fun vote said => grows.ballots vote (sane.ballots vote said), fun frame mem => still (sane.hand frame mem)⟩
  intro author frame here
  rw [grows.witnessed] at here
  exact still (sane.recorded author frame here)

theorem Sane.more {W : CompactEnvelope → Prop} (sane : Sane station V said hand d s)
    (more : ∀ vote, V vote → W vote) : Sane station W said hand d s :=
  ⟨sane.sole, fun author frame here => (sane.recorded author frame here).more more,
    fun member frame here => (sane.early member frame here).more more,
    fun p mem => (sane.counted p mem).more more,
    fun priority f mem => (sane.queued priority f mem).more more,
    fun h mem => (sane.handed h mem).more more, sane.told, sane.ballots,
    fun frame mem => (sane.hand frame mem).more more⟩

/-- Frames that are vouched for may be taken in hand. -/
theorem Sane.taking {more : List Bytes} (sane : Sane station V said hand d s)
    (vouched : ∀ frame ∈ more, Vouched station V s frame) : Sane station V said (more ++ hand) d s :=
  { sane with
    hand := fun frame mem => (List.mem_append.mp mem).elim (vouched frame) (sane.hand frame) }

theorem Sane.leaving {more : List Bytes} (sane : Sane station V said (more ++ hand) d s) :
    Sane station V said hand d s :=
  { sane with hand := fun frame mem => sane.hand frame (List.mem_append_right _ mem) }

/-! ## What the calls do -/

section calls

variable {I : Deliberation → State → Prop} {ε α β : Type}

/-- A call of the journal of which every part keeps what is said. -/
theorem safe_told {p : Prog Running ε α}
    (told : ∀ n, Stands P path I n → ∃ es, Told P path n.desk.running es (p n.desk.running) ∧
      ∀ k, I n.mind (n.desk.running.journal.state.applyAll (es.take k))) :
    Safe P path I (caught (zoom (fun n : Node => n.desk.running)
      (fun running n => { n with desk := { n.desk with running } }) p)) := by
  intro n stands
  obtain ⟨es, ⟨named, outcome⟩, parts⟩ := told n stands
  refine (Leads.caught _).weaken ?_ ?_
  · rintro out m ⟨rfl, lives, -⟩
    rcases outcome with ⟨dead, -⟩ | ⟨-, sound, state⟩
    · exact absurd dead lives
    · have all := parts es.length
      rw [List.take_length, ← state] at all
      exact ⟨sound, all⟩
  · intro m died
    rw [zoom_apply, Prod.mk.injEq] at died
    obtain ⟨dead, rfl⟩ := died
    rcases outcome with ⟨-, k, cut⟩ | ⟨alive, -⟩
    · rw [bytes, named] at cut
      rw [Fell]
      dsimp only
      rw [cut]
      exact parts k
    · exact absurd dead alive

/-- With more in hand a part may do more, and leaves less. -/
theorem Safe.taking {p : Prog Node Empty β} (more : List Bytes)
    (stands : Stands P path (Sane station V said hand) n)
    (vouched : ∀ frame ∈ more, Vouched station V n.desk.running.journal.state frame)
    (safe : Safe P path (Sane station V said (more ++ hand)) p) :
    Leads p n (fun _ m => Stands P path (Sane station V said hand) m)
      (Fell P path (Sane station V said hand)) :=
  (safe n ⟨stands.1, stands.2.taking vouched⟩).weaken
    (fun _ _ after => ⟨after.1, after.2.leaving⟩) fun _ fell => fell.leaving

theorem safe_beside {f : Deliberation → Deliberation} (beside : ∀ d, Beside d (f d)) :
    Safe P path (Sane station V said hand) (minding f) :=
  Safe.minding fun d _ sane => sane.beside (beside d)

theorem safe_tallying {f : Tally → Tally}
    (same : ∀ y, (f y).early = y.early ∧ (f y).trace.counted = y.trace.counted) :
    Safe P path (Sane station V said hand) (tallying f) :=
  safe_beside fun d => ⟨(same d.tally).1, (same d.tally).2, rfl, rfl, rfl⟩

/-- A frame at hand is handed over. -/
theorem safe_handing {t : Turn} {sending : Sending} {frame : Bytes} (mem : frame ∈ hand)
    (anchor due start : Nat) :
    Safe P path (Sane station V said hand) (handing t sending frame anchor due start) := by
  refine Safe.minding fun d s sane => { sane with
    handed := fun h listed => ?_
    told := fun h listed => ?_ }
  · rw [Deliberation.handedOver, ← List.append_assoc] at listed
    rcases List.mem_append.mp listed with old | new
    · exact sane.handed h old
    · rw [List.mem_singleton.mp new]
      exact sane.hand frame mem
  · rw [Deliberation.handedOver, ← List.append_assoc]
    exact List.mem_append_left _ (sane.told listed)

/-- A frame at hand is offered to the state machine. -/
theorem safe_offering {frame : Bytes} (mem : frame ∈ hand) (clock : Clock) :
    Safe P path (Sane station V said hand) (offering station frame clock) := by
  intro n stands
  constructor
  · rintro _ _ ⟨⟩
    obtain ⟨sound, sane⟩ := stands
    refine ⟨sound, ?_⟩
    rcases offered_cases station n.mind.tally frame clock with ⟨-, listed, same⟩ |
      ⟨member, o, case, -, -, -, -, same⟩
    · exact sane.beside ⟨by rw [same], by rw [same], rfl, rfl, rfl⟩
    · refine { sane with early := ?_, counted := ?_ }
      · dsimp only
        rw [same]
        exact sane.early
      · dsimp only
        rw [same]
        intro p listed
        rcases List.mem_append.mp listed with old | new
        · exact sane.counted p old
        · rw [List.mem_singleton.mp new]
          exact sane.hand frame mem
  · rintro _ _ ⟨⟩

/-- A frame at hand is held. -/
theorem safe_holding {frame : Bytes} (mem : frame ∈ hand) (learned : Admitted) :
    Safe P path (Sane station V said hand) (tallying fun y => y.held learned frame) := by
  refine Safe.minding fun d s sane => ?_
  unfold Tally.held
  split
  · exact sane
  split
  · refine { sane with early := fun member other here => ?_ }
    rw [get_insert] at here
    split at here
    · cases here
      exact sane.hand frame mem
    · exact sane.early member other here
  · exact sane

theorem marked_told {env : Env} {r : Running} (sound : Sound P path r) (mild : Mild env)
    (apart : path.extension ≠ some "compacting") (sender : UInt16) (sequence : UInt64) :
    ∃ es, Told P path r es (markSeen P env sender sequence r) ∧
      ∀ k, Grows station r.journal.state (r.journal.state.applyAll (es.take k)) := by
  refine ⟨_, markSeen_told sound mild apart sender sequence, fun k => grows_told fun e mem => ?_⟩
  have listed := (List.mem_filter.mp (List.mem_of_mem_take mem)).1
  simp only [Op.entries] at listed
  split at listed
  · cases listed
  · exact ⟨sequence, sender, 0, Or.inr (Or.inl (List.mem_singleton.mp listed))⟩

theorem safe_remembering {env : Env} (mild : Mild env) (apart : path.extension ≠ some "compacting")
    (sender : Nat) (sequence : UInt64) :
    Safe P path (Sane station V said hand) (rememberSeen P env sender sequence) := by
  unfold rememberSeen
  split
  · refine (safe_told fun n stands => ?_).bind fun out => ?_
    · obtain ⟨es, told, grows⟩ := marked_told stands.1 mild apart (.ofNat sender) sequence
      exact ⟨es, told, fun k => stands.2.grows (grows k)⟩
    · cases out with
      | error e => exact Safe.pure _
      | ok => exact safe_beside fun _ => ⟨rfl, rfl, rfl, rfl, rfl⟩
  · exact Safe.pure _

/-- A frame at hand is put on record. -/
theorem safe_recording {env : Env} (mild : Mild env) (apart : path.extension ≠ some "compacting")
    {frame : Bytes} (mem : frame ∈ hand) (learned : Admitted) :
    Safe P path (Sane station V said hand) (witnessing P station env learned frame) := by
  unfold witnessing
  split
  · exact Safe.pure _
  rename_i member _
  refine Safe.bind (safe_told fun n stands => ?_) fun _ => Safe.pure _
  refine ⟨_, witness_told stands.1 mild apart _ frame, fun k => ?_⟩
  obtain ⟨-, sane⟩ := stands
  have listed : ∀ e ∈ (recordable P (Op.entries n.desk.running.journal.state
      (.witness (station.memberId member) frame))).take k,
      e = .witnessed (station.memberId member) frame := by
    intro e mem
    have told := (List.mem_filter.mp (List.mem_of_mem_take mem)).1
    simp only [Op.entries] at told
    split at told
    · cases told
    · exact List.mem_singleton.mp told
  revert listed sane
  generalize (recordable P (Op.entries n.desk.running.journal.state
    (.witness (station.memberId member) frame))).take k = es
  generalize n.desk.running.journal.state = s
  intro sane listed
  induction es generalizing s with
  | nil => exact sane
  | cons e es ih =>
    obtain rfl := listed e List.mem_cons_self
    refine ih _ ?_ fun d mem => listed d (List.mem_cons_of_mem _ mem)
    have ballots (vote : CompactEnvelope) (ballot : Ballot station s vote) :
        Ballot station (s.apply (.witnessed (station.memberId member) frame)) vote :=
      ⟨ballot.locked, ballot.kept⟩
    have still {other : Bytes} (vouched : Vouched station V s other) :
        Vouched station V (s.apply (.witnessed (station.memberId member) frame)) other :=
      vouched.ballots ballots
    refine ⟨⟨sane.sole.locked, sane.sole.one, sane.sole.own⟩, fun author other here => ?_,
      fun member frame here => still (sane.early member frame here),
      fun p mem => still (sane.counted p mem),
      fun priority f mem => still (sane.queued priority f mem),
      fun h mem => still (sane.handed h mem), sane.told,
      fun vote said => ballots vote (sane.ballots vote said),
      fun frame mem => still (sane.hand frame mem)⟩
    simp only [State.apply, get_insertIfNew] at here
    split at here
    · cases here
      exact still (sane.hand frame mem)
    · exact still (sane.recorded author other here)

/-- What a builder leaves behind, and what it built. -/
theorem leads_building {p : Prog Desk BuildError Bytes}
    (stands : Stands P path (Sane station V said hand) n)
    (leaves : Leaves P path Desk.running (Grows station n.desk.running.journal.state)
      (fun frame t => Vouched station V t frame) (p n.desk)) :
    Leads (building p) n (fun out m => Stands P path (Sane station V said hand) m ∧
      m.mind = n.mind ∧ ∀ frame, out = .ok frame →
        Vouched station V m.desk.running.journal.state frame)
      (Fell P path (Sane station V said hand)) := by
  refine (Leads.caught _).weaken ?_ ?_
  · rintro out m ⟨rfl, lives, answered, -⟩
    obtain ⟨sound, grows⟩ := leaves.standing lives
    refine ⟨⟨sound, stands.2.grows grows⟩, rfl, fun frame ok => leaves.returned frame ?_⟩
    exact congrArg Prod.fst (answered frame ok)
  · intro m died
    rw [zoom_apply, Prod.mk.injEq] at died
    obtain ⟨dead, rfl⟩ := died
    exact stands.2.grows (leaves.fallen dead)

end calls

/-! ## Passing on -/

section queue

theorem queueAgain_vouched {priority : Priority} {frames : List OutgoingFrame}
    {queued : Queue × Nat}
    (before : ∀ p, ∀ f ∈ QueueRuns.line queued.1 p, Vouched station V s f.bytes)
    (more : ∀ f ∈ frames, Vouched station V s f.bytes) :
    ∀ p, ∀ f ∈ QueueRuns.line (frames.foldl (queueAgain priority) queued).1 p,
      Vouched station V s f.bytes := by
  induction frames generalizing queued with
  | nil => exact before
  | cons g frames ih =>
    refine ih (fun p f mem => ?_) fun f mem => more f (List.mem_cons_of_mem _ mem)
    have forgotten : ∀ p, ∀ f ∈ QueueRuns.line (queued.1.forget g.sequence) p,
        Vouched station V s f.bytes := by
      intro p f mem
      rw [QueueRuns.line_forget] at mem
      exact before p f mem
    unfold queueAgain at mem
    dsimp only at mem
    split at mem
    · exact forgotten p f mem
    · rename_i q offered
      obtain ⟨-, -, -, own, other, -⟩ := QueueRuns.offer_ok offered
      by_cases same : p = priority
      · rw [same, own] at mem
        rcases List.mem_append.mp mem with old | new
        · exact forgotten priority f old
        · rw [List.mem_singleton.mp new]
          exact more g List.mem_cons_self
      · rw [other p same] at mem
        exact forgotten p f mem

/-- What is put down for a requester is on record, or is the ballot. -/
theorem answering_sane (sane : Sane station V said hand d s) {journal : Journal}
    (same : journal.state = s) (anchor : Nat) (learned : Admitted) (requester now : Nat) :
    Sane station V said hand (d.answering station anchor journal learned requester now) s := by
  subst same
  have carried : ∀ f ∈ carriedVotes station journal.state requester learned.heard,
      Vouched station V journal.state f.bytes := by
    intro f mem
    obtain ⟨⟨author, frame⟩, listed, here⟩ := List.mem_filterMap.mp mem
    obtain ⟨member, -, put⟩ := Option.bind_eq_some_iff.mp here
    split at put
    · cases put
    · split at put
      · cases put
      · cases put
        exact sane.recorded author frame (Std.ExtTreeMap.mem_toList_iff_getElem?_eq_some.mp listed)
  have owed : ∀ f ∈ (owedVote station journal learned.heard).toList,
      Vouched station V journal.state f.bytes := by
    intro f mem
    have here := Option.mem_toList.mp mem
    unfold owedVote at here
    dsimp only at here
    split at here
    · rename_i voted
      obtain ⟨again, first, put⟩ := Option.bind_eq_some_iff.mp here
      obtain ⟨k, kept, -⟩ := (head_values_iff _ _).mp first
      split at put
      · cases put
      · cases put
        refine vouched_own fun vote cast => ?_
        have ballot : Ballot station journal.state vote :=
          ⟨of_decide_eq_true voted.2, k, again, kept, cast⟩
        exact ⟨ballot.own sane.sole, ballot⟩
    · cases here
  have routine : ∀ f ∈ (if learned.heard.contains station.options.index = true then
      carriedVotes station journal.state requester learned.heard else []),
      Vouched station V journal.state f.bytes := by
    intro f mem
    split at mem
    · exact carried f mem
    · cases mem
  have before : ∀ p, ∀ f ∈ QueueRuns.line (d.forwards, 0).1 p,
      Vouched station V journal.state f.bytes := sane.queued
  have all := @queueAgain_vouched C station V journal.state .distress _ _
    (@queueAgain_vouched C station V journal.state .routine _ _ before routine) owed
  unfold Deliberation.answering
  split
  · exact sane
  split
  · exact sane
  · dsimp only
    generalize List.foldl (queueAgain .distress) _ _ = queued at all ⊢
    split
    · exact { sane with queued := all }
    · exact { sane with queued := all }

end queue

/-! ## The parts of a turn -/

theorem beside_crediting (d : Deliberation) (learned : Admitted) :
    Beside d ((d.heardFrom learned).acknowledgedBy station learned) := by
  have heard : Beside d (d.heardFrom learned) := by
    unfold Deliberation.heardFrom
    split <;> exact ⟨rfl, rfl, rfl, rfl, rfl⟩
  refine heard.trans ?_
  unfold Deliberation.acknowledgedBy
  split <;> exact ⟨rfl, rfl, rfl, rfl, rfl⟩

theorem beside_heardFrom (d : Deliberation) (learned : Admitted) :
    Beside d (d.heardFrom learned) := by
  unfold Deliberation.heardFrom
  split <;> exact ⟨rfl, rfl, rfl, rfl, rfl⟩

theorem beside_openedAgain (d : Deliberation) (other : RoundId) (opener : Nat) (frame : Bytes) :
    Beside d (d.openedAgain other opener frame) := by
  unfold Deliberation.openedAgain
  split <;> exact ⟨rfl, rfl, rfl, rfl, rfl⟩

theorem beside_compared (d : Deliberation) (anchor : Nat) (learned : Admitted) (frame : Bytes)
    (now : Nat → Nat) : Beside d (d.compared station anchor learned frame now) := by
  unfold Deliberation.compared
  split
  · exact ⟨rfl, rfl, rfl, rfl, rfl⟩
  · dsimp only
    split <;> exact ⟨rfl, rfl, rfl, rfl, rfl⟩

theorem hasReceived_beside (y : Tally) (frame : Bytes) :
    (y.hasReceived station frame).early = y.early ∧
      (y.hasReceived station frame).trace.counted = y.trace.counted := by
  obtain ⟨received, same⟩ := hasReceived_rest station y frame
  rw [same]
  exact ⟨rfl, rfl⟩

theorem draining_beside (y : Tally) (clock : Clock) :
    (y.draining clock).early = y.early ∧ (y.draining clock).trace.counted = y.trace.counted := by
  obtain ⟨lapsed, same⟩ := draining_rest y clock
  rw [same]
  exact ⟨rfl, rfl⟩

section parts

variable {t : Turn} (mild : ∀ spot i, Mild (t.envs spot i))
  (apart : path.extension ≠ some "compacting")
include mild apart

theorem safe_drain {early : List (Nat × Bytes)} (at_hand : ∀ p ∈ early, p.2 ∈ hand) :
    Safe P path (Sane station V said hand) (drain P station t early) := by
  induction early with
  | nil => exact Safe.pure _
  | cons p early ih =>
    obtain ⟨member, frame⟩ := p
    have mem : frame ∈ hand := at_hand (member, frame) List.mem_cons_self
    refine (safe_tallying fun y => draining_beside y _).bind fun _ =>
      (safe_offering mem _).bind fun learned => ?_
    exact (safe_beside fun d => beside_crediting d learned).bind fun _ =>
      (safe_recording (mild _ _) apart mem learned).bind fun _ =>
        ih fun q listed => at_hand q (List.mem_cons_of_mem _ listed)

theorem safe_closing : Safe P path (Sane station V said hand) (NodeLoop.closing P station t) := by
  intro n stands
  refine Leads.reading ?_
  split
  · split
    · exact Safe.pure _ n stands
    · rename_i case _
      -- what is drained is what was held
      have held : ∀ frame ∈ n.mind.tally.early.toList.map Prod.snd,
          Vouched station V n.desk.running.journal.state frame := by
        intro frame mem
        obtain ⟨⟨member, other⟩, listed, rfl⟩ := List.mem_map.mp mem
        exact stands.2.early member other
          (Std.ExtTreeMap.mem_toList_iff_getElem?_eq_some.mp listed)
      refine Safe.taking _ stands held (Safe.bind ?_ fun _ => ?_)
      · refine Safe.minding fun d s sane => { sane with early := fun member frame here => ?_ }
        simp at here
      · exact safe_drain mild apart fun p mem =>
          List.mem_append_left _ (List.mem_map_of_mem mem)
  · exact Safe.pure _ n stands

omit mild apart in
theorem safe_admitOwn {stage : Stage} {frame : Bytes} (mem : frame ∈ hand) :
    Safe P path (Sane station V said hand) (admitOwn station t stage frame) := by
  refine Safe.reading fun n => ?_
  split
  · exact Safe.bind (safe_tallying fun _ => ⟨rfl, rfl⟩) fun _ =>
      (safe_offering mem _).bind fun learned => safe_beside fun d => beside_heardFrom d learned
  · exact Safe.pure _

omit mild in
theorem safe_rememberOwn {env : Env} (calls : Mild env) (frame : Bytes) :
    Safe P path (Sane station V said hand) (rememberOwn P station env frame) := by
  unfold rememberOwn
  split
  · exact Safe.pure _
  · exact safe_remembering calls apart _ _

omit mild apart in
theorem safe_resend (anchor : Nat) :
    Safe P path (Sane station V said hand) (NodeLoop.resend t anchor) := by
  intro n stands
  refine Leads.reading ?_
  split
  · exact Safe.pure _ n stands
  split
  · cases taken : n.mind.forwards.takeNext with
    | none =>
      refine (Safe.bind ?_ fun _ => Safe.pure _) n stands
      exact safe_beside fun _ => ⟨rfl, rfl, rfl, rfl, rfl⟩
    | some next =>
      obtain ⟨carried, forwards⟩ := next
      obtain ⟨priority, took⟩ := QueueRuns.takeNext_some taken
      have left : ∀ p, ∀ f ∈ QueueRuns.line forwards p, f ∈ QueueRuns.line n.mind.forwards p := by
        intro p f mem
        by_cases same : p = priority
        · subst same
          rw [took.front]
          exact List.mem_cons_of_mem _ mem
        · rwa [← took.other p same]
      have vouched : ∀ frame ∈ (carried :: (forwards.distress ++ forwards.routine)).map
          OutgoingFrame.bytes, Vouched station V n.desk.running.journal.state frame := by
        intro frame mem
        obtain ⟨f, listed, rfl⟩ := List.mem_map.mp mem
        rcases List.mem_cons.mp listed with rfl | rest
        · refine stands.2.queued priority f ?_
          rw [took.front]
          exact List.mem_cons_self
        · rcases List.mem_append.mp rest with distress | routine
          · exact stands.2.queued .distress f (left .distress f distress)
          · exact stands.2.queued .routine f (left .routine f routine)
      refine Safe.taking _ stands vouched (Safe.bind ?_ fun _ => Safe.bind ?_ fun _ =>
        safe_handing (List.mem_append_left _ List.mem_cons_self) _ _ _)
      · exact safe_beside fun _ => ⟨rfl, rfl, rfl, rfl, rfl⟩
      · refine Safe.minding fun d s sane => { sane with queued := fun p f mem => ?_ }
        refine sane.hand f.bytes (List.mem_append_left _ (List.mem_map_of_mem ?_))
        refine List.mem_cons_of_mem _ (List.mem_append.mpr ?_)
        cases p with
        | distress => exact Or.inl mem
        | routine => exact Or.inr mem
  · exact Safe.pure _ n stands

theorem safe_learn {anchor : Nat} {frame : Bytes} (mem : frame ∈ hand) (learned : Admitted) :
    Safe P path (Sane station V said hand) (learn P station t anchor frame learned) := by
  unfold learn
  split
  · exact Safe.pure _
  · rename_i sender sequence verified
    refine Safe.bind (safe_tallying fun _ => ⟨rfl, rfl⟩) fun _ =>
      (safe_remembering (mild _ _) apart _ _).bind fun _ =>
        (safe_holding mem learned).bind fun _ n stands => Leads.reading ?_
    refine Leads.bind (Leads.change (Q := fun _ m => Stands P path (Sane station V said hand) m)
      ⟨stands.1, answering_sane stands.2 rfl anchor learned sender _⟩) fun _ m stands' => ?_
    exact ((safe_beside fun d => beside_compared d _ _ _ _).bind fun _ =>
      (safe_beside fun d => beside_crediting d learned).bind fun _ =>
        safe_recording (mild _ _) apart mem learned) m stands'

omit mild apart in
theorem safe_ending (anchor : Nat) :
    Safe P path (Sane station V said hand) (ending station t anchor) := by
  refine Safe.reading fun n => ?_
  dsimp only
  split
  · exact safe_beside fun _ => ⟨rfl, rfl, rfl, rfl, rfl⟩
  · exact Safe.pure _

theorem safe_await (at_hand : ∀ frame, t.received = some frame → frame ∈ hand) :
    Safe P path (Sane station V said hand) (await P station t) := by
  unfold await
  split
  · exact Safe.pure _
  rename_i frame received
  have mem := at_hand frame received
  refine Safe.reading fun n => ?_
  split
  · exact Safe.pure _
  split
  · refine Safe.bind (safe_tallying fun _ => ⟨rfl, rfl⟩) fun _ =>
      (safe_remembering (mild _ _) apart _ _).bind fun _ => safe_beside fun d => ?_
    obtain ⟨early, counted⟩ := @hasReceived_beside C station d.tally frame
    exact ⟨early, counted, rfl, rfl, rfl⟩
  · split
    · exact Safe.pure _
    · refine Safe.bind (safe_tallying fun _ => ⟨rfl, rfl⟩) fun _ =>
        (safe_remembering (mild _ _) apart _ _).bind fun _ =>
          Safe.bind (safe_beside fun d => ?_) fun _ =>
            (safe_offering mem _).bind fun learned => ?_
      · obtain ⟨early, counted⟩ := @hasReceived_beside C station d.tally frame
        exact ⟨early, counted, rfl, rfl, rfl⟩
      · exact (safe_holding mem learned).bind fun _ =>
          (safe_beside fun d => beside_crediting d learned).bind fun _ =>
            safe_recording (mild _ _) apart mem learned

theorem safe_hear (at_hand : ∀ frame, t.received = some frame → frame ∈ hand) (anchor : Nat) :
    Safe P path (Sane station V said hand) (hear P station t anchor) := by
  unfold hear
  split
  · exact safe_ending anchor
  rename_i frame received
  have mem := at_hand frame received
  refine Safe.reading fun n =>
    (safe_tallying fun y => hasReceived_beside y frame).bind fun _ => ?_
  split
  · exact Safe.pure _
  split
  · exact Safe.bind (safe_tallying fun _ => ⟨rfl, rfl⟩) fun _ =>
      (safe_remembering (mild _ _) apart _ _).bind fun _ =>
        safe_beside fun d => beside_openedAgain d _ _ _
  · exact (safe_offering mem _).bind fun learned =>
      (safe_learn mild apart mem learned).bind fun _ => safe_ending anchor

variable (aead : Aead C) (signatures : Signatures C)
include aead signatures

theorem safe_openRound : Safe P path (Sane station V said hand) (openRound P station t) := by
  refine Safe.reading fun n => ?_
  split
  · dsimp only
    split
    · exact Safe.halt
    refine Safe.bind (safe_beside fun _ => ⟨rfl, rfl, rfl, rfl, rfl⟩) fun _ m stands => ?_
    refine Leads.bind (leads_building stands ?_) ?_
    · exact utter_alone aead signatures apart (mild _ 0) stands.1 triggerStage 0 (by decide)
    rintro out k ⟨stands', -, vouched⟩
    cases out with
    | error e => exact Safe.pure _ k stands'
    | ok frame =>
      refine Safe.taking [frame] stands' (by simpa using vouched frame rfl) ?_
      exact Safe.bind (safe_handing (by simp) _ _ _) fun _ =>
        safe_beside fun _ => ⟨rfl, rfl, rfl, rfl, rfl⟩
  · exact Safe.pure _

theorem safe_speak (anchor : Nat) (stage : Stage) :
    Safe P path (Sane station V said hand) (speak P station t anchor stage) := by
  intro n stands
  refine Leads.reading ?_
  dsimp only
  split
  · exact Safe.pure _ n stands
  split
  · refine safe_beside ?_ n stands
    exact fun _ => ⟨rfl, rfl, rfl, rfl, rfl⟩
  split
  · refine safe_beside ?_ n stands
    exact fun _ => ⟨rfl, rfl, rfl, rfl, rfl⟩
  refine Leads.bind (leads_building stands ?_) ?_
  · exact build_leaves aead signatures apart (mild _) stage stands.1 stands.2.sole
  rintro out k ⟨stands', -, vouched⟩
  cases out with
  | error e =>
    refine safe_beside ?_ k stands'
    exact fun _ => ⟨rfl, rfl, rfl, rfl, rfl⟩
  | ok frame =>
    refine Safe.taking [frame] stands' (by simpa using vouched frame rfl) ?_
    refine Safe.bind (safe_handing (by simp) _ _ _) fun _ =>
      Safe.bind (safe_beside fun _ => ⟨rfl, rfl, rfl, rfl, rfl⟩) fun _ =>
        Safe.bind (safe_tallying fun y => ?_) fun _ =>
          (safe_rememberOwn apart (mild _ _) frame).bind fun _ =>
            (safe_admitOwn (by simp)).bind fun _ => ?_
    · unfold Tally.ownMarked
      split <;> exact ⟨rfl, rfl⟩
    · split
      · exact safe_beside fun _ => ⟨rfl, rfl, rfl, rfl, rfl⟩
      · exact Safe.pure _

theorem safe_askForRepair (anchor : Nat) :
    Safe P path (Sane station V said hand) (askForRepair P station t anchor) := by
  refine Safe.reading fun n => ?_
  dsimp only
  split
  · exact Safe.pure _
  split
  · refine Safe.bind (safe_beside fun _ => ⟨rfl, rfl, rfl, rfl, rfl⟩) fun _ => ?_
    split
    · exact Safe.pure _
    intro m stands
    refine Leads.bind (leads_building stands ?_) ?_
    · exact utter_alone aead signatures apart (mild _ 0) stands.1 nackStage 0 (by decide)
    rintro out k ⟨stands', -, vouched⟩
    cases out with
    | error e => exact Safe.pure _ k stands'
    | ok frame =>
      exact Safe.taking [frame] stands' (by simpa using vouched frame rfl)
        (safe_handing (by simp) _ _ _)
  · exact Safe.pure _

/-- A turn whose radio hands over nothing but what is at hand. -/
theorem safe_turn (at_hand : ∀ frame, t.received = some frame → frame ∈ hand) :
    Safe P path (Sane station V said hand) (turn P station t) := by
  rw [turn_radio]
  refine Safe.bind ?_ fun anchor => ?_
  · refine (safe_openRound mild apart aead signatures).bind fun _ => Safe.reading fun n => ?_
    split
    · exact Safe.pure _
    · have speak (anchor : Nat) (stage : Stage) :
          Safe P path (Sane station V said hand) (NodeLoop.speak P station t anchor stage) :=
        safe_speak mild apart aead signatures anchor stage
      exact (safe_closing mild apart).bind fun _ => (speak _ _).bind fun _ =>
        (speak _ _).bind fun _ => (speak _ _).bind fun _ =>
          (safe_askForRepair mild apart aead signatures _).bind fun _ =>
            (safe_resend _).bind fun _ => Safe.pure _
  · cases anchor with
    | none => exact safe_await mild apart at_hand
    | some anchor => exact safe_hear mild apart at_hand anchor

end parts

end VouchedTurns
