import Lcq.JournaledTurns
import Lcq.QuietParts

/-!
# Wherever a turn stops

What stays true of a mind and its journal as records of a turn are told, does
not depend on the schedule, and survives the marking of a number, is true of a
node after a turn, and of the file if the node dies in it. The same for what
opening the journal tells it.
-/

namespace SafeTurns

open Admission ByteFormat Contracts CrashSafety FileSystem JournalOutcomes JournalRecords
  JournalRuns JournalState JournaledTurns LogJournal NodeLoop NodeSteps OrderedMap Program
  ReplayWindows Schedule Transitions Undisturbed Utterances Wire

variable {P : Postcard} {C : Primitives} {station : Station C} {path : Path}

/-! ## What is not about windows -/

/-- Neither the windows nor what is remembered has changed. -/
structure Apart (d e : Deliberation) : Prop where
  windows : e.tally.windows = d.tally.windows
  remembered : e.remembered = d.remembered

theorem apart_heardFrom (d : Deliberation) (learned : Admitted) :
    Apart d (d.heardFrom learned) := by
  unfold Deliberation.heardFrom
  split <;> exact ⟨rfl, rfl⟩

theorem apart_acknowledgedBy (d : Deliberation) (learned : Admitted) :
    Apart d (d.acknowledgedBy station learned) := by
  unfold Deliberation.acknowledgedBy
  split <;> exact ⟨rfl, rfl⟩

theorem apart_crediting (d : Deliberation) (learned : Admitted) :
    Apart d ((d.heardFrom learned).acknowledgedBy station learned) := by
  obtain ⟨windows, remembered⟩ := apart_heardFrom d learned
  obtain ⟨windows', remembered'⟩ : Apart (d.heardFrom learned)
      ((d.heardFrom learned).acknowledgedBy station learned) :=
    apart_acknowledgedBy (d.heardFrom learned) learned
  exact ⟨windows'.trans windows, remembered'.trans remembered⟩

theorem apart_openedAgain (d : Deliberation) (other : RoundId) (opener : Nat) (frame : Bytes) :
    Apart d (d.openedAgain other opener frame) := by
  unfold Deliberation.openedAgain
  split <;> exact ⟨rfl, rfl⟩

theorem apart_compared (d : Deliberation) (anchor : Nat) (learned : Admitted) (frame : Bytes)
    (now : Nat → Nat) : Apart d (d.compared station anchor learned frame now) := by
  unfold Deliberation.compared
  split
  · exact ⟨rfl, rfl⟩
  · dsimp only
    split <;> exact ⟨rfl, rfl⟩

theorem apart_answering (d : Deliberation) (anchor : Nat) (journal : Journal)
    (learned : Admitted) (requester now : Nat) :
    Apart d (d.answering station anchor journal learned requester now) := by
  unfold Deliberation.answering
  split
  · exact ⟨rfl, rfl⟩
  split
  · exact ⟨rfl, rfl⟩
  · dsimp only
    split <;> split <;> exact ⟨rfl, rfl⟩

theorem hasReceived_windows (y : Tally) (frame : Bytes) :
    (y.hasReceived station frame).windows = y.windows := by
  obtain ⟨received, same⟩ := hasReceived_rest station y frame
  rw [same]

theorem offered_windows (y : Tally) (frame : Bytes) (clock : Clock) :
    (y.offered station frame clock).2.windows = y.windows := by
  unfold Tally.offered
  dsimp only
  split <;> rfl

theorem held_windows (y : Tally) (learned : Admitted) (frame : Bytes) :
    (y.held learned frame).windows = y.windows := by
  obtain ⟨early, taken, same⟩ := held_rest y learned frame
  rw [same]

theorem draining_windows (y : Tally) (clock : Clock) : (y.draining clock).windows = y.windows := by
  obtain ⟨lapsed, same⟩ := draining_rest y clock
  rw [same]

/-- An invariant that nothing in a turn breaks. -/
structure Lasting (P : Postcard) (station : Station C) (path : Path)
    (I : Deliberation → State → Prop) : Prop where
  turned : ∀ {d s e}, Turned e → I d s → I d (s.apply e)
  aside : ∀ {d e s}, Apart d e → I d s → I e s
  /-- A number goes into its window before it becomes durable. -/
  marking : ∀ {env : Env} {member : Nat} {sequence : UInt64} {p : Act}, Mild env →
    member < station.fleet.size → Safe P path I p → Safe P path I (do
      tallying fun y => y.marked member sequence
      rememberSeen P env member sequence
      p)

section journal

variable {J : State → Prop} (apart : path.extension ≠ some "compacting")
  (turned : ∀ {s e}, Turned e → J s → J (s.apply e))
include apart turned

theorem safe_rememberSeen {env : Env} (calls : Mild env) (sender : Nat) (sequence : UInt64) :
    Safe P path (fun _ s => J s) (rememberSeen P env sender sequence) := by
  unfold rememberSeen
  split
  · refine (Safe.onDisk turned (tells_markSeen calls apart _ _)).bind fun out => ?_
    cases out with
    | error e => exact Safe.pure _
    | ok => exact Safe.minding fun _ _ held => held
  · exact Safe.pure _

/-- What is said of the journal alone lasts if no record of a turn breaks it. -/
theorem Lasting.journal : Lasting P station path fun _ s => J s :=
  ⟨turned, fun _ held => held, fun calls _ rest =>
    Safe.bind (Safe.minding fun _ _ held => held) fun _ =>
      (safe_rememberSeen apart turned calls _ _).bind fun _ => rest⟩

end journal

/-! ## The parts of a turn -/

section parts

variable {I : Deliberation → State → Prop} (lasting : Lasting P station path I)
include lasting

theorem safe_minding {f : Deliberation → Deliberation} (apart : ∀ d, Apart d (f d)) :
    Safe P path I (minding f) :=
  Safe.minding fun d _ holds => lasting.aside (apart d) holds

theorem safe_tallying {f : Tally → Tally} (same : ∀ y, (f y).windows = y.windows) :
    Safe P path I (tallying f) :=
  safe_minding lasting fun d => ⟨same d.tally, rfl⟩

theorem safe_offering (frame : Bytes) (clock : Clock) :
    Safe P path I (offering station frame clock) := by
  intro n stands
  constructor
  · rintro _ _ ⟨⟩
    exact ⟨stands.1, lasting.aside ⟨offered_windows _ _ _, rfl⟩ stands.2⟩
  · rintro _ _ ⟨⟩

variable {t : Turn} (mild : ∀ spot i, Mild (t.envs spot i))
  (apart : path.extension ≠ some "compacting")
include apart

theorem safe_witnessing {env : Env} (calls : Mild env) (learned : Admitted) (frame : Bytes) :
    Safe P path I (witnessing P station env learned frame) := by
  unfold witnessing
  split
  · exact Safe.pure _
  · exact (Safe.onDisk lasting.turned (tells_witness calls apart _ _)).bind fun _ => Safe.pure _

include mild

theorem safe_openRound : Safe P path I (openRound P station t) := by
  refine Safe.reading fun n => ?_
  split
  · dsimp only
    split
    · exact Safe.halt
    refine Safe.bind (safe_minding lasting fun _ => ⟨rfl, rfl⟩) fun _ =>
      (Safe.building lasting.turned (tells_buildTrigger (mild _ _) apart)).bind fun out => ?_
    cases out with
    | error e => exact Safe.pure _
    | ok frame =>
      exact Safe.bind (safe_minding lasting fun _ => ⟨rfl, rfl⟩) fun _ =>
        safe_minding lasting fun _ => ⟨rfl, rfl⟩
  · exact Safe.pure _

theorem safe_drain (early : List (Nat × Bytes)) :
    Safe P path I (drain P station t early) := by
  induction early with
  | nil => exact Safe.pure _
  | cons p early ih =>
    refine (safe_tallying lasting fun y => draining_windows y _).bind fun _ =>
      (safe_offering lasting _ _).bind fun learned => ?_
    exact (safe_minding lasting fun d => apart_crediting d learned).bind fun _ =>
      (safe_witnessing lasting apart (mild _ _) _ _).bind fun _ => ih

theorem safe_closing : Safe P path I (NodeLoop.closing P station t) := by
  refine Safe.reading fun n => ?_
  split
  · split
    · exact Safe.pure _
    · exact Safe.bind (safe_tallying lasting fun _ => rfl) fun _ => safe_drain lasting mild apart _
  · exact Safe.pure _

omit mild apart in
theorem safe_admitOwn (stage : Stage) (frame : Bytes) :
    Safe P path I (admitOwn station t stage frame) := by
  refine Safe.reading fun n => ?_
  split
  · exact Safe.bind (safe_tallying lasting fun _ => rfl) fun _ =>
      (safe_offering lasting _ _).bind fun learned =>
        safe_minding lasting fun d => apart_heardFrom d learned
  · exact Safe.pure _

theorem safe_speak (anchor : Nat) (stage : Stage) :
    Safe P path I (speak P station t anchor stage) := by
  refine Safe.reading fun n => ?_
  dsimp only
  split
  · exact Safe.pure _
  split
  · exact safe_minding lasting fun _ => ⟨rfl, rfl⟩
  split
  · exact safe_minding lasting fun _ => ⟨rfl, rfl⟩
  refine (Safe.building lasting.turned (tells_build (mild _) apart _)).bind fun out => ?_
  cases out with
  | error e => exact safe_minding lasting fun _ => ⟨rfl, rfl⟩
  | ok frame =>
    have last : Safe P path I (do
        admitOwn station t stage frame
        if allowed station stage = 1 then minding fun d => d.done stage else pure ()) := by
      refine (safe_admitOwn lasting stage frame).bind fun _ => ?_
      split
      · exact safe_minding lasting fun _ => ⟨rfl, rfl⟩
      · exact Safe.pure _
    refine Safe.bind (safe_minding lasting fun _ => ⟨rfl, rfl⟩) fun _ =>
      Safe.bind (safe_minding lasting fun _ => ⟨rfl, rfl⟩) fun _ => ?_
    unfold Tally.ownMarked rememberOwn
    cases peekFrameHeader frame with
    | error e =>
      exact Safe.bind (safe_tallying lasting fun _ => rfl) fun _ =>
        (Safe.pure _).bind fun _ => last
    | ok header => exact lasting.marking (mild _ _) station.seated last

theorem safe_askForRepair (anchor : Nat) :
    Safe P path I (askForRepair P station t anchor) := by
  refine Safe.reading fun n => ?_
  dsimp only
  split
  · exact Safe.pure _
  split
  · refine Safe.bind (safe_minding lasting fun _ => ⟨rfl, rfl⟩) fun _ => ?_
    split
    · exact Safe.pure _
    refine (Safe.building lasting.turned (tells_buildNack (mild _ _) apart)).bind fun out => ?_
    cases out with
    | error e => exact Safe.pure _
    | ok frame => exact safe_minding lasting fun _ => ⟨rfl, rfl⟩
  · exact Safe.pure _

omit mild apart in
theorem safe_resend (anchor : Nat) :
    Safe P path I (NodeLoop.resend t anchor) := by
  refine Safe.reading fun n => ?_
  split
  · exact Safe.pure _
  split
  · refine Safe.bind (safe_minding lasting fun _ => ⟨rfl, rfl⟩) fun _ => ?_
    split
    · exact Safe.pure _
    · exact Safe.bind (safe_minding lasting fun _ => ⟨rfl, rfl⟩) fun _ =>
        safe_minding lasting fun _ => ⟨rfl, rfl⟩
  · exact Safe.pure _

theorem safe_untilRadio : Safe P path I (untilRadio P station t) := by
  refine (safe_openRound lasting mild apart).bind fun _ => Safe.reading fun n => ?_
  split
  · exact Safe.pure _
  · have speak (anchor : Nat) (stage : Stage) := safe_speak lasting mild apart anchor stage
    exact (safe_closing lasting mild apart).bind fun _ => (speak _ _).bind fun _ =>
      (speak _ _).bind fun _ => (speak _ _).bind fun _ =>
        (safe_askForRepair lasting mild apart _).bind fun _ =>
          (safe_resend lasting _).bind fun _ => Safe.pure _

theorem safe_await : Safe P path I (await P station t) := by
  unfold await
  split
  · exact Safe.pure _
  rename_i frame _
  refine Safe.reading fun n => ?_
  split
  · exact Safe.pure _
  cases opened : triggerRound station frame with
  | some trigger =>
    obtain ⟨round, opener, sequence⟩ := trigger
    obtain ⟨envelope, genuine, -, rfl, -⟩ := triggerRound_some opened
    exact lasting.marking (mild _ _) genuine.author_lt
      (safe_minding lasting fun _ => ⟨hasReceived_windows _ _, rfl⟩)
  | none =>
    dsimp only
    cases anchored : lateAnchor station frame (t.now .anchor 0) with
    | none => exact Safe.pure _
    | some late =>
      obtain ⟨envelope, genuine, author, -⟩ := lateAnchor_some anchored
      refine lasting.marking (mild _ _) (author ▸ genuine.author_lt) ?_
      refine Safe.bind (safe_minding lasting fun _ => ⟨hasReceived_windows _ _, rfl⟩) fun _ =>
        (safe_offering lasting _ _).bind fun learned => ?_
      exact (safe_tallying lasting fun y => held_windows y learned frame).bind fun _ =>
        (safe_minding lasting fun d => apart_crediting d learned).bind fun _ =>
          safe_witnessing lasting apart (mild _ _) _ _

theorem safe_learn {anchor : Nat} {frame : Bytes} {learned : Admitted}
    (seated : ∀ member sequence, learned.verified = some (member, sequence) →
      member < station.fleet.size) :
    Safe P path I (learn P station t anchor frame learned) := by
  unfold learn
  split
  · exact Safe.pure _
  · rename_i sender sequence verified
    refine lasting.marking (mild _ _) (seated _ _ verified) ?_
    refine (safe_tallying lasting fun y => held_windows y learned frame).bind fun _ =>
      Safe.reading fun n => ?_
    exact (safe_minding lasting fun d => apart_answering d _ _ _ _ _).bind fun _ =>
      (safe_minding lasting fun d => apart_compared d _ _ _ _).bind fun _ =>
        (safe_minding lasting fun d => apart_crediting d learned).bind fun _ =>
          safe_witnessing lasting apart (mild _ _) _ _

omit mild apart in
theorem safe_ending (anchor : Nat) : Safe P path I (ending station t anchor) := by
  refine Safe.reading fun n => ?_
  dsimp only
  split
  · exact safe_minding lasting fun _ => ⟨rfl, rfl⟩
  · exact Safe.pure _

theorem safe_hear (anchor : Nat) : Safe P path I (hear P station t anchor) := by
  unfold hear
  split
  · exact safe_ending lasting anchor
  rename_i frame _
  refine Safe.reading fun n =>
    (safe_tallying lasting fun y => hasReceived_windows y frame).bind fun _ => ?_
  split
  · exact Safe.pure _
  cases opened : triggerRound station frame with
  | some trigger =>
    obtain ⟨round, opener, sequence⟩ := trigger
    obtain ⟨envelope, genuine, -, rfl, -⟩ := triggerRound_some opened
    exact lasting.marking (mild _ _) genuine.author_lt
      (safe_minding lasting fun d => apart_openedAgain d _ _ _)
  | none =>
    intro m stands
    have offered : Leads (offering station frame (t.clock .received)) m
        (fun learned k => Stands P path I k ∧
          ∀ member sequence, learned.verified = some (member, sequence) →
            member < station.fleet.size) (Fell P path I) := by
      refine ⟨?_, (safe_offering lasting frame (t.clock .received) m stands).stopped⟩
      intro learned k ran
      refine ⟨(safe_offering lasting frame (t.clock .received) m stands).returned _ _ ran, ?_⟩
      intro member sequence verified
      cases ran
      rw [QuietParts.offered_fst] at verified
      obtain ⟨envelope, genuine, rfl, -⟩ := admit_verified verified
      exact genuine.author_lt
    refine Leads.bind offered ?_
    rintro learned k ⟨stands, seated⟩
    exact ((safe_learn lasting mild apart seated).bind fun _ => safe_ending lasting anchor) k stands

theorem safe_atRadio (anchor : Option Nat) :
    Safe P path I (atRadio P station t anchor) := by
  cases anchor with
  | none => exact safe_await lasting mild apart
  | some anchor => exact safe_hear lasting mild apart anchor

theorem safe_turn : Safe P path I (turn P station t) := by
  rw [turn_radio]
  exact (safe_untilRadio lasting mild apart).bind fun anchor =>
    safe_atRadio lasting mild apart anchor

end parts

/-! ## A boot -/

variable (P) in
/-- A fresh log is told a number to start from and nothing else. -/
theorem starting_holds {J : State → Prop} {s : State} (bytes : Bytes) (entropy : UInt64)
    (starting : ∀ {s n}, J s → J (s.apply (.sequence n))) (holds : J s) (k : Nat) :
    J (s.applyAll ((recordable P (startEntries P bytes entropy)).take k)) := by
  have listed : ∀ e ∈ (recordable P (startEntries P bytes entropy)).take k,
      ∃ n, e = .sequence n := by
    intro e mem
    have listed := (List.mem_filter.mp (List.mem_of_mem_take mem)).1
    unfold startEntries at listed
    split at listed
    · exact ⟨_, List.mem_singleton.mp listed⟩
    · cases listed
  revert listed holds
  generalize (recordable P (startEntries P bytes entropy)).take k = es
  intro holds listed
  induction es generalizing s with
  | nil => exact holds
  | cons e es ih =>
    obtain ⟨n, rfl⟩ := listed e List.mem_cons_self
    exact ih (starting holds) fun d mem => listed d (List.mem_cons_of_mem _ mem)

/-- What neither a fresh log's start nor entering the mission's epoch breaks is true of the file
after a boot that fails, and of the journal after one that does not. -/
theorem boot_holds {J : State → Prop} {disk : Disk Path} (entropy : UInt64)
    {opening entering : Env}
    (opens : Mild opening) (enters : Mild entering) (apart : path.extension ≠ some "compacting")
    (starting : ∀ {s n}, J s → J (s.apply (.sequence n)))
    (within : ∀ {s es}, es ⊆ Op.entries s (.enterEpoch station.fleet.missionEpoch) → J s →
      J (s.applyAll es))
    (holds : J (replay P (disk.read path)).1) :
    (∀ stop d, boot P station path entropy opening entering disk = (.error stop, d) →
      J (replay P (d.read path)).1) ∧
    ∀ journal d, boot P station path entropy opening entering disk = (.ok journal, d) →
      Sound P path ⟨d, journal⟩ ∧
        (∃ epoch, journal.state.epoch = some epoch ∧ station.fleet.missionEpoch ≤ epoch) ∧
        J journal.state := by
  have started := starting_holds P (disk.read path) entropy starting holds
  have told := openWithEntropy_told (P := P) path (d := disk) opens entropy
  unfold boot
  cases opened : openWithEntropy P opening path entropy disk with
  | mk out d =>
  rw [opened] at told
  dsimp only at told ⊢
  rcases told with ⟨stop, k, rfl, cut⟩ | ⟨journal, rfl, sound, state⟩
  · refine ⟨?_, by rintro _ _ ⟨⟩⟩
    rintro _ _ ⟨⟩
    rw [cut]
    exact started k
  · have holds' : J journal.state := by
      have all := started (recordable P (startEntries P (disk.read path) entropy)).length
      rw [List.take_length, ← state] at all
      exact all
    have agree := sound.agree
    rw [bytes, sound.path] at agree
    dsimp only at agree ⊢
    split
    · refine ⟨?_, by rintro _ _ ⟨⟩⟩
      rintro _ _ ⟨⟩
      rw [agree]
      exact holds'
    · cases ran : enterEpoch P entering station.fleet.missionEpoch ⟨d, journal⟩ with
      | mk answer t =>
      have entered := enterEpoch_told sound enters apart station.fleet.missionEpoch
      rw [ran] at entered
      cases answer with
      | error stop =>
        refine ⟨?_, by rintro _ _ ⟨⟩⟩
        rintro _ _ ⟨⟩
        obtain ⟨named, ⟨-, k, cut⟩ | ⟨-, sound', state'⟩⟩ := entered
        · rw [bytes, named] at cut
          rw [cut]
          exact within (fun e mem => (List.mem_filter.mp (List.mem_of_mem_take mem)).1) holds'
        · have agree' := sound'.agree
          rw [bytes, named] at agree'
          rw [agree', state']
          exact within (fun e mem => (List.mem_filter.mp mem).1) holds'
      | ok =>
        refine ⟨by rintro _ _ ⟨⟩, ?_⟩
        rintro _ _ ⟨⟩
        obtain ⟨sound', state', entered⟩ := enterEpoch_ok sound enters apart ran
        refine ⟨sound', entered, ?_⟩
        rw [state']
        exact within (fun e mem => mem) holds'

end SafeTurns
