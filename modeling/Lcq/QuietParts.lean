import Lcq.NodeLoop

/-!
# The quiet parts of a turn

What a turn does to its journal, its tally and its acknowledgements, and what it
does to its schedule. An invariant about anything else holds wherever such a
part stops.
-/

namespace QuietParts

open Admission ByteFormat Contracts FileSystem JournalRecords LogJournal NodeLoop Program
  Transitions Utterances Wire

variable {P : Postcard} {C : Primitives} {station : Station C}

/-- Nothing but the tally, the acknowledgements and the ghost of the marks has changed. -/
def Quiet (d e : Deliberation) : Prop :=
  ∃ tally heard acknowledged remembered,
    e = { d with tally, heard, acknowledged, remembered }

theorem Quiet.refl (d : Deliberation) : Quiet d d := ⟨_, _, _, _, rfl⟩

theorem Quiet.trans {d e f : Deliberation} (first : Quiet d e) (second : Quiet e f) :
    Quiet d f := by
  obtain ⟨_, _, _, _, rfl⟩ := first
  obtain ⟨_, _, _, _, rfl⟩ := second
  exact ⟨_, _, _, _, rfl⟩

theorem quiet_heardFrom (d : Deliberation) (learned : Admitted) :
    Quiet d (d.heardFrom learned) := by
  unfold Deliberation.heardFrom
  split <;> exact ⟨_, _, _, _, rfl⟩

theorem quiet_acknowledgedBy (d : Deliberation) (learned : Admitted) :
    Quiet d (d.acknowledgedBy station learned) := by
  unfold Deliberation.acknowledgedBy
  split <;> exact ⟨_, _, _, _, rfl⟩

theorem hasReceived_case (y : Tally) (frame : Bytes) :
    (y.hasReceived station frame).case = y.case := by
  unfold Tally.hasReceived
  split <;> rfl

theorem offered_fst (y : Tally) (frame : Bytes) (clock : Clock) :
    (y.offered station frame clock).1 = (admitFrame station frame y.case clock).1 := by
  unfold Tally.offered
  dsimp only
  split <;> rfl

/-! ## Changes an invariant does not feel -/

/-- A relation between minds that lets the ghost of the marks change. -/
class Ghosted (R : Deliberation → Deliberation → Prop) : Prop where
  ghost : ∀ d remembered, R d { d with remembered }

/-- It lets change as well what a member sends of its own when. -/
class Slack (R : Deliberation → Deliberation → Prop) : Prop extends Ghosted R where
  slack : ∀ d round began nackedRounds finished handed,
    R d { d with round, began, nackedRounds, finished, handed }

section aside

variable {R : Deliberation → Deliberation → Prop} {I : Node → Prop}
  (stable : ∀ {n m : Node}, I n → R n.mind m.mind → I m)
include stable

theorem always_aside {f : Deliberation → Deliberation} (aside : ∀ d, R d (f d)) :
    Always I (minding f) :=
  Always.change fun n held => stable held (aside n.mind)

section ghosted

variable [Ghosted R]

theorem always_onDisk {ε α : Type} (p : Prog Running ε α) :
    Always I (caught (zoom (fun n : Node => n.desk.running)
      (fun running n => { n with desk := { n.desk with running } }) p) :
        Prog Node Empty (Except ε α)) :=
  Always.caught (Always.beside p fun _ n held =>
    stable held (Ghosted.ghost n.mind n.mind.remembered))

theorem always_journaling (p : Prog Running JournalError Unit) : Always I (journaling p) :=
  (always_onDisk stable p).bind fun _ => Always.pure _

theorem always_building (p : Prog Desk BuildError Bytes) : Always I (building p) :=
  Always.caught (Always.beside p fun _ n held =>
    stable held (Ghosted.ghost n.mind n.mind.remembered))

theorem always_rememberSeen (env : Env) (sender : Nat) (sequence : UInt64) :
    Always I (rememberSeen P env sender sequence) := by
  unfold rememberSeen
  split
  · refine (always_onDisk stable _).bind fun out => ?_
    cases out with
    | error e => exact Always.pure _
    | ok => exact always_aside stable fun d => Ghosted.ghost d _
  · exact Always.pure _

theorem always_rememberOwn (env : Env) (frame : Bytes) :
    Always I (rememberOwn P station env frame) := by
  unfold rememberOwn
  split
  · exact Always.pure _
  · exact always_rememberSeen stable _ _ _

theorem always_witnessing (env : Env) (learned : Admitted) (frame : Bytes) :
    Always I (witnessing P station env learned frame) := by
  unfold witnessing
  split
  · exact Always.pure _
  · exact always_journaling stable _

end ghosted

section slack

variable [Slack R] {t : Turn} {anchor : Nat}

theorem always_openRound : Always I (openRound P station t) := by
  refine Always.reading fun n => ?_
  split
  · dsimp only
    split
    · exact Always.halt
    refine Always.bind (always_aside stable fun d => Slack.slack d _ _ _ _ _) fun _ =>
      (always_building stable _).bind fun out => ?_
    cases out with
    | error e => exact Always.pure _
    | ok frame =>
      exact Always.bind (always_aside stable fun d => Slack.slack d _ _ _ _ _) fun _ =>
        always_aside stable fun d => Slack.slack d _ _ _ _ _
  · exact Always.pure _

theorem always_askForRepair : Always I (askForRepair P station t anchor) := by
  refine Always.reading fun n => ?_
  dsimp only
  split
  · exact Always.pure _
  split
  · refine Always.bind (always_aside stable fun d => Slack.slack d _ _ _ _ _) fun _ => ?_
    split
    · exact Always.pure _
    refine (always_building stable _).bind fun out => ?_
    cases out with
    | error e => exact Always.pure _
    | ok frame => exact always_aside stable fun d => Slack.slack d _ _ _ _ _
  · exact Always.pure _

theorem always_ending : Always I (ending station t anchor) := by
  refine Always.reading fun n => ?_
  dsimp only
  split
  · exact always_aside stable fun d => Slack.slack d _ _ _ _ _
  · exact Always.pure _

end slack
end aside

/-! ## The parts that read frames -/

instance : Ghosted Quiet := ⟨fun _ _ => ⟨_, _, _, _, rfl⟩⟩

section parts

variable {I : Node → Prop} (stable : ∀ {n m : Node}, I n → Quiet n.mind m.mind → I m)
include stable

theorem always_tallying (f : Tally → Tally) : Always I (tallying f) :=
  always_aside stable fun _ => ⟨_, _, _, _, rfl⟩

theorem always_offering (frame : Bytes) (clock : Clock) :
    Always I (offering station frame clock) :=
  fun _ held => stable held ⟨_, _, _, _, rfl⟩

theorem always_crediting (learned : Admitted) :
    Always I (minding fun d => (d.heardFrom learned).acknowledgedBy station learned) :=
  always_aside stable fun d => (quiet_heardFrom d learned).trans (quiet_acknowledgedBy _ learned)

theorem always_drain (t : Turn) (early : List (Nat × Bytes)) :
    Always I (drain P station t early) := by
  induction early with
  | nil => exact Always.pure _
  | cons p early ih =>
    exact (always_tallying stable _).bind fun _ => (always_offering stable _ _).bind fun _ =>
      (always_crediting stable _).bind fun _ => (always_witnessing stable _ _ _).bind fun _ => ih

theorem always_closing (t : Turn) : Always I (closing P station t) := by
  refine Always.reading fun n => ?_
  split
  · split
    · exact Always.pure _
    · exact (always_tallying stable _).bind fun _ => always_drain stable t _
  · exact Always.pure _

theorem always_admitOwn (t : Turn) (stage : Stage) (frame : Bytes) :
    Always I (admitOwn station t stage frame) := by
  refine Always.reading fun n => ?_
  split
  · exact (always_tallying stable _).bind fun _ => (always_offering stable _ _).bind fun _ =>
      always_aside stable fun d => quiet_heardFrom d _
  · exact Always.pure _

end parts

/-! ## The schedule -/

/-- Nothing about repair and nothing about a split has changed. -/
structure Steady (d e : Deliberation) : Prop where
  forwards : e.forwards = d.forwards
  repairDue : e.repairDue = d.repairDue
  repairedRound : e.repairedRound = d.repairedRound
  foreign : e.foreign = d.foreign
  split : e.split = d.split

theorem Quiet.steady {d e : Deliberation} (quiet : Quiet d e) : Steady d e := by
  obtain ⟨_, _, _, _, rfl⟩ := quiet
  exact ⟨rfl, rfl, rfl, rfl, rfl⟩

instance : Slack Steady where
  ghost _ _ := ⟨rfl, rfl, rfl, rfl, rfl⟩
  slack _ _ _ _ _ _ := ⟨rfl, rfl, rfl, rfl, rfl⟩

section schedule

variable {I : Node → Prop} (stable : ∀ {n m : Node}, I n → Steady n.mind m.mind → I m)
include stable

theorem stable_quiet {n m : Node} (held : I n) (quiet : Quiet n.mind m.mind) : I m :=
  stable held quiet.steady

variable {t : Turn} {anchor : Nat}

theorem always_speak (stage : Stage) : Always I (speak P station t anchor stage) := by
  have quiet := @stable_quiet I stable
  refine Always.reading fun n => ?_
  dsimp only
  split
  · exact Always.pure _
  split
  · exact always_aside stable fun _ => ⟨rfl, rfl, rfl, rfl, rfl⟩
  split
  · exact always_aside stable fun _ => ⟨rfl, rfl, rfl, rfl, rfl⟩
  refine (always_building quiet _).bind fun out => ?_
  cases out with
  | error e => exact always_aside stable fun _ => ⟨rfl, rfl, rfl, rfl, rfl⟩
  | ok frame =>
    refine Always.bind (always_aside stable fun _ => ⟨rfl, rfl, rfl, rfl, rfl⟩) fun _ =>
      Always.bind (always_aside stable fun _ => ⟨rfl, rfl, rfl, rfl, rfl⟩) fun _ =>
        (always_tallying quiet _).bind fun _ =>
          (always_rememberOwn quiet _ _).bind fun _ =>
            (always_admitOwn quiet t stage frame).bind fun _ => ?_
    split
    · exact always_aside stable fun _ => ⟨rfl, rfl, rfl, rfl, rfl⟩
    · exact Always.pure _

theorem always_await : Always I (await P station t) := by
  have quiet := @stable_quiet I stable
  unfold await
  split
  · exact Always.pure _
  refine Always.reading fun n => ?_
  split
  · exact Always.pure _
  split
  · exact (always_tallying quiet _).bind fun _ =>
      (always_rememberSeen quiet _ _ _).bind fun _ =>
        always_aside stable fun _ => ⟨rfl, rfl, rfl, rfl, rfl⟩
  split
  · exact Always.pure _
  · exact (always_tallying quiet _).bind fun _ =>
      (always_rememberSeen quiet _ _ _).bind fun _ =>
        Always.bind (always_aside stable fun _ => ⟨rfl, rfl, rfl, rfl, rfl⟩) fun _ =>
          (always_offering quiet _ _).bind fun _ => (always_tallying quiet _).bind
            fun _ => (always_crediting quiet _).bind fun _ =>
              always_witnessing quiet _ _ _

end schedule

end QuietParts
