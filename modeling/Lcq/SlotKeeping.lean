import Lcq.NodeSteps
import Lcq.QuietParts

/-!
# Keeping to one's own slot

What a node hands to its radio is due at the beginning of a slot of its own,
whenever the loop comes to look at its clocks. Whether it is over before the
slot is depends on how late the loop comes: only a stage's frame is checked
for being late, and the check leaves the frame's own time on air out.
-/

namespace SlotKeeping

open Admission ByteFormat Contracts FileSystem JournalRecords JournalState LogJournal NodeLoop
  Program QuietParts RadioQueue Schedule Transitions Utterances Wire

variable {P : Postcard} {C : Primitives} {station : Station C}

/-! ## One's own slots -/

/-- What a planned transmission is sent as. -/
def sentAs : Planned → Sending
  | .independent => .stage .independent
  | .consultation => .stage .consultation
  | .binding _ => .stage .bindingSupport
  | .request _ => .request
  | .resend _ => .resend

/-- How long a frame is on the air. -/
def onAir (station : Station C) (frame : Bytes) : Nat :=
  fromMillis (wallMs station.options (airtimeMs frame.length))

/-- A frame is on the air in a slot of the sender's own for what it is, and there only. -/
def InOwnSlot (station : Station C) (h : Handed) : Prop :=
  ∃ p : Planned, p.Provided station.options ∧ sentAs p = h.sending ∧
    p.due station.options station.fleet.size h.anchor ≤ h.start ∧
    h.start + onAir station h.frame ≤
      p.due station.options station.fleet.size h.anchor + slotWall station.options

/-- While no split is known the schedule is kept to. The opening of a round has no slot. -/
def Kept (station : Station C) (h : Handed) : Prop :=
  h.sending ≠ .opening → h.split = false → InOwnSlot station h

/-- Everything ever handed over. -/
def handedOver : Lives → List Handed
  | .dead _ _ past => past.handed
  | .alive node => node.mind.handedBefore ++ node.mind.handed

/-! ## When the loop comes to a place it sends from -/

/-- The clock of a turn does not go back between its readings at one place. -/
def Steady (t : Turn) : Prop := ∀ spot i, t.now spot i ≤ t.now spot (i + 1)

section places

variable (P : Postcard) {C : Primitives} (station : Station C) (t : Turn) (anchor : Nat)

/-- The places of a turn a round's frames are sent from. -/
def places : List Sending :=
  [.stage .independent, .stage .consultation, .stage .bindingSupport, .request, .resend]

/-- What a turn does before it comes to a place. -/
def approach : Sending → Act
  | .opening => pure ()
  | .stage .independent => closing P station t
  | .stage .consultation => do
    closing P station t
    speak P station t anchor .independent
  | .stage .bindingSupport => do
    closing P station t
    speak P station t anchor .independent
    speak P station t anchor .consultation
  | .request => do
    closing P station t
    speak P station t anchor .independent
    speak P station t anchor .consultation
    speak P station t anchor .bindingSupport
  | .resend => do
    closing P station t
    speak P station t anchor .independent
    speak P station t anchor .consultation
    speak P station t anchor .bindingSupport
    askForRepair P station t anchor

/-- Whether a frame whose sending begins now is over before the slot is. -/
def fitting (start due : Nat) : Except (Stop BuildError) Bytes → Bool
  | .error _ => true
  | .ok frame => decide (start + onAir station frame ≤ due + slotWall station.options)

/-- The loop has come to a place: either it sends nothing from there, or what is left of the
slot is enough for the frame. -/
def roomy (n : Node) : Sending → Bool
  | .opening => true
  | .stage stage =>
    let due := n.mind.dueAt station anchor stage
    if allowed station stage ≤ n.mind.attempts stage ∨ n.mind.sent stage = true ∨
        t.now (.own stage) 0 < due ∨
          (stage = .bindingSupport ∧ n.mind.tally.closed = false) then true
    else if due + slotWall station.options < t.now (.own stage) 1 then true
    else if stage = .bindingSupport ∧ 0 < n.mind.attempts stage ∧ n.mind.acknowledged = true then
      true
    else fitting station (t.now (.own stage) 2) due
      (build P C station.fleet station.options station.keys (t.envs (.own stage)) stage
        station.subject n.mind.heard n.mind.round n.desk).1
  | .request =>
    match repairRound station.options station.fleet.size anchor (t.now .asking 0) with
    | none => true
    | some round =>
      let due := requestDue station.options station.fleet.size anchor round
      if n.mind.tally.closed = true ∧ n.mind.nackedRounds ≤ round ∧ due ≤ t.now .asking 1 then
        fitting station (t.now .asking 2) due
          (buildNack P C station.fleet station.options station.keys (t.envs .asking 0)
            station.subject n.mind.heard n.mind.round n.desk).1
      else true
  | .resend =>
    match n.mind.repairDue, n.mind.forwards.takeNext with
    | some due, some (carried, _) =>
      if due ≤ t.now .resending 0 then
        fitting station (t.now .resending 1) due (.ok carried.bytes)
      else true
    | _, _ => true

end places

/-! ## What is due when -/

/-- What decides when something is sent. -/
structure Agenda where
  began : Option Nat
  attempts : Stage → Nat
  sent : Stage → Bool
  nextDue : Stage → Option Nat
  repairDue : Option Nat
  handed : List Handed
  handedBefore : List Handed

def agenda (d : Deliberation) : Agenda :=
  ⟨d.began, d.attempts, d.sent, d.nextDue, d.repairDue, d.handed, d.handedBefore⟩

/-- Everything is due when the schedule has it, and what has been handed over was handed over
in its slot. -/
structure InTime (station : Station C) (d : Deliberation) : Prop where
  stages : ∀ anchor, d.began = none ∨ d.began = some anchor → d.split = false →
    ∀ stage, d.sent stage = false → d.dueAt station anchor stage =
      attemptDue station.options station.fleet.size anchor stage (d.attempts stage)
  repair : ∀ anchor, d.began = none ∨ d.began = some anchor →
    ∀ due, d.repairDue = some due → ∃ round < repairRounds.toNat,
      due = resendDue station.options station.fleet.size anchor round
  handed : ∀ h ∈ d.handedBefore ++ d.handed, Kept station h

/-- A round is on. -/
structure On (station : Station C) (anchor : Nat) (n : Node) : Prop where
  inTime : InTime station n.mind
  began : n.mind.began = some anchor

/-- What leaves the agenda alone and takes no split back. -/
structure Aside (d e : Deliberation) : Prop where
  agenda : agenda e = agenda d
  split : e.split = false → d.split = false

theorem Aside.trans {d e f : Deliberation} (first : Aside d e) (second : Aside e f) : Aside d f :=
  ⟨second.agenda.trans first.agenda, fun whole => first.split (second.split whole)⟩

theorem InTime.aside {d e : Deliberation} (held : InTime station d) (aside : Aside d e) :
    InTime station e := by
  obtain ⟨same, split⟩ := aside
  simp only [agenda, Agenda.mk.injEq] at same
  obtain ⟨began, attempts, sent, nextDue, repairDue, handed, handedBefore⟩ := same
  constructor
  · intro anchor here whole stage unsent
    rw [began] at here
    rw [sent] at unsent
    have due := held.stages anchor here (split whole) stage unsent
    rwa [Deliberation.dueAt, nextDue, attempts]
  · rw [began, repairDue]
    exact held.repair
  · rw [handed, handedBefore]
    exact held.handed

theorem On.aside {anchor : Nat} {n m : Node} (on : On station anchor n)
    (aside : Aside n.mind m.mind) : On station anchor m := by
  refine ⟨on.inTime.aside aside, ?_⟩
  rw [← on.began]
  exact congrArg Agenda.began aside.agenda

/-- What is handed over in its slot. -/
theorem InTime.handing {d : Deliberation} (held : InTime station d) {h : Handed}
    (kept : Kept station h) : InTime station (d.handedOver h) := by
  refine ⟨held.stages, held.repair, ?_⟩
  intro other mem
  rw [Deliberation.handedOver, ← List.append_assoc, List.mem_append, List.mem_singleton] at mem
  obtain old | rfl := mem
  · exact held.handed other old
  · exact kept

/-- The next attempt is due in the next window. -/
theorem InTime.spent {d : Deliberation} (held : InTime station d) {anchor : Nat}
    (began : d.began = some anchor) (stage : Stage) {jitter : UInt64}
    (steady : d.split = false → jitter = 0) : InTime station (d.spent station anchor stage jitter) := by
  refine ⟨?_, held.repair, held.handed⟩
  rintro other here whole known unsent
  obtain rfl : anchor = other := by
    have here : d.began = none ∨ d.began = some other := here
    simpa [began] using here
  by_cases same : known = stage
  · subst same
    simp [Deliberation.dueAt, Deliberation.spent, attemptDue, steady whole]
  · have due := held.stages anchor (.inr began) whole known unsent
    simp only [Deliberation.dueAt, Deliberation.spent, Function.update_of_ne same] at due ⊢
    exact due

/-- A stage that is done is not sent again. -/
theorem InTime.done {d : Deliberation} (held : InTime station d) (stage : Stage) :
    InTime station (d.done stage) := by
  refine ⟨?_, held.repair, held.handed⟩
  intro anchor here whole known unsent
  refine held.stages anchor here whole known ?_
  by_cases same : known = stage
  · subst same
    simp [Deliberation.done] at unsent
  · simpa [Deliberation.done, Function.update_of_ne same] using unsent

section parts

variable {I : Node → Prop} (stable : ∀ {n m : Node}, I n → Aside n.mind m.mind → I m)
include stable

theorem always_ending (t : Turn) (anchor : Nat) : Always I (ending station t anchor) := by
  refine Always.reading fun n => ?_
  dsimp only
  split
  · exact always_aside stable fun _ => ⟨rfl, id⟩
  · exact Always.pure _

end parts

/-! ## The parts that send -/

section sends

variable {t : Turn} {n : Node} {anchor : Nat}

theorem leads_building (p : Prog Desk BuildError Bytes) : Leads (building p) n
    (fun out m => m.mind = n.mind ∧ ∀ frame, out = .ok frame → p n.desk = (.ok frame, m.desk))
    (fun m => m.mind = n.mind) := by
  refine (Leads.caught _).weaken ?_ ?_
  · rintro out m ⟨rfl, -, built, -⟩
    refine ⟨rfl, fun frame ok => ?_⟩
    exact Prod.ext (congrArg Prod.fst (built frame ok) :) rfl
  · intro m died
    exact (congrArg (fun ran => ran.2.mind) died).symm

/-- Whatever instant a round begins at, everything is due when the schedule has it. -/
theorem InTime.begins {d : Deliberation} (held : InTime station d) (waiting : d.began = none)
    (anchor : Nat) : InTime station { d with began := some anchor } :=
  ⟨fun other _ => held.stages other (.inl waiting), fun other _ => held.repair other (.inl waiting),
    held.handed⟩

/-- No round is on. -/
structure Waiting (station : Station C) (n : Node) : Prop where
  inTime : InTime station n.mind
  waiting : n.mind.began = none

end sends

/-! ## Lives -/

/-- Alive or dead, nothing has been handed over but in its slot, nor is anything due but then. -/
def LivesInTime (station : Station C) : Lives → Prop
  | .dead _ _ past => ∀ h ∈ past.handed, Kept station h
  | .alive node => InTime station node.mind

theorem LivesInTime.kept {lives : Lives} (held : LivesInTime station lives) :
    ∀ h ∈ handedOver lives, Kept station h := by
  cases lives with
  | dead _ _ past => exact held
  | alive node => exact InTime.handed held

/-- A turn whose clocks all read the same. -/
def polledAt (now : Nat) (opening : Bool) : Turn where
  opening
  received := none
  airs _ := true
  entropy _ := 0
  now _ _ := now
  clock _ _ := ⟨0⟩
  envs _ _ _ := .done

end SlotKeeping
