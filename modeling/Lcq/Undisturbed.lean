import Lcq.NodeSteps

/-!
# Frames nobody has signed

Two runs of a node, one with frames that do not verify and one without them.
A turn goes the same way in both, except that a frame dropped by its header
also lets the turn skip its end, where the node would have stopped listening.
-/

namespace Undisturbed

open Admission ByteFormat Contracts FileSystem JournalRecords JournalState LogJournal NodeLoop
  NodeSteps Program Schedule Transitions Utterances Wire

variable {P : Postcard} {C : Primitives} {station : Station C}

/-! ## The run without them -/

/-- A turn whose radio hands over nothing, everything else being the same. -/
def silenced (t : Turn) : Turn := { t with received := none }

variable (bad : Bytes → Bool)

/-- What happens, with the bad frames left out. -/
def without : Happening → Happening
  | .turn t => if t.received.any bad = true then .turn (silenced t) else .turn t
  | happening => happening

section conditions

variable (P : Postcard) {C : Primitives} (station : Station C)

/-- The turn comes to its radio in a round, is handed a bad frame that its header drops, and
would have ended the loop without it. -/
def keptListening (t : Turn) (n : Node) : Bool :=
  match untilRadio P station t n with
  | (.ok (some anchor), k) =>
    t.received.any (fun frame => bad frame && dropped station frame k.mind.tally) &&
      (ending station t anchor k).2.mind.finished
  | _ => false

def undisturbed : Lives → Happening → Bool
  | .alive node, .turn t => node.mind.finished || !keptListening bad P station t node
  | _, _ => true

/-- No frame of a run keeps the node listening. -/
def neverKept (path : Path) : Lives → List Happening → Bool
  | _, [] => true
  | lives, happening :: rest => undisturbed bad P station lives happening &&
      neverKept path (lives.next P station path happening) rest

end conditions

/-! ## One turn -/

section turns

variable {bad} {frame : Bytes} {t : Turn} {n : Node}

theorem drain_silenced (early : List (Nat × Bytes)) :
    drain P station (silenced t) early = drain P station t early := by
  induction early with
  | nil => rfl
  | cons p early ih =>
    obtain ⟨member, frame⟩ := p
    simp only [drain, ih]
    rfl

theorem closing_silenced : NodeLoop.closing P station (silenced t) =
    NodeLoop.closing P station t := by
  unfold NodeLoop.closing
  simp only [drain_silenced]
  rfl

theorem untilRadio_silenced : untilRadio P station (silenced t) = untilRadio P station t := by
  unfold untilRadio
  simp only [closing_silenced]
  rfl

theorem unverified_trigger (unverified : verified station frame = none) :
    triggerRound station frame = none := by
  cases trigger : triggerRound station frame with
  | none => rfl
  | some opened =>
    obtain ⟨envelope, genuine, -⟩ := triggerRound_some trigger
    rw [verified_eq_some.mpr genuine] at unverified
    cases unverified

theorem unverified_anchor (unverified : verified station frame = none) (now : Nat) :
    lateAnchor station frame now = none := by
  cases anchor : lateAnchor station frame now with
  | none => rfl
  | some late =>
    obtain ⟨envelope, genuine, -⟩ := lateAnchor_some anchor
    rw [verified_eq_some.mpr genuine] at unverified
    cases unverified

theorem unverified_offered (unverified : verified station frame = none) (y : Tally)
    (clock : Clock) : y.offered station frame clock = (.nothing, y) := by
  have other : ∀ envelope, ¬ Genuine station frame envelope := by
    intro envelope genuine
    rw [verified_eq_some.mpr genuine] at unverified
    cases unverified
  simp only [Tally.offered, admit_other other]
  rfl

/-- Before the round a frame that does not verify is as good as none. -/
theorem await_unverified (received : t.received = some frame)
    (unverified : verified station frame = none) :
    await P station t = await P station (silenced t) := by
  funext n
  unfold await
  rw [received]
  simp only [silenced, unverified_trigger unverified, unverified_anchor unverified, bind_apply,
    read_apply, andThen_ok]
  split <;> rfl

theorem hasReceived_unverified (unverified : verified station frame = none) (y : Tally) :
    y.hasReceived station frame = y := by
  simp [Tally.hasReceived, unverified]

/-- In the round it is too, if it is not dropped by its header or the turn's end does nothing. -/
theorem hear_unverified {anchor : Nat} (received : t.received = some frame)
    (unverified : verified station frame = none)
    (goes : dropped station frame n.mind.tally = true →
      ending station t anchor n = (.ok (), n)) :
    hear P station t anchor n = hear P station (silenced t) anchor n := by
  unfold hear
  rw [received]
  have same : (tallying fun y => y.hasReceived station frame) n = (.ok (), n) := by
    simp only [tallying, minding, change_apply, hasReceived_unverified unverified]
  simp only [silenced, unverified_trigger unverified, bind_apply, read_apply, andThen_ok, same]
  split
  · rename_i out
    have gone : dropped station frame n.mind.tally = true := by
      simpa [dropped] using out
    exact (goes gone).symm
  · have offered : offering station frame (t.clock .received) n = (.ok .nothing, n) := by
      simp only [offering, unverified_offered unverified]
    simp only [bind_apply, offered, andThen_ok]
    rfl

theorem ending_goesOn {anchor : Nat} (goes : (ending station t anchor n).2.mind.finished = false) :
    ending station t anchor n = (.ok (), n) := by
  unfold ending at goes ⊢
  simp only [bind_apply, read_apply, andThen_ok] at goes ⊢
  split
  · rename_i due
    rw [if_pos due] at goes
    cases goes
  · rfl

theorem turn_silenced (received : t.received = some frame) (isBad : bad frame = true)
    (unverified : verified station frame = none)
    (kept : keptListening bad P station t n = false) :
    turn P station t n = turn P station (silenced t) n := by
  rw [turn_radio, turn_radio, untilRadio_silenced, bind_apply, bind_apply]
  unfold keptListening at kept
  cases came : untilRadio P station t n with
  | mk out k =>
  rw [came] at kept
  cases out with
  | error stop => rfl
  | ok began =>
    cases began with
    | none => exact congrFun (await_unverified received unverified) k
    | some anchor =>
      refine hear_unverified received unverified fun gone => ending_goesOn ?_
      simpa [received, isBad, gone] using kept

end turns

/-! ## Runs -/

section runs

variable {bad}

/-- What happens next leads to the same lives without the bad frames. -/
theorem next_without {path : Path} {lives : Lives} {happening : Happening}
    (unverified : ∀ frame, bad frame = true → verified station frame = none)
    (undisturbed : undisturbed bad P station lives happening = true) :
    lives.next P station path (without bad happening) = lives.next P station path happening := by
  cases happening with
  | boot entropy opening entering => rfl
  | crash => rfl
  | turn t =>
    rw [without]
    split
    · rename_i found
      obtain ⟨frame, received, isBad⟩ := (Option.any_eq_true _ _).mp found
      cases lives with
      | dead disk sealed past => rfl
      | alive node =>
        unfold Lives.next
        dsimp only
        split
        · rfl
        · rename_i going
          have kept : keptListening bad P station t node = false := by
            simpa [Undisturbed.undisturbed, going] using undisturbed
          rw [turn_silenced received isBad (unverified frame isBad) kept]
    · rfl

/-- Leave any set of frames that do not verify out of what a node receives, all else at the
same instants: unless one of them, dropped by its header, keeps the node listening past the
end of its loop, everything the node has in mind and on disk is the same after everything
that happens. -/
theorem unauthenticated_unfelt (P : Postcard) (station : Station C) (path : Path)
    (bad : Bytes → Bool) (unverified : ∀ frame, bad frame = true → verified station frame = none)
    (start : Lives) (happenings : List Happening) :
    neverKept bad P station path start happenings = true →
    ∀ earlier, earlier <+: happenings →
      start.after P station path (earlier.map (without bad)) =
        start.after P station path earlier := by
  intro undisturbed earlier before
  induction earlier generalizing start happenings with
  | nil => rfl
  | cons happening earlier ih =>
    obtain ⟨rest, rfl⟩ : ∃ rest, happenings = happening :: rest := by
      obtain ⟨later, rfl⟩ := before
      exact ⟨earlier ++ later, rfl⟩
    rw [neverKept, Bool.and_eq_true] at undisturbed
    obtain ⟨here, later⟩ := undisturbed
    have step : start.next P station path (without bad happening) =
        start.next P station path happening := next_without unverified here
    rw [List.map_cons, Lives.after, List.foldl_cons, step]
    exact ih _ rest later (List.prefix_cons_inj happening |>.mp before)

end runs

/-- A turn whose clocks all read the same, and are past the cutoff of the case. -/
def heardAt (now : Nat) (received : Option Bytes) : Turn where
  opening := false
  received
  airs _ := true
  entropy _ := 0
  now _ _ := now
  clock _ _ := ⟨1400⟩
  envs _ _ _ := .done

/-- A frame whose header names a member the fleet does not have. -/
def stray : Bytes := [0, 77, 0, 0, 0, 0, 0, 0, 0, 1, 0]

/-- The first member opens a round at instant 0 and its radio hands over two frames. -/
def openedThenHeard (first second : Nat × Bytes) : List Happening :=
  [.boot 0 (fun _ => .done) (fun _ => .done), .turn { heardAt 0 none with opening := true },
    .turn (heardAt first.1 (some first.2)), .turn (heardAt second.1 (some second.2))]

def supporters : Lives → List String
  | .dead _ _ _ => []
  | .alive node => node.mind.tally.case.bindingSupporters

/-- A stray frame and a vote, in the course of the round. -/
theorem unauthenticated_unfelt_stray :
    let bad := fun frame => (verified stationed frame).isNone
    let start : Lives := .dead Disk.empty [] ⟨[], [], []⟩
    let vote := voiced 1 3 1 5 ⟨0, 0⟩
    let happenings := openedThenHeard (500000000000, stray) (510000000000, vote)
    supporters (start.after postcard stationed ⟨"member", some "journal"⟩ happenings) = ["b"] ∧
      start.after postcard stationed ⟨"member", some "journal"⟩ (happenings.map (without bad)) =
        start.after postcard stationed ⟨"member", some "journal"⟩ happenings := by
  intro bad start vote happenings
  refine ⟨by decide +kernel, ?_⟩
  exact unauthenticated_unfelt postcard stationed ⟨"member", some "journal"⟩ bad
    (fun _ none => Option.isNone_iff_eq_none.mp none) start happenings (by decide +kernel)
    happenings (List.prefix_refl _)

/-- The stray frame comes when the loop would have ended: the vote behind it is counted only
because of it. -/
theorem unauthenticated_unfelt_late :
    let bad := fun frame => (verified stationed frame).isNone
    let start : Lives := .dead Disk.empty [] ⟨[], [], []⟩
    let vote := voiced 1 3 1 5 ⟨0, 0⟩
    let happenings := openedThenHeard (601190000000, stray) (601200000000, vote)
    bad stray = true ∧
      supporters (start.after postcard stationed ⟨"member", some "journal"⟩ happenings) = ["b"] ∧
      supporters (start.after postcard stationed ⟨"member", some "journal"⟩
        (happenings.map (without bad))) = [] := by
  decide +kernel

end Undisturbed
