import Lcq.VirtualChip

/-!
# Timers that have gone stale

Which timers act, and on what, in any order of commands, resets, frames and
firings. The generation tells a timer apart from later modes, but a reset
starts it again.
-/

namespace StaleTimers

open ByteFormat VirtualChip

/-! ## Mode changes are counted -/

/-- The count never falls, and a change of mode is counted. -/
structure Follows (before after : Model) : Prop where
  counted : before.changes ≤ after.changes
  moved : after.changes = before.changes → after.mode = before.mode

namespace Follows

theorem same {before after : Model} (changes : after.changes = before.changes)
    (mode : after.mode = before.mode) : Follows before after :=
  ⟨Nat.le_of_eq changes.symm, fun _ => mode⟩

theorem trans {first second third : Model} (early : Follows first second)
    (late : Follows second third) : Follows first third := by
  refine ⟨Nat.le_trans early.counted late.counted, fun back => ?_⟩
  have low := early.counted
  have high := late.counted
  rw [late.moved (by omega), early.moved (by omega)]

theorem setMode (m : Model) (mode : ChipMode) : Follows m (m.setMode mode) := by
  refine ⟨Nat.le_succ _, fun back => ?_⟩
  exact absurd back (Nat.succ_ne_self _)

end Follows

variable (inner : Inner) (m : Model) (now : Nat)

theorem woken_follows : Follows m (Inner.woken m) := by
  unfold Inner.woken
  split
  · exact Follows.setMode m _
  · exact Follows.same rfl rfl

theorem configure_follows (opcode : Option Opcode) (params : Bytes) :
    Follows m (m.configure opcode params) := by
  unfold Model.configure
  split
  all_goals first
    | exact Follows.setMode m _
    | exact Follows.same rfl rfl
    | skip
  split
  · exact Follows.same rfl rfl
  · exact Follows.same rfl rfl

/-- A timer is armed in the mode it awaits, with the generation the chip has then. -/
def Fresh (m : Model) (timer : Timer) : Prop :=
  timer.awaits = m.mode ∧ timer.generation = m.generation

/-- What a command does to the count, and the timer it arms. -/
structure Carried (before : Model) (begun : Inner.Begun) : Prop where
  follows : Follows before begun.model
  fresh : ∀ timer ∈ begun.timer, Fresh begun.model timer

theorem carried_plain {before : Model} {begun : Inner.Begun} (follows : Follows before begun.model)
    (none : begun.timer = none) : Carried before begun := by
  refine ⟨follows, fun timer armed => ?_⟩
  rw [none] at armed
  cases armed

theorem transmit_carried : Carried m (inner.beginTransmit m) := by
  refine ⟨(Follows.setMode m .transmit).trans (Follows.same rfl rfl), fun timer armed => ?_⟩
  cases armed
  exact ⟨rfl, rfl⟩

theorem receive_carried (params : Bytes) : Carried m (inner.beginReceive m now params) := by
  refine ⟨(Follows.setMode m .receive).trans (Follows.same rfl rfl), fun timer armed => ?_⟩
  simp only [Inner.beginReceive, Option.mem_def] at armed
  split at armed
  · cases armed
  · cases armed
    exact ⟨rfl, rfl⟩

theorem cad_carried : Carried m (inner.beginCad m now) := by
  have looked : Follows m { m with onAir := m.onAir.filter fun frame => now < frame.ends } :=
    Follows.same rfl rfl
  refine ⟨looked.trans ((Follows.setMode _ .frequencySynthesis).trans (Follows.same rfl rfl)),
    fun timer armed => ?_⟩
  cases armed
  exact ⟨rfl, rfl⟩

theorem carryOut_carried (opcode : Option Opcode) (params : Bytes) :
    Carried m (inner.carryOut m now opcode params) := by
  unfold Inner.carryOut
  split
  case h_12 => exact transmit_carried inner m
  case h_13 | h_14 => exact receive_carried inner m now params
  case h_15 => exact carried_plain (Follows.same rfl rfl) rfl
  case h_16 => exact cad_carried inner m now
  case h_17 => exact carried_plain (configure_follows m _ params) rfl
  all_goals exact carried_plain (Follows.same rfl rfl) rfl

theorem execute_carried (opcode : UInt8) (params : Bytes) :
    Carried m (inner.execute m now opcode params) := by
  have carried := carryOut_carried inner (Inner.woken m) now (Opcode.ofByte opcode) params
  unfold Inner.execute
  dsimp only
  split
  · exact ⟨(woken_follows m).trans carried.follows, carried.fresh⟩
  · exact ⟨(woken_follows m).trans (carried.follows.trans (Follows.same rfl rfl)), carried.fresh⟩

theorem miss_follows (bytes : Nat) : Follows m (m.miss bytes).1 := by
  unfold Model.miss
  split <;> exact Follows.same rfl rfl

theorem settle_follows {before after : Model} (changes : after.changes = before.changes)
    (mode : after.mode = before.mode) : Follows before after.settle := by
  unfold Model.settle
  split
  · exact Follows.same changes mode
  · exact (Follows.same changes mode).trans (Follows.setMode after .standbyRc)

theorem receive_follows (delivery : Delivery) : Follows m (m.receive delivery) := by
  unfold Model.receive
  dsimp only
  split
  · exact Follows.same rfl rfl
  · exact settle_follows rfl rfl
  · exact settle_follows rfl rfl

theorem awaits_ne (timer : Timer) : timer.awaits ≠ .standbyRc := by
  cases timer <;> exact ChipMode.noConfusion

theorem fire_mode {timer : Timer} (current : m.Current timer) :
    (m.fire timer).mode = .standbyRc ∧ (m.fire timer).changes = m.changes + 1 := by
  rw [Model.fire, if_pos current]
  cases timer <;> exact ⟨rfl, rfl⟩

theorem fire_follows (timer : Timer) : Follows m (m.fire timer) := by
  by_cases current : m.Current timer
  · have moved := (fire_mode m current).2
    exact ⟨by omega, fun back => by omega⟩
  · rw [Model.fire, if_neg current]
    exact Follows.same rfl rfl

/-! ## Steps of the chip -/

/-- From one world to a later one: a reset, or a count that never falls. -/
structure Onward (before after : World) : Prop where
  resets : before.resets ≤ after.resets
  follows : after.resets = before.resets → Follows before.model after.model

namespace Onward

theorem within {before after : World} (resets : after.resets = before.resets)
    (follows : Follows before.model after.model) : Onward before after :=
  ⟨Nat.le_of_eq resets.symm, fun _ => follows⟩

theorem refl (w : World) : Onward w w := within rfl (Follows.same rfl rfl)

theorem trans {first second third : World} (early : Onward first second)
    (late : Onward second third) : Onward first third := by
  refine ⟨Nat.le_trans early.resets late.resets, fun back => ?_⟩
  have low := early.resets
  have high := late.resets
  exact (early.follows (by omega)).trans (late.follows (by omega))

end Onward

/-- What is known of a timer asleep: the generation it carries, and that it was armed before. -/
structure Known (w : World) (asleep : Armed) : Prop where
  numbered : asleep.timer.generation = .ofNat asleep.changes
  resets : asleep.resets ≤ w.resets
  changes : asleep.resets = w.resets → asleep.changes ≤ w.model.changes

theorem known_later {w v : World} {asleep : Armed} (onward : Onward w v) (known : Known w asleep) :
    Known v asleep := by
  refine ⟨known.numbered, Nat.le_trans known.resets onward.resets, fun same => ?_⟩
  have low := known.resets
  have high := onward.resets
  exact Nat.le_trans (known.changes (by omega)) (onward.follows (by omega)).counted

/-- What a step does to the timers: the ones left were there before, or are armed by it. -/
structure Stepped (before after : World) : Prop where
  onward : Onward before after
  armed : ∀ asleep ∈ after.armed, asleep ∈ before.armed ∨ Known after asleep

theorem stepped_kept {w v : World} (onward : Onward w v) (kept : v.armed = w.armed) :
    Stepped w v := by
  refine ⟨onward, fun asleep mem => Or.inl ?_⟩
  rwa [kept] at mem

theorem execute_stepped (w : World) (opcode : UInt8) (params : Bytes) :
    Stepped w (w.execute inner now opcode params).2 := by
  have carried := execute_carried inner w.model now opcode params
  unfold World.execute
  dsimp only
  split
  · exact stepped_kept (Onward.within rfl carried.follows) rfl
  · rename_i timer found
    refine ⟨Onward.within rfl carried.follows, fun asleep mem => ?_⟩
    rcases List.mem_append.mp mem with old | new
    · exact Or.inl old
    · cases List.mem_singleton.mp new
      exact Or.inr ⟨(carried.fresh timer found).2, Nat.le_refl _, fun _ => Nat.le_refl _⟩

theorem fire_stepped (w : World) (place : Nat) : Stepped w (w.fire place) := by
  unfold World.fire
  split
  · exact stepped_kept (Onward.refl w) rfl
  · exact ⟨Onward.within rfl (fire_follows w.model _),
      fun asleep mem => Or.inl (List.mem_of_mem_eraseIdx mem)⟩

theorem step_stepped (w : World) (event : Event) : Stepped w (w.step inner event) := by
  cases event with
  | command now opcode params => exact execute_stepped inner now w opcode params
  | reset =>
    refine stepped_kept ⟨Nat.le_succ _, fun back => ?_⟩ rfl
    exact absurd back (Nat.succ_ne_self _)
  | delivery now delivery =>
    simp only [World.step]
    unfold World.deliver
    split
    · exact stepped_kept (Onward.within rfl (receive_follows w.model delivery)) rfl
    · exact stepped_kept (Onward.within rfl (miss_follows w.model _)) rfl
  | preamble now airtimeMs => exact stepped_kept (Onward.within rfl (Follows.same rfl rfl)) rfl
  | wakeHost => exact stepped_kept (Onward.within rfl (Follows.same rfl rfl)) rfl
  | attended => exact stepped_kept (Onward.within rfl (Follows.same rfl rfl)) rfl
  | firing place => exact fire_stepped w place

theorem run_onward (w : World) (events : List Event) : Onward w (w.run inner events) := by
  induction events generalizing w with
  | nil => exact Onward.refl w
  | cons event events ih => exact (step_stepped inner w event).onward.trans (ih _)

theorem run_known (w : World) (events : List Event) (known : ∀ asleep ∈ w.armed, Known w asleep) :
    ∀ asleep ∈ (w.run inner events).armed, Known (w.run inner events) asleep := by
  induction events generalizing w with
  | nil => exact known
  | cons event events ih =>
    refine ih _ fun asleep mem => ?_
    have stepped := step_stepped inner w event
    rcases stepped.armed asleep mem with old | new
    · exact known_later stepped.onward (known asleep old)
    · exact new

/-! ## Firings -/

/-- A mode change or a reset has happened since the timer was armed. -/
def Stale (w : World) (asleep : Armed) : Prop :=
  ¬ (asleep.resets = w.resets ∧ asleep.changes = w.model.changes)

theorem run_append (w : World) (earlier later : List Event) :
    w.run inner (earlier ++ later) = (w.run inner earlier).run inner later :=
  List.foldl_append

/-- Between two worlds in which a timer is not stale there was no reset, and one mode only. -/
theorem unmoved {w : World} {events : List Event} {asleep : Armed} (first : ¬ Stale w asleep)
    (last : ¬ Stale (w.run inner events) asleep) (earlier later : List Event)
    (split : events = earlier ++ later) :
    (w.run inner earlier).model.mode = w.model.mode ∧ later.head? ≠ some .reset := by
  subst split
  rw [run_append] at last
  obtain ⟨resets, changes⟩ := not_not.mp first
  obtain ⟨resetsLast, changesLast⟩ := not_not.mp last
  have before := run_onward inner w earlier
  have after := run_onward inner (w.run inner earlier) later
  have low := before.resets
  have high := after.resets
  have counted := (before.follows (by omega)).counted
  have counting := (after.follows (by omega)).counted
  refine ⟨(before.follows (by omega)).moved (by omega), fun reset => ?_⟩
  obtain ⟨rest, rfl⟩ := List.head?_eq_some_iff.mp reset
  have raised := (run_onward inner (w.run inner earlier).reset rest).resets
  have one : (w.run inner earlier).reset.resets = (w.run inner earlier).resets + 1 := rfl
  have whole : (w.run inner earlier).run inner (.reset :: rest) =
    (w.run inner earlier).reset.run inner rest := rfl
  rw [whole] at resetsLast
  omega

/-- The mode, the interrupt status or the counters are not what they were. -/
def Acts (before after : Model) : Prop :=
  after.mode ≠ before.mode ∨ after.irqStatus ≠ before.irqStatus ∨ after.counters ≠ before.counters

theorem fire_acts (timer : Timer) : Acts m (m.fire timer) ↔ m.Current timer := by
  constructor
  · intro acts
    by_contra stale
    rw [Model.fire, if_neg stale] at acts
    rcases acts with h | h | h <;> exact h rfl
  · intro current
    left
    rw [(fire_mode m current).1, current.1]
    exact (awaits_ne timer).symm

/-- The chip is back in the mode the timer awaits, with as many mode changes behind it as when the
timer was armed: since an earlier reset, or a whole round of the generation ago. -/
def Mistaken (w : World) (asleep : Armed) : Prop :=
  w.model.mode = asleep.timer.awaits ∧ w.model.changes % 2 ^ 64 = asleep.changes % 2 ^ 64 ∧
    (asleep.resets < w.resets ∨ asleep.changes + 2 ^ 64 ≤ w.model.changes)

theorem generation_eq_iff (a b : Nat) :
    UInt64.ofNat a = UInt64.ofNat b ↔ a % 2 ^ 64 = b % 2 ^ 64 := by
  rw [← UInt64.toNat_inj, UInt64.toNat_ofNat', UInt64.toNat_ofNat']

theorem mistaken_iff {w : World} {asleep : Armed} (known : Known w asleep) :
    Mistaken w asleep ↔ w.model.Current asleep.timer ∧ Stale w asleep := by
  have number : w.model.generation = asleep.timer.generation ↔
      w.model.changes % 2 ^ 64 = asleep.changes % 2 ^ 64 := by
    rw [known.numbered, Model.generation, generation_eq_iff]
  have low := known.resets
  have high := known.changes
  rw [Mistaken, Model.Current, number, Stale, and_assoc]
  refine and_congr_right fun _ => and_congr_right fun same => ?_
  constructor
  · rintro (reset | round) ⟨resets, changes⟩
    · omega
    · omega
  · intro stale
    by_cases resets : asleep.resets = w.resets
    · right
      have below := high resets
      have apart : asleep.changes ≠ w.model.changes := fun changes => stale ⟨resets, changes⟩
      omega
    · left
      omega

/-- Something holds at every firing of a run, of the chip just before it and the timer. -/
def AtFirings (events : List Event) (holds : World → Nat → Armed → Prop) : Prop :=
  ∀ earlier place later, events = earlier ++ .firing place :: later →
    ∀ asleep ∈ (World.run inner {} earlier).armed[place]?,
      holds (World.run inner {} earlier) place asleep

/-- A firing acts only if nothing has happened to the mode since its timer was armed. -/
def Lawful (w : World) (place : Nat) (asleep : Armed) : Prop :=
  Acts w.model (w.fire place).model → ¬ Stale w asleep

theorem lawful_iff {w : World} {place : Nat} {asleep : Armed}
    (found : asleep ∈ w.armed[place]?) (known : Known w asleep) :
    Lawful w place asleep ↔ ¬ Mistaken w asleep := by
  have fired : (w.fire place).model = w.model.fire asleep.timer := by
    rw [World.fire, Option.mem_def.mp found]
  rw [Lawful, fired, fire_acts, mistaken_iff known, not_and]

/-- Stale timers do nothing in exactly the runs in which no timer fires while the chip is, since a
later reset or round of the generation, where it was when the timer was armed. -/
theorem stale_timers (events : List Event) :
    AtFirings inner events Lawful ↔ AtFirings inner events fun w _ asleep => ¬ Mistaken w asleep := by
  have known (earlier : List Event) (place : Nat) (asleep : Armed)
      (found : asleep ∈ (World.run inner {} earlier).armed[place]?) :
      Known (World.run inner {} earlier) asleep :=
    run_known inner {} earlier (by rintro _ ⟨⟩) asleep (List.mem_of_getElem? found)
  constructor
  · intro lawful earlier place later split asleep found
    exact (lawful_iff found (known earlier place asleep found)).mp
      (lawful earlier place later split asleep found)
  · intro apart earlier place later split asleep found
    exact (lawful_iff found (known earlier place asleep found)).mpr
      (apart earlier place later split asleep found)

def setTx : UInt8 := 0x83

/-- Two transmissions with a reset between them: the first one's timer ends the second. -/
def resetBetween : List Event := [.command 0 setTx [0, 0, 0], .reset,
  .command 20000000 setTx [0, 0, 0], .firing 0]

theorem stale_timer_acts : ¬ AtFirings bench resetBetween Lawful := by
  intro lawful
  have ended := lawful (resetBetween.take 3) 0 [] rfl _ rfl
  refine ended (Or.inl ?_) ?_
  · decide
  · rintro ⟨resets, -⟩
    cases resets

end StaleTimers
