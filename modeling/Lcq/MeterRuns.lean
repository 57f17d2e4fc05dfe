import Lcq.LegalAirtime

/-!
# Runs of the airtime meter

Any sequence of questions and transmissions in order of time. The meter holds
exactly the transmissions it has let through that are still inside its hour.
-/

namespace MeterRuns

open Contracts LegalAirtime SlidingWindows

/-! ## Calls -/

inductive Call where
  | usedMs (now : UInt64)
  | allows (now air : UInt64)
  | transmit (now air : UInt64)
  deriving DecidableEq

inductive Answer where
  | used (total : UInt64)
  | may (allowed : Bool)
  | went (sent : Bool)
  deriving DecidableEq

def Call.time : Call → UInt64
  | usedMs now | allows now _ | transmit now _ => now

def usedMs (b : AirtimeBudget) (now : UInt64) : UInt64 × AirtimeBudget :=
  let evicted := b.evict now
  (evicted.totalMs, evicted)

def allows (b : AirtimeBudget) (now air : UInt64) : Bool × AirtimeBudget :=
  let evicted := b.evict now
  (dutyCycleOk evicted.totalMs air, evicted)

/-- What a call returns and leaves. -/
def answer (b : AirtimeBudget) : Call → Answer × AirtimeBudget
  | .usedMs now => let (total, b) := usedMs b now; (.used total, b)
  | .allows now air => let (allowed, b) := allows b now air; (.may allowed, b)
  | .transmit now air => let (sent, b) := b.transmit now air; (.went sent, b)

/-- A meter, and a ghost: what it has let through. -/
structure Meter where
  budget : AirtimeBudget
  accepted : List (UInt64 × UInt64)

namespace Meter

def new : Meter := ⟨.new, []⟩

def next (m : Meter) (call : Call) : Meter :=
  match call, answer m.budget call with
  | .transmit now air, (.went true, budget) => ⟨budget, m.accepted ++ [(now, air)]⟩
  | _, (_, budget) => { m with budget }

def after (m : Meter) (calls : List Call) : Meter := calls.foldl next m

/-- What the calls of a run return. -/
def answers : Meter → List Call → List Answer
  | _, [] => []
  | m, call :: calls => (answer m.budget call).1 :: (m.next call).answers calls

end Meter

/-! ## The saturating steps -/

/-- A saturating addition or subtraction that is carried out. -/
inductive Saturating where
  | add (a b : UInt64)
  | sub (a b : UInt64)

def Saturating.Exact : Saturating → Prop
  | .add a b => a.toNat + b.toNat < 2 ^ 64
  | .sub a b => b ≤ a

/-- What eviction takes off the total. -/
def evictSteps (horizon : UInt64) : List (UInt64 × UInt64) → UInt64 → List Saturating
  | [], _ => []
  | (sentAt, air) :: rest, totalMs =>
    if horizon ≤ sentAt then []
    else .sub totalMs air :: evictSteps horizon rest (saturatingSub totalMs air)

/-- The saturating steps of a call that change the running total. -/
def totalSteps (b : AirtimeBudget) (call : Call) : List Saturating :=
  evictSteps (AirtimeBudget.horizon call.time) b.sent b.totalMs ++
    match call with
    | .transmit now air =>
      if (b.transmit now air).1 = true then [.add (b.evict now).totalMs air] else []
    | .usedMs _ | .allows _ _ => []

/-- The saturating steps of a call that only work something out. -/
def readingSteps (b : AirtimeBudget) : Call → List Saturating
  | .usedMs now => [.sub now dutyCycleWindowMs]
  | .allows now air | .transmit now air =>
    [.sub now dutyCycleWindowMs, .add (b.evict now).totalMs air]

/-! ## What the meter holds -/

/-- The meter holds what it has let through from its last horizon on, and counts just that. -/
structure Holding (m : Meter) (last : UInt64) : Prop where
  sent : m.budget.sent =
    m.accepted.filter fun p => decide (AirtimeBudget.horizon last ≤ p.1)
  ordered : m.accepted.Pairwise fun p q => p.1 ≤ q.1
  past : ∀ p ∈ m.accepted, p.1 ≤ last
  total : m.budget.totalMs.toNat = charged m.budget.sent

variable {m : Meter} {last : UInt64}

theorem holding_new : Holding .new 0 := by
  refine ⟨rfl, List.Pairwise.nil, ?_, rfl⟩
  rintro p ⟨⟩

theorem Holding.precise (holding : Holding m last) : Exact m.budget last := by
  constructor
  · rw [holding.sent]
    exact holding.ordered.filter _
  · intro p mem
    rw [holding.sent] at mem
    exact holding.past p (List.mem_filter.mp mem).1
  · exact holding.total

theorem Holding.evict (holding : Holding m last) {now : UInt64} (onward : last ≤ now) :
    Holding { m with budget := m.budget.evict now } now := by
  obtain ⟨kept, precise⟩ := holding.precise.evict now
  constructor
  · change (m.budget.evict now).sent = _
    rw [kept, holding.sent, List.filter_filter]
    apply List.filter_congr
    intro p mem
    rw [Bool.and_eq_left_iff_imp, decide_eq_true_eq, decide_eq_true_eq]
    exact UInt64.le_trans (horizon_mono onward)
  · exact holding.ordered
  · intro p mem
    exact UInt64.le_trans (holding.past p mem) onward
  · exact precise.total

theorem horizon_le (now since : UInt64) :
    AirtimeBudget.horizon now ≤ since ↔ now.toNat ≤ since.toNat + 3600000 := by
  have hour : dutyCycleWindowMs.toNat = 3600000 := by decide
  rw [UInt64.le_iff_toNat_le, AirtimeBudget.horizon, saturatingSub_toNat, hour]
  omega

/-- When a transmission starts, and what it costs. -/
def starts (p : UInt64 × UInt64) : Nat := p.1.toNat

def costs (p : UInt64 × UInt64) : Nat := p.2.toNat

/-- It starts in the closed hour that ends now. -/
def recent (now : UInt64) (p : UInt64 × UInt64) : Bool := decide (now.toNat ≤ starts p + 3600000)

/-- What the meter has counted when it is asked is what was let through in the last hour. -/
theorem Holding.used (holding : Holding m last) {now : UInt64} (onward : last ≤ now) :
    (m.budget.evict now).totalMs.toNat = spent costs (recent now) m.accepted := by
  have evicted := holding.evict onward
  have total := evicted.total
  rw [evicted.sent] at total
  rw [total, charged, spent]
  congr 2
  apply List.filter_congr
  intro p mem
  rw [recent, starts]
  exact decide_eq_decide.mpr (horizon_le now p.1)

/-- Whether there is room beside what was let through in the last hour. -/
def fits (m : Meter) (now air : UInt64) : Bool :=
  decide (spent costs (recent now) m.accepted + air.toNat ≤ 36000)

theorem Holding.ok (holding : Holding m last) {now : UInt64} (onward : last ≤ now)
    (air : UInt64) : dutyCycleOk (m.budget.evict now).totalMs air = fits m now air := by
  rw [fits, Bool.eq_iff_iff, dutyCycleOk_iff, decide_eq_true_eq, holding.used onward]

/-- What a call is to return, by what was let through before it. -/
def due (m : Meter) : Call → Answer
  | .usedMs now => .used (m.budget.evict now).totalMs
  | .allows now air => .may (fits m now air)
  | .transmit now air => .went (fits m now air)

/-- What a call is to leave. -/
def left (m : Meter) : Call → Meter
  | .transmit now air =>
    if fits m now air = true then
      ⟨(m.budget.evict now).charge now air, m.accepted ++ [(now, air)]⟩
    else { m with budget := m.budget.evict now }
  | .usedMs now | .allows now _ => { m with budget := m.budget.evict now }

theorem Holding.answer (holding : Holding m last) {call : Call} (onward : last ≤ call.time) :
    (answer m.budget call).1 = due m call ∧ m.next call = left m call := by
  cases call with
  | usedMs now => exact ⟨rfl, rfl⟩
  | allows now air =>
    refine ⟨?_, rfl⟩
    have onward : last ≤ now := onward
    rw [due, ← holding.ok onward]
    rfl
  | transmit now air =>
    have onward : last ≤ now := onward
    rw [due, left, ← holding.ok onward]
    unfold Meter.next MeterRuns.answer AirtimeBudget.transmit
    cases ok : dutyCycleOk (m.budget.evict now).totalMs air with
    | true => exact ⟨by simp only [ok, if_true], by simp only [ok, if_true]⟩
    | false => exact ⟨by simp [ok], by simp [ok]⟩

theorem Holding.next (holding : Holding m last) {call : Call} (onward : last ≤ call.time) :
    Holding (m.next call) call.time := by
  rw [(holding.answer onward).2]
  cases call with
  | usedMs now => exact holding.evict onward
  | allows now air => exact holding.evict onward
  | transmit now air =>
    have onward : last ≤ now := onward
    have evicted := holding.evict onward
    rw [left]
    split
    · rename_i room
      rw [fits, decide_eq_true_eq, ← holding.used onward] at room
      have space : (m.budget.evict now).totalMs.toNat + air.toNat < 2 ^ 64 := by omega
      have precise := evicted.precise.charge (UInt64.le_refl now) space
      constructor
      · change (m.budget.evict now).sent ++ [(now, air)] = _
        have here : AirtimeBudget.horizon now ≤ now := (horizon_le now now).mpr (by omega)
        have newest : [(now, air)].filter (fun p => decide (AirtimeBudget.horizon now ≤ p.1)) =
            [(now, air)] := by simp [here]
        rw [evicted.sent, Call.time, List.filter_append, newest]
      · rw [List.pairwise_append]
        refine ⟨holding.ordered, List.pairwise_singleton _ _, ?_⟩
        intro p mem q newest
        rw [List.mem_singleton.mp newest]
        exact evicted.past p mem
      · intro p mem
        rcases List.mem_append.mp mem with old | newest
        · exact evicted.past p old
        · rw [List.mem_singleton.mp newest]
          exact UInt64.le_refl _
      · exact precise.total
    · exact evicted

theorem Meter.after_snoc (m : Meter) (calls : List Call) (call : Call) :
    m.after (calls ++ [call]) = (m.after calls).next call := by
  rw [Meter.after, List.foldl_append]
  rfl

/-- Calls are made in order of time. -/
def Onward (calls : List Call) : Prop := calls.Pairwise fun c d => c.time ≤ d.time

theorem holding_after {before after : List Call} (onward : Onward (before ++ after)) :
    ∃ last, Holding (Meter.new.after before) last ∧ ∀ call ∈ after, last ≤ call.time := by
  induction before using List.reverseRecOn generalizing after with
  | nil => exact ⟨0, holding_new, fun call _ => UInt64.zero_le⟩
  | append_singleton before call ih =>
    rw [List.append_assoc] at onward
    obtain ⟨last, holding, later⟩ := ih onward
    rw [Meter.after_snoc]
    refine ⟨call.time, holding.next (later call List.mem_cons_self), ?_⟩
    intro d mem
    exact (List.pairwise_cons.mp (List.pairwise_append.mp onward).2.1).1 d mem

/-! ## Refused, and nothing to be seen of it -/

theorem evictBefore_twice {first second : UInt64} (le : first ≤ second) :
    ∀ (l : List (UInt64 × UInt64)) (total : UInt64),
      AirtimeBudget.evictBefore second (AirtimeBudget.evictBefore first l total).sent
          (AirtimeBudget.evictBefore first l total).totalMs =
        AirtimeBudget.evictBefore second l total
  | [], _ => rfl
  | (sentAt, air) :: rest, total => by
    rw [AirtimeBudget.evictBefore]
    split
    · rfl
    · rename_i outside
      have later : ¬ second ≤ sentAt := fun inside => outside (UInt64.le_trans le inside)
      rw [evictBefore_twice le rest, AirtimeBudget.evictBefore.eq_2, if_neg later]

theorem evict_evict (b : AirtimeBudget) {now later : UInt64} (onward : now ≤ later) :
    (b.evict now).evict later = b.evict later :=
  evictBefore_twice (horizon_mono onward) b.sent b.totalMs

/-- A call sees of a budget only what is left of it at the time of the call. -/
theorem answer_evicted (b : AirtimeBudget) {now : UInt64} {call : Call}
    (onward : now ≤ call.time) : answer (b.evict now) call = answer b call := by
  cases call with
  | usedMs time =>
    have onward : now ≤ time := onward
    simp only [answer, usedMs, evict_evict b onward]
  | allows time air =>
    have onward : now ≤ time := onward
    simp only [answer, allows, evict_evict b onward]
  | transmit time air =>
    have onward : now ≤ time := onward
    simp only [answer, AirtimeBudget.transmit, evict_evict b onward]

theorem answers_evicted (m : Meter) {now : UInt64} {calls : List Call}
    (onward : ∀ call ∈ calls, now ≤ call.time) :
    Meter.answers { m with budget := m.budget.evict now } calls = m.answers calls := by
  cases calls with
  | nil => rfl
  | cons call calls =>
    have same := answer_evicted m.budget (onward call List.mem_cons_self)
    have next : Meter.next { m with budget := m.budget.evict now } call = m.next call := by
      unfold Meter.next
      dsimp only
      rw [same]
    rw [Meter.answers, Meter.answers, same, next]

/-! ## No step on the total saturates -/

theorem evictSteps_exact (horizon : UInt64) : ∀ (l : List (UInt64 × UInt64)) (total : UInt64),
    total.toNat = charged l → ∀ step ∈ evictSteps horizon l total, step.Exact
  | [], _, _ => by
    rintro step ⟨⟩
  | (sentAt, air) :: rest, total, precise => by
    have sum : charged ((sentAt, air) :: rest) = air.toNat + charged rest := rfl
    have less : (saturatingSub total air).toNat = charged rest := by
      rw [saturatingSub_toNat, precise, sum, Nat.add_sub_cancel_left]
    intro step mem
    rw [evictSteps] at mem
    split at mem
    · cases mem
    · rcases List.mem_cons.mp mem with rfl | later
      · change air ≤ total
        rw [UInt64.le_iff_toNat_le, precise, sum]
        exact Nat.le_add_right _ _
      · exact evictSteps_exact horizon rest _ less step later

theorem Holding.exact (holding : Holding m last) {call : Call} (onward : last ≤ call.time) :
    ∀ step ∈ totalSteps m.budget call, step.Exact := by
  intro step mem
  rcases List.mem_append.mp mem with popped | counted
  · exact evictSteps_exact _ _ _ holding.total step popped
  · cases call with
    | usedMs now => cases counted
    | allows now air => cases counted
    | transmit now air =>
      have onward : last ≤ now := onward
      have accepted : (m.budget.transmit now air).1 = fits m now air := by
        rw [← holding.ok onward, AirtimeBudget.transmit]
        split <;> simp_all
      dsimp only at counted
      rw [accepted] at counted
      split at counted
      · rename_i room
        rw [fits, decide_eq_true_eq, ← holding.used onward] at room
        rw [List.mem_singleton.mp counted]
        change (m.budget.evict now).totalMs.toNat + air.toNat < 2 ^ 64
        omega
      · cases counted

/-! ## The law -/

/-- What holds of a run of calls in order of time. -/
structure Law (calls : List Call) : Prop where
  /-- No closed hour has more in it than is legal, wherever it begins. -/
  hours : Bounded starts costs 3600000 36000 (Meter.new.after calls).accepted
  /-- Accepted is what fits beside what was accepted in the closed hour ending now. -/
  accepts : ∀ before now air after, calls = before ++ .transmit now air :: after →
    ((answer (Meter.new.after before).budget (.transmit now air)).1 = .went true ↔
      spent costs (recent now) (Meter.new.after before).accepted + air.toNat ≤ 36000)
  /-- Without a transmission that was refused every later answer is the same. -/
  unseen : ∀ before now air after, calls = before ++ .transmit now air :: after →
    (answer (Meter.new.after before).budget (.transmit now air)).1 = .went false →
      (Meter.new.after (before ++ [.transmit now air])).answers after =
          (Meter.new.after before).answers after ∧
        (Meter.new.after (before ++ [.transmit now air])).accepted =
          (Meter.new.after before).accepted
  total : ∀ before after, calls = before ++ after →
    (Meter.new.after before).budget.totalMs.toNat =
      charged (Meter.new.after before).budget.sent
  /-- No saturating step on the total saturates. -/
  steady : ∀ before call after, calls = before ++ call :: after →
    ∀ step ∈ totalSteps (Meter.new.after before).budget call, step.Exact

theorem hours_after {calls : List Call} (onward : Onward calls) :
    Bounded starts costs 3600000 36000 (Meter.new.after calls).accepted := by
  induction calls using List.reverseRecOn with
  | nil =>
    intro begins
    exact Nat.zero_le _
  | append_singleton calls call ih =>
    have before := ih (List.pairwise_append.mp onward).1
    obtain ⟨last, holding, later⟩ := holding_after onward
    have latest := later call List.mem_cons_self
    rw [Meter.after_snoc, (holding.answer latest).2]
    cases call with
    | usedMs now => exact before
    | allows now air => exact before
    | transmit now air =>
      rw [left]
      split
      · rename_i room
        rw [fits, decide_eq_true_eq] at room
        refine (bounded_snoc ?_).mpr ⟨before, ?_⟩
        · intro p mem
          exact UInt64.le_iff_toNat_le.mp (UInt64.le_trans (holding.past p mem) latest)
        · exact room
      · exact before

/-- The law of the sliding hour, for every run in order of time. -/
theorem law_holds {calls : List Call} (onward : Onward calls) : Law calls := by
  constructor
  · exact hours_after onward
  · rintro before now air after rfl
    obtain ⟨last, holding, later⟩ := holding_after onward
    rw [(holding.answer (later _ List.mem_cons_self)).1, due, fits, Answer.went.injEq,
      decide_eq_true_eq]
  · rintro before now air after rfl refused
    obtain ⟨last, holding, later⟩ := holding_after onward
    obtain ⟨returned, next⟩ := holding.answer (later _ List.mem_cons_self)
    rw [returned, due, Answer.went.injEq] at refused
    rw [Meter.after_snoc, next, left, refused]
    refine ⟨answers_evicted _ ?_, rfl⟩
    intro call mem
    exact (List.pairwise_cons.mp (List.pairwise_append.mp onward).2.1).1 call mem
  · rintro before after rfl
    obtain ⟨last, holding, -⟩ := holding_after onward
    exact holding.total
  · rintro before call after rfl
    obtain ⟨last, holding, later⟩ := holding_after onward
    exact holding.exact (later call List.mem_cons_self)

/-- An hour full to the brim, one more refused, and room again once the hour is past. -/
def hourAndMore : List Call :=
  [.transmit 0 36000, .transmit 3600000 1, .transmit 3600001 1]

theorem law_hourAndMore : Law hourAndMore := by
  have onward : Onward hourAndMore := by
    unfold Onward hourAndMore
    decide
  exact law_holds onward

/-- The steps that work out the horizon and the room can both saturate. -/
theorem readings_saturate : ∃ calls : List Call, Onward calls ∧
    ∃ before call after, calls = before ++ call :: after ∧
      ∀ step ∈ readingSteps (Meter.new.after before).budget call, ¬ step.Exact := by
  refine ⟨[.transmit 0 1, .transmit 0 18446744073709551615], ?_, [.transmit 0 1],
    .transmit 0 18446744073709551615, [], rfl, ?_⟩
  · unfold Onward
    decide
  · intro step mem
    rcases List.mem_cons.mp mem with rfl | mem
    · change ¬ dutyCycleWindowMs ≤ 0
      decide
    · rw [List.mem_singleton.mp mem]
      change ¬ 1 + 18446744073709551615 < 2 ^ 64
      omega

end MeterRuns
