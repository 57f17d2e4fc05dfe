import Lcq.ProtocolClock
import Lcq.SlidingWindows
import Lcq.SlotKeeping

/-!
# Legal airtime

A transmitter may be on the air for 36 s in any hour of protocol time. The
meter that sees to it lives as long as the process: what every life puts on the
air is set against one limit.
-/

namespace LegalAirtime

open Admission ByteFormat Contracts FileSystem JournalRecords LogJournal NodeLoop
  ProtocolClock Schedule SlidingWindows SlotKeeping Utterances Wire

/-! ## The meter -/

/-- Airtime a node may use per hour, in milliseconds. -/
def dutyCycleBudgetMs : UInt64 := 36000

/-- The hour the budget is measured over, in milliseconds. -/
def dutyCycleWindowMs : UInt64 := 3600000

def dutyCycleOk (usedMs nextMs : UInt64) : Bool :=
  decide (saturatingAdd usedMs nextMs ≤ dutyCycleBudgetMs)

structure AirtimeBudget where
  /-- When a transmission was sent and its airtime, for each still inside the window. -/
  sent : List (UInt64 × UInt64)
  totalMs : UInt64

namespace AirtimeBudget

def new : AirtimeBudget := ⟨[], 0⟩

def charge (b : AirtimeBudget) (nowMs airMs : UInt64) : AirtimeBudget :=
  ⟨b.sent ++ [(nowMs, airMs)], saturatingAdd b.totalMs airMs⟩

/-- A budget with some of it spent at time zero. -/
def withPrior (priorMs : UInt64) : AirtimeBudget :=
  if 0 < priorMs then new.charge 0 priorMs else new

/-- Drop transmissions off the front until one is inside the window. -/
def evictBefore (horizon : UInt64) : List (UInt64 × UInt64) → UInt64 → AirtimeBudget
  | [], totalMs => ⟨[], totalMs⟩
  | (sentAt, air) :: rest, totalMs =>
    if horizon ≤ sentAt then ⟨(sentAt, air) :: rest, totalMs⟩
    else evictBefore horizon rest (saturatingSub totalMs air)

def horizon (nowMs : UInt64) : UInt64 := saturatingSub nowMs dutyCycleWindowMs

def evict (b : AirtimeBudget) (nowMs : UInt64) : AirtimeBudget :=
  evictBefore (horizon nowMs) b.sent b.totalMs

/-- Charge for a transmission if it is allowed, and say whether it was. -/
def transmit (b : AirtimeBudget) (nowMs airMs : UInt64) : Bool × AirtimeBudget :=
  let evicted := b.evict nowMs
  if dutyCycleOk evicted.totalMs airMs = true then (true, evicted.charge nowMs airMs)
  else (false, evicted)

end AirtimeBudget

/-- The sum of what is charged. -/
def charged (l : List (UInt64 × UInt64)) : Nat := (l.map fun p => p.2.toNat).sum

/-- A meter reads exactly what it holds, in order of time. -/
structure Exact (b : AirtimeBudget) (last : UInt64) : Prop where
  ordered : b.sent.Pairwise fun p q => p.1 ≤ q.1
  past : ∀ p ∈ b.sent, p.1 ≤ last
  total : b.totalMs.toNat = charged b.sent

theorem evictBefore_spec (horizon : UInt64) : ∀ (l : List (UInt64 × UInt64)) (total : UInt64),
    l.Pairwise (fun p q => p.1 ≤ q.1) → total.toNat = charged l →
      (AirtimeBudget.evictBefore horizon l total).sent =
          l.filter (fun p => decide (horizon ≤ p.1)) ∧
        (AirtimeBudget.evictBefore horizon l total).totalMs.toNat =
          charged (AirtimeBudget.evictBefore horizon l total).sent
  | [], total, _, precise => ⟨rfl, precise⟩
  | (sentAt, air) :: rest, total, ordered, precise => by
    rw [List.pairwise_cons] at ordered
    rw [AirtimeBudget.evictBefore]
    split
    · rename_i inside
      refine ⟨?_, precise⟩
      rw [List.filter_eq_self.mpr]
      rintro p mem
      rw [decide_eq_true_eq]
      obtain rfl | later := List.mem_cons.mp mem
      · exact inside
      · exact UInt64.le_trans inside (ordered.1 p later)
    · rename_i outside
      have less : (saturatingSub total air).toNat = charged rest := by
        rw [saturatingSub_toNat, precise]
        simp [charged]
      obtain ⟨kept, sum⟩ := evictBefore_spec horizon rest _ ordered.2 less
      refine ⟨?_, sum⟩
      rw [kept, List.filter_cons_of_neg (by simpa using outside)]

theorem Exact.evict {b : AirtimeBudget} {last : UInt64} (precise : Exact b last) (now : UInt64) :
    (b.evict now).sent =
        b.sent.filter (fun p => decide (AirtimeBudget.horizon now ≤ p.1)) ∧
      Exact (b.evict now) last := by
  obtain ⟨kept, total⟩ := evictBefore_spec (AirtimeBudget.horizon now) b.sent b.totalMs
    precise.ordered precise.total
  refine ⟨kept, ?_, ?_, total⟩
  · rw [AirtimeBudget.evict, kept]
    exact precise.ordered.filter _
  · rw [AirtimeBudget.evict, kept]
    exact fun p mem => precise.past p (List.mem_filter.mp mem).1

theorem Exact.charge {b : AirtimeBudget} {last now air : UInt64} (precise : Exact b last)
    (onward : last ≤ now) (room : b.totalMs.toNat + air.toNat < 2 ^ 64) :
    Exact (b.charge now air) now := by
  constructor
  · rw [AirtimeBudget.charge, List.pairwise_append]
    refine ⟨precise.ordered, List.pairwise_singleton _ _, ?_⟩
    rintro p mem q newest
    rw [List.mem_singleton.mp newest]
    exact UInt64.le_trans (precise.past p mem) onward
  · rintro p mem
    obtain old | new := List.mem_append.mp mem
    · exact UInt64.le_trans (precise.past p old) onward
    · rw [List.mem_singleton.mp new]
      exact UInt64.le_refl _
  · have total := precise.total
    simp only [charged] at total
    simp only [AirtimeBudget.charge, saturatingAdd_toNat, charged, List.map_append, List.sum_append,
      List.map_cons, List.map_nil, List.sum_cons, List.sum_nil, ← total]
    omega

theorem dutyCycleOk_iff (used next : UInt64) :
    dutyCycleOk used next = true ↔ used.toNat + next.toNat ≤ 36000 := by
  rw [dutyCycleOk, decide_eq_true_eq, UInt64.le_iff_toNat_le, saturatingAdd_toNat]
  have bound : dutyCycleBudgetMs.toNat = 36000 := by decide
  rw [bound]
  omega

/-- What a meter knows of the transmissions it has let through: those that matter from its
last reading on. -/
structure Keeps (b : AirtimeBudget) (own : List (UInt64 × UInt64)) (last : UInt64) : Prop where
  precise : Exact b last
  keeps : ∀ since, AirtimeBudget.horizon last ≤ since →
    (own.filter fun p => decide (since ≤ p.1)).Sublist b.sent

theorem horizon_mono {last now : UInt64} (onward : last ≤ now) :
    AirtimeBudget.horizon last ≤ AirtimeBudget.horizon now := by
  rw [UInt64.le_iff_toNat_le] at onward ⊢
  simp only [AirtimeBudget.horizon, saturatingSub_toNat]
  omega

theorem keeps_withPrior (prior : UInt64) : Keeps (.withPrior prior) [] 0 := by
  refine ⟨?_, fun _ _ => List.nil_sublist _⟩
  unfold AirtimeBudget.withPrior
  have nothing : Exact .new 0 := ⟨List.Pairwise.nil, nofun, rfl⟩
  split
  · refine nothing.charge (UInt64.le_refl _) ?_
    have := prior.toNat_lt
    simpa [AirtimeBudget.new] using this
  · exact nothing

theorem Keeps.evict {b : AirtimeBudget} {own : List (UInt64 × UInt64)} {last now : UInt64}
    (held : Keeps b own last) (onward : last ≤ now) :
    ∀ since, AirtimeBudget.horizon now ≤ since →
      (own.filter fun p => decide (since ≤ p.1)).Sublist (b.evict now).sent := by
  intro since behind
  rw [(held.precise.evict now).1]
  have kept := (held.keeps since (UInt64.le_trans (horizon_mono onward) behind)).filter
    fun p => decide (AirtimeBudget.horizon now ≤ p.1)
  rwa [List.filter_filter, List.filter_congr] at kept
  intro p _
  rw [Bool.and_eq_right_iff_imp, decide_eq_true_eq, decide_eq_true_eq]
  exact UInt64.le_trans behind

/-- A transmission let through fits what was let through in its window before it. -/
theorem Keeps.transmit {b after : AirtimeBudget} {own : List (UInt64 × UInt64)}
    {last now air : UInt64} (held : Keeps b own last) (onward : last ≤ now)
    (through : b.transmit now air = (true, after)) :
    Keeps after (own ++ [(now, air)]) now ∧
      charged (own.filter fun p => decide (AirtimeBudget.horizon now ≤ p.1)) + air.toNat ≤
        36000 := by
  have kept := held.evict onward
  obtain ⟨-, precise⟩ := held.precise.evict now
  rw [AirtimeBudget.transmit] at through
  split at through
  · rename_i allowed
    cases through
    rw [dutyCycleOk_iff] at allowed
    refine ⟨⟨precise.charge onward (by omega), ?_⟩, ?_⟩
    · intro since behind
      rw [List.filter_append]
      exact (kept since behind).append (List.filter_sublist)
    · have known : charged (own.filter fun p => decide (AirtimeBudget.horizon now ≤ p.1)) ≤
          charged (b.evict now).sent :=
        ((kept _ (UInt64.le_refl _)).map _).sum_le_sum fun _ _ => Nat.zero_le _
      rw [← precise.total] at known
      omega
  · cases through

theorem Keeps.refused {b after : AirtimeBudget} {own : List (UInt64 × UInt64)}
    {last now air : UInt64} (held : Keeps b own last) (onward : last ≤ now)
    (through : b.transmit now air = (false, after)) : Keeps after own now := by
  rw [AirtimeBudget.transmit] at through
  split at through
  · cases through
  · cases through
    obtain ⟨-, precise⟩ := held.precise.evict now
    exact ⟨⟨precise.ordered, fun p mem => UInt64.le_trans (precise.past p mem) onward,
      precise.total⟩, held.evict onward⟩

/-! ## Lives on one transmitter -/

/-- A frame its life's meter let out: which life, when that began, when the frame's sending
began, and its airtime in milliseconds. -/
structure Sent where
  life : Nat
  born : Nat
  start : Nat
  air : UInt64

/-- A member and its transmitter: the meter of the life it is in, and what all lives have put
on the air. -/
structure Transmitter where
  lives : Lives
  life : Nat
  born : Nat
  budget : AirtimeBudget
  sent : List Sent

section transmitter

variable (P : Postcard) {C : Primitives} (station : Station C) (path : Path) (priorMs : UInt64)

/-- A frame goes past the meter to the radio. -/
def Transmitter.handing (tx : Transmitter) (h : Handed) : Transmitter :=
  let air := airtimeMs h.frame.length
  match tx.budget.transmit (protocolMs station.options.scale tx.born h.start) air with
  | (true, budget) => { tx with budget, sent := tx.sent ++ [⟨tx.life, tx.born, h.start, air⟩] }
  | (false, budget) => { tx with budget }

/-- What is handed over by what happens next. -/
def newlyHanded (lives : Lives) (happening : Happening) : List Handed :=
  (handedOver (lives.next P station path happening)).drop (handedOver lives).length

/-- A life begins with a meter of its own. -/
def Transmitter.next (tx : Transmitter) (event : Nat × Happening) : Transmitter :=
  let lives := tx.lives.next P station path event.2
  match tx.lives, event.2 with
  | .dead .., .boot .. => ⟨lives, tx.life + 1, event.1, .withPrior priorMs, tx.sent⟩
  | .dead .., _ => { tx with lives }
  | .alive _, _ =>
    { (newlyHanded P station path tx.lives event.2).foldl (handing station) tx with lives }

def Transmitter.after (tx : Transmitter) (events : List (Nat × Happening)) : Transmitter :=
  events.foldl (next P station path priorMs) tx

/-- The readings of the transmitter's clock at what happens next: at the beginning of a life
and wherever a frame is handed over. -/
def readNext (lives : Lives) (event : Nat × Happening) : List Nat :=
  match lives, event.2 with
  | .dead .., .boot .. => [event.1]
  | .dead .., _ => []
  | .alive _, _ => (newlyHanded P station path lives event.2).map Handed.start

def readings : Lives → List (Nat × Happening) → List Nat
  | _, [] => []
  | lives, event :: rest =>
    readNext P station path lives event ++ readings (lives.next P station path event.2) rest

end transmitter

/-! ## What the meter knows -/

/-- In protocol nanoseconds. -/
def startedAt (scale : UInt32) (x : Sent) : Nat := scale.toNat * x.start

def onAirMs (x : Sent) : Nat := x.air.toNat

def windowWidth : Nat := 1000000 * dutyCycleWindowMs.toNat

def charge (scale : UInt32) (x : Sent) : UInt64 × UInt64 := (protocolMs scale x.born x.start, x.air)

/-- When the later one is about to be sent, the meter it goes past holds the earlier one. -/
def known (scale : UInt32) (later earlier : Sent) : Bool :=
  decide (earlier.life = later.life) &&
    decide (AirtimeBudget.horizon (charge scale later).1 ≤ (charge scale earlier).1)

section room

variable (scale : UInt32) (before : List Sent) (x : Sent)

/-- What started in the window that ends with a frame and its meter holds. -/
def held : Nat :=
  spent onAirMs (fun a => trailing (startedAt scale) windowWidth x a && known scale x a) before

/-- What started in that window and the meter does not hold. -/
def missed : Nat :=
  spent onAirMs (fun a => trailing (startedAt scale) windowWidth x a && !known scale x a) before

/-- If the meter misses anything, there is room for the frame all the same. -/
def Roomy : Prop :=
  missed scale before x ≠ 0 →
    missed scale before x + held scale before x + onAirMs x ≤ dutyCycleBudgetMs.toNat

end room

/-- No window of an hour has more on the air than is legal. -/
def Legal (scale : UInt32) (sent : List Sent) : Prop :=
  Bounded (startedAt scale) onAirMs windowWidth dutyCycleBudgetMs.toNat sent

/-- Where the scale divides the hour, a meter misses nothing of its own life's. -/
theorem known_own {scale : UInt32} {x a : Sent} (divides : scale.toNat ∣ dutyCycleWindowMs.toNat)
    (life : a.life = x.life) (born : a.born = x.born)
    (recent : trailing (startedAt scale) windowWidth x a = true) : known scale x a = true := by
  obtain ⟨k, hour⟩ := divides
  simp only [trailing, startedAt, windowWidth, hour, decide_eq_true_eq] at recent
  rw [known, Bool.and_eq_true, decide_eq_true_eq, decide_eq_true_eq]
  refine ⟨life, ?_⟩
  rw [UInt64.le_iff_toNat_le, AirtimeBudget.horizon, saturatingSub_toNat, charge, charge,
    protocolMs_toNat, protocolMs_toNat, born, hour]
  by_cases still : scale.toNat = 0
  · simp [still]
  have wall : x.start ≤ a.start + 1000000 * k := by
    refine Nat.le_of_mul_le_mul_left (c := scale.toNat) ?_ (Nat.pos_of_ne_zero still)
    calc scale.toNat * x.start ≤ scale.toNat * a.start + 1000000 * (scale.toNat * k) := recent
      _ = scale.toNat * (a.start + 1000000 * k) := by ring
  have elapsed : (x.start - x.born) / 1000000 ≤ (a.start - x.born) / 1000000 + k := by omega
  have scaled : min ((x.start - x.born) / 1000000) (2 ^ 64 - 1) * scale.toNat ≤
      min ((a.start - x.born) / 1000000) (2 ^ 64 - 1) * scale.toNat + scale.toNat * k := by
    rw [Nat.mul_comm scale.toNat k, ← Nat.add_mul]
    refine Nat.mul_le_mul_right _ ?_
    omega
  omega

/-! ## Every life goes past its meter -/

/-- What a life's meter has let through, as it was charged. -/
def ownCharges (scale : UInt32) (tx : Transmitter) : List (UInt64 × UInt64) :=
  (tx.sent.filter fun a => decide (a.life = tx.life)).map (charge scale)

/-- Up to an instant all has gone past the meter of the life it was sent in. -/
structure Metered (scale : UInt32) (tx : Transmitter) (last : Nat) : Prop where
  ordered : tx.sent.Pairwise fun a b => a.start ≤ b.start
  past : ∀ a ∈ tx.sent, a.start ≤ last
  begun : ∀ a ∈ tx.sent, a.life ≤ tx.life ∧ (a.life = tx.life → a.born = tx.born)
  once : ∀ a ∈ tx.sent, ∀ b ∈ tx.sent, a.life = b.life → a.born = b.born
  keeps : Keeps tx.budget (ownCharges scale tx) (protocolMs scale tx.born last)
  fits : ∀ before x after, tx.sent = before ++ x :: after →
    spent onAirMs (known scale x) before + onAirMs x ≤ dutyCycleBudgetMs.toNat

/-- What its meter holds of what is known to be on the air before a frame. -/
theorem charged_known (scale : UInt32) (tx : Transmitter) (x : Sent) (life : x.life = tx.life) :
    charged ((ownCharges scale tx).filter fun p =>
      decide (AirtimeBudget.horizon (charge scale x).1 ≤ p.1)) =
        spent onAirMs (known scale x) tx.sent := by
  have same : known scale x = fun a =>
      ((fun p : UInt64 × UInt64 => decide (AirtimeBudget.horizon (charge scale x).1 ≤ p.1)) ∘
        charge scale) a && decide (a.life = tx.life) := by
    funext a
    rw [known, life, Bool.and_comm]
    rfl
  rw [charged, ownCharges, List.filter_map, List.filter_filter, List.map_map, spent, same]
  rfl

variable {P : Postcard} {C : Primitives} {station : Station C} {path : Path} {priorMs : UInt64}

theorem Metered.handing {tx : Transmitter} {last : Nat}
    (metered : Metered station.options.scale tx last) {h : Handed} (onward : last ≤ h.start) :
    Metered station.options.scale (tx.handing station h) h.start := by
  obtain ⟨ordered, past, begun, once, keeps, fits⟩ := metered
  have later : protocolMs station.options.scale tx.born last ≤
      protocolMs station.options.scale tx.born h.start := protocolMs_mono onward
  rw [Transmitter.handing]
  split
  · rename_i budget through
    let x : Sent := ⟨tx.life, tx.born, h.start, airtimeMs h.frame.length⟩
    obtain ⟨kept, room⟩ := keeps.transmit later through
    have own : ownCharges station.options.scale { tx with budget, sent := tx.sent ++ [x] } =
        ownCharges station.options.scale tx ++ [charge station.options.scale x] := by
      simp [ownCharges, x]
    refine ⟨?_, ?_, ?_, ?_, own ▸ kept, ?_⟩
    · rw [List.pairwise_append]
      refine ⟨ordered, List.pairwise_singleton _ _, fun a mem b newest => ?_⟩
      rw [List.mem_singleton.mp newest]
      exact (past a mem).trans onward
    · intro a mem
      obtain old | newest := List.mem_append.mp mem
      · exact (past a old).trans onward
      · rw [List.mem_singleton.mp newest]
    · intro a mem
      obtain old | newest := List.mem_append.mp mem
      · exact begun a old
      · rw [List.mem_singleton.mp newest]
        exact ⟨Nat.le_refl _, fun _ => rfl⟩
    · intro a memA b memB same
      obtain oldA | newA := List.mem_append.mp memA <;> obtain oldB | newB := List.mem_append.mp memB
      · exact once a oldA b oldB same
      · obtain rfl := List.mem_singleton.mp newB
        exact (begun a oldA).2 same
      · obtain rfl := List.mem_singleton.mp newA
        exact ((begun b oldB).2 same.symm).symm
      · rw [List.mem_singleton.mp newA, List.mem_singleton.mp newB]
    · intro before y after same
      rcases List.eq_nil_or_concat after with rfl | ⟨rest, z, rfl⟩
      · obtain ⟨rfl, newest⟩ := List.append_inj' same rfl
        rw [List.singleton_inj.mp newest.symm]
        exact charged_known station.options.scale tx x rfl ▸ room
      · rw [List.concat_eq_append, ← List.cons_append, ← List.append_assoc] at same
        exact fits before y rest (List.append_inj' same rfl).1
  · rename_i budget through
    exact ⟨ordered, fun a mem => (past a mem).trans onward, begun, once,
      keeps.refused later through, fits⟩

theorem Metered.handingAll {tx : Transmitter} {last : Nat}
    (metered : Metered station.options.scale tx last) (handed : List Handed)
    (onward : ∀ h ∈ handed, last ≤ h.start)
    (ordered : (handed.map Handed.start).Pairwise (· ≤ ·)) :
    ∃ now, (∀ later, last ≤ later → (∀ h ∈ handed, h.start ≤ later) → now ≤ later) ∧
      Metered station.options.scale (handed.foldl (Transmitter.handing station) tx) now := by
  induction handed generalizing tx last with
  | nil => exact ⟨last, fun later here _ => here, metered⟩
  | cons h handed ih =>
    rw [List.map_cons, List.pairwise_cons] at ordered
    obtain ⟨now, soon, done⟩ := ih (metered.handing (onward h List.mem_cons_self))
      (fun other mem => ordered.1 _ (List.mem_map_of_mem mem)) ordered.2
    refine ⟨now, fun later _ all => ?_, done⟩
    exact soon later (all h List.mem_cons_self) fun other mem => all other (List.mem_cons_of_mem _ mem)

/-- A new life's meter knows of no life before it. -/
theorem Metered.boot {scale : UInt32} {tx : Transmitter} {last now : Nat}
    (metered : Metered scale tx last) (onward : last ≤ now) (lives : Lives) :
    Metered scale ⟨lives, tx.life + 1, now, .withPrior priorMs, tx.sent⟩ now := by
  obtain ⟨ordered, past, begun, once, -, fits⟩ := metered
  refine ⟨ordered, fun a mem => (past a mem).trans onward, ?_, once, ?_, fits⟩
  · intro a mem
    have earlier : a.life ≤ tx.life := (begun a mem).1
    refine ⟨Nat.le_succ_of_le earlier, fun same => ?_⟩
    have same : a.life = tx.life + 1 := same
    omega
  · have nothing : tx.sent.filter (fun a => decide (a.life = tx.life + 1)) = [] := by
      rw [List.filter_eq_nil_iff]
      intro a mem same
      have earlier := (begun a mem).1
      have same : a.life = tx.life + 1 := of_decide_eq_true same
      omega
    have zero : protocolMs scale now now = 0 := by
      rw [← UInt64.toNat_inj, protocolMs_toNat]
      simp
    rw [ownCharges, zero]
    dsimp only
    rw [nothing]
    exact keeps_withPrior priorMs

theorem Metered.next {tx : Transmitter} {last : Nat}
    (metered : Metered station.options.scale tx last) (event : Nat × Happening)
    (onward : ∀ now ∈ readNext P station path tx.lives event, last ≤ now)
    (ordered : (readNext P station path tx.lives event).Pairwise (· ≤ ·)) :
    ∃ now, (∀ later, last ≤ later → (∀ r ∈ readNext P station path tx.lives event, r ≤ later) →
        now ≤ later) ∧
      Metered station.options.scale (tx.next P station path priorMs event) now := by
  obtain ⟨lives, life, born, budget, sent⟩ := tx
  obtain ⟨instant, happening⟩ := event
  have still (lives' : Lives) (metered : Metered station.options.scale
      ⟨lives, life, born, budget, sent⟩ last) :
      Metered station.options.scale ⟨lives', life, born, budget, sent⟩ last :=
    ⟨metered.ordered, metered.past, metered.begun, metered.once, metered.keeps, metered.fits⟩
  cases lives with
  | dead disk sealed past =>
    cases happening with
    | boot entropy opening entering =>
      have here : last ≤ instant := onward instant (List.mem_singleton_self _)
      refine ⟨instant, fun later _ all => all instant (List.mem_singleton_self _), ?_⟩
      exact metered.boot here _
    | turn t => exact ⟨last, fun later here _ => here, still _ metered⟩
    | crash => exact ⟨last, fun later here _ => here, still _ metered⟩
  | alive node =>
    obtain ⟨now, soon, done⟩ := metered.handingAll
      (newlyHanded P station path (.alive node) happening)
      (fun h mem => onward _ (List.mem_map_of_mem mem)) ordered
    refine ⟨now, fun later here all => soon later here fun h mem => ?_, ?_⟩
    · exact all _ (List.mem_map_of_mem mem)
    · exact ⟨done.ordered, done.past, done.begun, done.once, done.keeps, done.fits⟩

theorem next_lives (tx : Transmitter) (event : Nat × Happening) :
    (tx.next P station path priorMs event).lives = tx.lives.next P station path event.2 := by
  obtain ⟨lives, life, born, budget, sent⟩ := tx
  obtain ⟨instant, happening⟩ := event
  cases lives with
  | dead disk sealed past => cases happening <;> rfl
  | alive node => rfl

theorem metered_after {tx : Transmitter} {last : Nat} (events : List (Nat × Happening))
    (metered : Metered station.options.scale tx last)
    (onward : ∀ now ∈ readings P station path tx.lives events, last ≤ now)
    (steady : (readings P station path tx.lives events).Pairwise (· ≤ ·)) :
    ∃ now, Metered station.options.scale (tx.after P station path priorMs events) now := by
  induction events generalizing tx last with
  | nil => exact ⟨last, metered⟩
  | cons event rest ih =>
    rw [readings] at onward steady
    rw [List.pairwise_append] at steady
    obtain ⟨here, later, across⟩ := steady
    obtain ⟨now, soon, done⟩ := @Metered.next P C station path priorMs tx last metered event
      (fun r mem => onward r (List.mem_append_left _ mem)) here
    refine ih done ?_ ?_
    · intro r mem
      rw [next_lives] at mem
      exact soon r (onward r (List.mem_append_right _ mem)) fun earlier read => across _ read _ mem
    · rw [next_lives]
      exact later

/-- What goes on the air between windows is legal exactly if there is room for every frame. -/
theorem Metered.legal_iff {scale : UInt32} {tx : Transmitter} {last : Nat}
    (metered : Metered scale tx last) : Legal scale tx.sent ↔
      ∀ before x after, tx.sent = before ++ x :: after → Roomy scale before x := by
  have inOrder : tx.sent.Pairwise fun a b => startedAt scale a ≤ startedAt scale b :=
    metered.ordered.imp fun earlier => Nat.mul_le_mul_left _ earlier
  rw [Legal, bounded_iff inOrder]
  refine forall_congr' fun before => forall_congr' fun x => forall_congr' fun after =>
    forall_congr' fun same => ?_
  have window : spent onAirMs (trailing (startedAt scale) windowWidth x) before =
      held scale before x + missed scale before x := spent_split (known scale x) before
  have ofItsOwn : held scale before x ≤ spent onAirMs (known scale x) before :=
    spent_mono fun a _ both => ((Bool.and_eq_true _ _).mp both).2
  have fits := metered.fits before x after same
  rw [window, Roomy]
  omega

/-- Where the scale divides the hour a meter misses what other lives have sent and nothing
else. -/
theorem Metered.missed_others {scale : UInt32} {tx : Transmitter} {last : Nat}
    (metered : Metered scale tx last) (divides : scale.toNat ∣ dutyCycleWindowMs.toNat)
    {before after : List Sent} {x : Sent} (same : tx.sent = before ++ x :: after) :
    missed scale before x = spent onAirMs (fun a =>
      trailing (startedAt scale) windowWidth x a && !decide (a.life = x.life)) before := by
  refine spent_congr fun a mem => ?_
  rw [Bool.eq_iff_iff]
  simp only [Bool.and_eq_true, Bool.not_eq_true', decide_eq_false_iff_not]
  refine and_congr_right fun recent => ?_
  constructor
  · intro unknown own
    have born : a.born = x.born := metered.once a (by simp [same, mem]) x (by simp [same]) own
    exact absurd (known_own divides own born recent) (by simp [unknown])
  · intro other
    simp [known, other]

/-- A transmitter before the first of a member's lives in a run. -/
def Transmitter.silent (lives : Lives) : Transmitter := ⟨lives, 0, 0, .new, []⟩

/-- Over all lives of a member no window of an hour has more on the air than is legal, exactly
if there is room for every frame whose life's meter misses any of what started in the window
before it. Where the scale divides the hour, what is missed is what other lives have sent. -/
theorem legal_airtime (P : Postcard) {C : Primitives} (station : Station C) (path : Path)
    (priorMs : UInt64) (disk : Disk Path) (sealed : List Sealing) (past : Past)
    (events : List (Nat × Happening))
    (steady : (readings P station path (.dead disk sealed past) events).Pairwise (· ≤ ·)) :
    let scale := station.options.scale
    let sent := ((Transmitter.silent (.dead disk sealed past)).after P station path priorMs
      events).sent
    (Legal scale sent ↔ ∀ before x after, sent = before ++ x :: after → Roomy scale before x) ∧
      (scale.toNat ∣ dutyCycleWindowMs.toNat → ∀ before x after, sent = before ++ x :: after →
        missed scale before x = spent onAirMs (fun a =>
          trailing (startedAt scale) windowWidth x a && !decide (a.life = x.life)) before) := by
  intro scale sent
  have silent : Metered scale (.silent (.dead disk sealed past)) 0 := by
    refine ⟨List.Pairwise.nil, nofun, nofun, nofun, ⟨⟨List.Pairwise.nil, nofun, rfl⟩, ?_⟩, ?_⟩
    · exact fun _ _ => List.nil_sublist _
    · intro before x after same
      exact absurd same.symm (by simp [Transmitter.silent])
  obtain ⟨now, metered⟩ := @metered_after P C station path priorMs _ _ events silent
    (fun r _ => Nat.zero_le r) steady
  exact ⟨metered.legal_iff, fun divides before x after => metered.missed_others divides⟩

/-! ## Two lives in an hour -/

/-- A station that votes fifteen times. -/
def persistent : Station plain :=
  { stationed with
    options := { firstMember with attempts := 15 }
    seated := by decide
    named := by decide
    scheduled := by decide +kernel }

def pollingAt (opening : Bool) (now : Nat) : Nat × Happening :=
  (now, .turn { polledAt now opening with clock := fun _ _ => ⟨1400⟩ })

/-- A life that opens a round, and votes at as many of its slots. -/
def lifeAt (born votes : Nat) : List (Nat × Happening) :=
  [(born, .boot 0 (fun _ => .done) (fun _ => .done)), pollingAt true born]
    ++ (List.range votes).map (fun k => pollingAt false (born + 364190000000 + 7000000000 * k))
    ++ [(born, .crash)]

/-- Two lives with an opening each are within the law. -/
theorem legal_airtime_restarted :
    let sent := ((Transmitter.silent (.dead Disk.empty [] ⟨[], [], []⟩)).after postcard persistent
      ⟨"member", some "journal"⟩ 0 (lifeAt 0 0 ++ lifeAt 2000000000 0)).sent
    sent.map Sent.air = [1190, 1190] ∧
      (Legal 1 sent ↔ ∀ before x after, sent = before ++ x :: after → Roomy 1 before x) := by
  intro sent
  refine ⟨by decide +kernel, ?_⟩
  exact (legal_airtime postcard persistent ⟨"member", some "journal"⟩ 0 Disk.empty [] ⟨[], [], []⟩
    (lifeAt 0 0 ++ lifeAt 2000000000 0) (by decide +kernel)).1

/-- Two lives that open a round and vote fifteen times each put 38.08 s on the air within a
quarter of an hour. -/
theorem illegal_airtime :
    let events := lifeAt 0 15 ++ lifeAt 500000000000 15
    let start : Lives := .dead Disk.empty [] ⟨[], [], []⟩
    (readings postcard persistent ⟨"member", some "journal"⟩ start events).Pairwise (· ≤ ·) ∧
      ¬ Legal 1 ((Transmitter.silent start).after postcard persistent ⟨"member", some "journal"⟩ 0
        events).sent := by
  intro events start
  refine ⟨by decide +kernel, fun legal => ?_⟩
  have all : spent onAirMs (starting (startedAt 1) windowWidth 0)
      ((Transmitter.silent start).after postcard persistent ⟨"member", some "journal"⟩ 0
        events).sent = 38080 := by decide +kernel
  have most := legal 0
  rw [all] at most
  exact absurd most (by decide)

end LegalAirtime
