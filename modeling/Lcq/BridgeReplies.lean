import Lcq.BridgeLink

/-!
# Whose reply it is

A reply names its command and nothing else. It answers the request at hand
exactly when no earlier request of that command is still to be answered or its
answer to be read; and a device that restarted is told from the one the host
met only where a request went unanswered.
-/

namespace BridgeReplies

open ByteFormat KissFrames BridgeProtocol SpiBus BridgeLink

/-! ## What a wait takes from the inbox -/

/-- A frame that ends a wait for a command's reply. -/
def Ends (command : UInt8) (bytes : Bytes) : Prop :=
  bytes.head? = some (command ||| reply) ∨
    ∃ code more, bytes = eventError :: code :: command :: more

/-- What is left after a wait that ended or did not. -/
structure Sifted (command : UInt8) (l : Link) (inbox : List Inbound)
    (out : Option (Except BridgeError (Answer Bytes)) × Link) : Prop where
  session : out.2.session = l.session
  poisoned : out.2.poisoned = l.poisoned
  left : ∀ x ∈ out.2.inbox, x ∈ inbox
  replied : ∀ answer, out.1 = some (.ok answer) →
    ∃ f, .frame f ∈ inbox ∧ f.bytes = (command ||| reply) :: answer.value ∧
      f.origin = answer.origin
  silent : out.1 = none → out.2.inbox = [] ∧ ∀ f, .frame f ∈ inbox → ¬ Ends command f.bytes

/-- What is skipped changes nothing but the two flags. -/
theorem Sifted.skip {command : UInt8} {l m : Link} {x : Inbound} {rest : List Inbound}
    {out : Option (Except BridgeError (Answer Bytes)) × Link} (sifted : Sifted command m rest out)
    (session : m.session = l.session) (poisoned : m.poisoned = l.poisoned)
    (other : ∀ f, x = .frame f → ¬ Ends command f.bytes) : Sifted command l (x :: rest) out where
  session := sifted.session.trans session
  poisoned := sifted.poisoned.trans poisoned
  left y mem := List.mem_cons_of_mem _ (sifted.left y mem)
  replied answer ok := by
    obtain ⟨f, mem, bytes, origin⟩ := sifted.replied answer ok
    exact ⟨f, List.mem_cons_of_mem _ mem, bytes, origin⟩
  silent none := by
    obtain ⟨empty, quiet⟩ := sifted.silent none
    refine ⟨empty, fun f mem => ?_⟩
    rcases List.mem_cons.mp mem with here | later
    · exact other f here.symm
    · exact quiet f later

/-- What ends the wait with an error. -/
theorem Sifted.stop (command : UInt8) (l : Link) (x : Inbound) (rest : List Inbound)
    (e : BridgeError) :
    Sifted command l (x :: rest) (some (.error e), { l with inbox := rest }) where
  session := rfl
  poisoned := rfl
  left _ mem := List.mem_cons_of_mem _ mem
  replied _ ok := nomatch ok
  silent none := nomatch none

theorem sift_spec (command : UInt8) (l : Link) (inbox : List Inbound) :
    Sifted command l inbox (l.sift command inbox) := by
  induction inbox generalizing l with
  | nil => exact ⟨rfl, rfl, fun _ mem => mem, nofun, fun _ => ⟨rfl, nofun⟩⟩
  | cons x rest ih =>
    cases x with
    | wake => exact (ih _).skip rfl rfl nofun
    | gone => exact .stop command l .gone rest .gone
    | frame f =>
      obtain ⟨bytes, origin⟩ := f
      cases bytes with
      | nil =>
        refine (ih l).skip rfl rfl fun f same => ?_
        cases same
        rintro (head | ⟨_, _, bytes⟩)
        · cases head
        · cases bytes
      | cons head body =>
        have quiet (apart : head ≠ command ||| reply)
            (stale : head = eventError → body[1]?.getD command ≠ command) :
            ∀ f, Inbound.frame ⟨head :: body, origin⟩ = .frame f → ¬ Ends command f.bytes := by
          intro f same
          cases same
          rintro (here | ⟨code, more, bytes⟩)
          · exact apart (Option.some.inj here)
          · obtain ⟨rfl, rfl⟩ := List.cons.inj bytes
            exact stale rfl rfl
        simp only [Link.sift]
        split
        · next same =>
          refine ⟨rfl, rfl, fun _ mem => List.mem_cons_of_mem _ mem, ?_, nofun⟩
          rintro answer ⟨⟩
          exact ⟨_, List.mem_cons_self, by rw [same], rfl⟩
        · next apart =>
          split
          · next notice =>
            refine (ih _).skip rfl rfl (quiet apart fun error => ?_)
            exact absurd (notice.symm.trans error) (by decide)
          · split
            · next error =>
              split
              · exact .stop command l _ rest _
              · next other => exact (ih l).skip rfl rfl (quiet apart fun _ => other)
            · next other =>
              exact (ih l).skip rfl rfl (quiet apart fun error => absurd error other)

theorem heed_left (l : Link) (inbox : List Inbound) :
    ∀ x ∈ (l.heed inbox).2.inbox, x ∈ inbox := by
  induction inbox with
  | nil => exact fun _ mem => mem
  | cons x rest ih =>
    cases x with
    | wake => exact fun _ mem => List.mem_cons_of_mem _ mem
    | gone => exact fun _ mem => List.mem_cons_of_mem _ mem
    | frame f =>
      rw [Link.heed]
      split
      · exact fun _ mem => List.mem_cons_of_mem _ mem
      · exact fun y mem => List.mem_cons_of_mem _ (ih y mem)

/-! ## What holds throughout a conversation -/

/-- What lost messages, written requests and the other end's moves all keep. -/
structure Throughout (I : Talk → Prop) : Prop where
  link : ∀ t link, I t → (∀ x ∈ link.inbox, x ∈ t.link.inbox) → I { t with link }
  met : ∀ t met, I t → I { t with met }
  ask : ∀ t command payload, I t → I (t.ask command payload)
  move : ∀ t m, I t → I (t.move m)

namespace Throughout

variable {I : Talk → Prop} (kept : Throughout I) {t : Talk}
include kept

theorem sifted (command : UInt8) (here : I t) : I (t.sifted command).2 :=
  kept.link t _ here (sift_spec command t.link t.link.inbox).left

theorem await (command : UInt8) (moves : List Move) (here : I t) :
    I (Talk.await command moves t).2 := by
  induction moves generalizing t with
  | nil => exact kept.sifted command here
  | cons m moves ih =>
    rw [Talk.await]
    split
    · exact kept.sifted command here
    · exact ih (kept.move _ m (kept.sifted command here))

theorem call (command : UInt8) (payload : Bytes) (script : Talk.Script) (here : I t) :
    I (t.call command payload script).2 := by
  rw [Talk.call]
  split
  · exact here
  · split
    · exact here
    · exact kept.await command script.moves (kept.ask t command payload here)

theorem verifySession (script : Talk.Script) (here : I t) : I (t.verifySession script).2 := by
  have called := kept.call Command.hello [] script here
  rw [Talk.verifySession]
  split
  · exact here
  · simp only []
    split
    · next same => rwa [same] at called
    · next same =>
      rw [same] at called
      split
      · exact called
      · split
        · exact called
        · exact kept.link _ _ called fun _ mem => mem

theorem callChecked (command : UInt8) (payload : Bytes) (script asking : Talk.Script)
    (here : I t) : I (t.callChecked command payload script asking).2 := by
  have called := kept.call command payload script here
  rw [Talk.callChecked]
  split
  · next same =>
    rw [same] at called
    have verified := kept.verifySession asking called
    simp only [] at verified
    split
    · next result => rwa [result] at verified
    · next result => rwa [result] at verified
  · exact called

theorem meets (answer : Answer Bytes) (here : I t) : I (t.meets answer).2 := by
  rw [Talk.meets]
  split
  · exact here
  · split
    · exact here
    · split
      · exact here
      · next hello _ =>
        exact kept.met _ answer.origin (kept.link t
          { t.link with session := hello.session, irq := t.link.irq || hello.dio1 } here
          fun _ mem => mem)

theorem greet (more : List Talk.Script) (script : Talk.Script) (here : I t) :
    I (Talk.greet more script t).2 := by
  induction more generalizing t script with
  | nil =>
    have called := kept.call Command.hello [] script here
    rw [Talk.greet]
    split
    · next same => rwa [same] at called
    · next same =>
      rw [same] at called
      exact kept.meets _ called
  | cons next more ih =>
    have called := kept.call Command.hello [] script here
    rw [Talk.greet]
    split
    · next same =>
      rw [same] at called
      exact ih next called
    · next same => rwa [same] at called
    · next same =>
      rw [same] at called
      exact kept.meets _ called

theorem drain (here : I t) : I t.drain := kept.link t _ here nofun

theorem listen (moves : List Move) (here : I t) : I (Talk.listen moves t).2 := by
  have heeded {t : Talk} (here : I t) : I t.heeded.2 :=
    kept.link t _ here (heed_left t.link t.link.inbox)
  induction moves generalizing t with
  | nil => exact heeded here
  | cons m moves ih =>
    rw [Talk.listen]
    split
    · exact heeded here
    · exact ih (kept.move _ m (heeded here))

theorem wait (moves : List Move) (here : I t) : I (t.wait moves).2 := by
  have cleared := kept.link t { t.link with irq := false, woken := false } here fun _ mem => mem
  rw [Talk.wait]
  simp only []
  split
  · exact cleared
  · exact kept.listen moves cleared

theorem irqFlags (script : Talk.Script) (here : I t) : I (t.irqFlags script).2 := by
  have called := kept.call Command.spi
    (encodeOperations [.write [Talk.opGetIrqStatus], .read [0, 0, 0]]) script here
  rw [Talk.irqFlags]
  split
  · next same => rwa [same] at called
  · next same =>
    rw [same] at called
    split
    · split <;> exact called
    · exact called

theorem transaction (operations : List Operation) (script asking : Talk.Script) (here : I t) :
    I (t.transaction operations script asking).2 := by
  have called := kept.callChecked Command.spi (encodeOperations operations) script asking here
  rw [Talk.transaction]
  split
  · next same => rwa [same] at called
  · next same =>
    rw [same] at called
    split
    · exact called
    · exact called

theorem step (s : Step) (here : I t) : I (t.step s) := by
  cases s with
  | moved m => exact kept.move t m here
  | called command payload script => exact kept.call command payload script here
  | checked command payload script asking =>
    exact kept.callChecked command payload script asking here
  | verified script => exact kept.verifySession script here
  | greeted script more => exact kept.greet more script (kept.drain here)
  | flagged script => exact kept.irqFlags script here
  | transacted operations script asking => exact kept.transaction operations script asking here
  | waited moves => exact kept.wait moves here
  | drained => exact kept.drain here

theorem after (steps : List Step) (here : I t) : I (t.after steps) := by
  induction steps generalizing t with
  | nil => exact here
  | cons s steps ih => exact ih (kept.step s here)

end Throughout

/-! ## Every answer answers an earlier request -/

/-- Nothing is owed or has come to a request that was not made. -/
structure Orderly (t : Talk) : Prop where
  pending : ∀ r ∈ t.pending, r.number < t.asked
  inbox : ∀ f o, .frame f ∈ t.link.inbox → f.origin = some o → o.request < t.asked

/-- The oldest request is answered. -/
theorem Orderly.answered {t : Talk} (orderly : Orderly t) {r : Asked} {rest : List Asked}
    (owed : t.pending = r :: rest) (bytes : Bytes) : Orderly (t.answered r rest bytes) where
  pending q mem := orderly.pending q (by rw [owed]; exact List.mem_cons_of_mem _ mem)
  inbox f o mem origin := by
    rcases List.mem_append.mp mem with before | now
    · exact orderly.inbox f o before origin
    · cases List.mem_singleton.mp now
      cases origin
      exact orderly.pending r (by rw [owed]; exact List.mem_cons_self)

/-- Something comes that answers nothing. -/
theorem Orderly.arrives {t : Talk} (orderly : Orderly t) {x : Inbound}
    (unasked : ∀ f, x = .frame f → f.origin = none) :
    Orderly { t with link := t.link.arrives x } where
  pending := orderly.pending
  inbox f o mem origin := by
    rcases List.mem_append.mp mem with before | now
    · exact orderly.inbox f o before origin
    · cases (unasked f (List.mem_singleton.mp now).symm).symm.trans origin

theorem orderly_throughout : Throughout Orderly where
  link _ _ orderly left :=
    ⟨orderly.pending, fun f o mem => orderly.inbox f o (left _ mem)⟩
  met _ _ orderly := ⟨orderly.pending, orderly.inbox⟩
  ask t command payload orderly := by
    refine ⟨fun r mem => ?_, fun f o mem origin => ?_⟩
    · rcases List.mem_append.mp mem with before | now
      · exact Nat.lt_succ_of_lt (orderly.pending r before)
      · cases List.mem_singleton.mp now
        exact Nat.lt_succ_self t.asked
    · exact Nat.lt_succ_of_lt (orderly.inbox f o mem origin)
  move t m orderly := by
    cases m with
    | answers body greeting =>
      rw [Talk.move]
      split
      · exact orderly
      · next owed => exact orderly.answered owed _
    | refuses code =>
      rw [Talk.move]
      split
      · exact orderly
      · next owed => exact orderly.answered owed _
    | dio1 level => exact orderly.arrives (by rintro f ⟨⟩; rfl)
    | wakes => exact orderly.arrives nofun
    | goes => exact orderly.arrives nofun
    | restarts session lost =>
      exact ⟨fun r mem => orderly.pending r (List.mem_of_mem_drop mem), orderly.inbox⟩

theorem orderly_start (session : UInt32) (owed : List (UInt8 × Bytes)) :
    Orderly (.start session owed) where
  pending r mem := by
    obtain ⟨⟨_, number⟩, place, rfl⟩ := List.mem_map.mp mem
    exact (List.mem_zipIdx' place).1
  inbox _ _ mem := absurd mem List.not_mem_nil

/-! ## Whose answer ends a wait -/

/-- A wait that succeeds takes a frame of the inbox, in a state that every move without an
answer leads to. -/
theorem await_ok {I : Talk → Prop} {command : UInt8} {moves : List Move}
    (moved : ∀ t, ∀ m ∈ moves, I t → (t.sifted command).1 = none →
      I ((t.sifted command).2.move m))
    {t : Talk} (here : I t) {answer : Answer Bytes}
    (ok : (Talk.await command moves t).1 = .ok answer) :
    ∃ u f, I u ∧ .frame f ∈ u.link.inbox ∧ f.bytes = (command ||| reply) :: answer.value ∧
      f.origin = answer.origin := by
  have taken {t : Talk} (here : I t) (ok : (t.sifted command).1 = some (.ok answer)) :
      ∃ u f, I u ∧ .frame f ∈ u.link.inbox ∧ f.bytes = (command ||| reply) :: answer.value ∧
        f.origin = answer.origin := by
    obtain ⟨f, mem, bytes, origin⟩ :=
      (sift_spec command t.link t.link.inbox).replied answer ok
    exact ⟨t, f, here, mem, bytes, origin⟩
  induction moves generalizing t with
  | nil =>
    rw [Talk.await] at ok
    cases outcome : (t.sifted command).1 with
    | none => rw [outcome] at ok; cases ok
    | some result =>
      rw [outcome] at ok
      cases show result = .ok answer from ok
      exact taken here outcome
  | cons m moves ih =>
    rw [Talk.await] at ok
    cases outcome : (t.sifted command).1 with
    | none =>
      rw [outcome] at ok
      exact ih (fun u m mem => moved u m (List.mem_cons_of_mem _ mem))
        (moved t m List.mem_cons_self here outcome) ok
    | some result =>
      rw [outcome] at ok
      cases show result = .ok answer from ok
      exact taken here outcome

/-- Commands are told apart by their replies, and replies from events. -/
theorem reply_injective : ∀ a ∈ commands, ∀ b ∈ commands, a ||| reply = b ||| reply → a = b := by
  have all : (commands.all fun a => commands.all fun b =>
      decide (a ||| reply = b ||| reply → a = b)) = true := by decide
  simpa only [List.all_eq_true, decide_eq_true_eq] using all

theorem reply_event : ∀ a ∈ commands, a ||| reply ≠ eventError ∧ a ||| reply ≠ eventDio1 := by
  have all : (commands.all fun a =>
      decide (a ||| reply ≠ eventError ∧ a ||| reply ≠ eventDio1)) = true := by decide
  simpa only [List.all_eq_true, decide_eq_true_eq] using all

/-- What begins with a command's reply byte was said to a request of that command. -/
theorem said_head {t : Talk} {r : Asked} {body : Bytes} {greeting : Hello} {command : UInt8}
    (known : command ∈ commands)
    (head : (t.said r body greeting).head? = some (command ||| reply)) : r.command = command := by
  rw [Talk.said] at head
  split at head
  · next heard => exact reply_injective _ heard _ known (Option.some.inj head)
  · exact absurd (Option.some.inj head).symm (reply_event command known).1

/-- Whatever is owed to a command, or has come for it, is one request's. -/
structure Mine (command : UInt8) (number : Nat) (t : Talk) : Prop where
  pending : ∀ r ∈ t.pending, r.command = command → r.number = number
  inbox : ∀ f, .frame f ∈ t.link.inbox → f.bytes.head? = some (command ||| reply) →
    f.origin.map Origin.request = some number

/-- A frame comes: if it begins with the command's reply byte, it is the request's. -/
theorem Mine.arrives {command : UInt8} {number : Nat} {t : Talk} (mine : Mine command number t)
    {x : Inbound} {rest : List Asked} (owed : ∀ r ∈ rest, r ∈ t.pending)
    (own : ∀ f, x = .frame f → f.bytes.head? = some (command ||| reply) →
      f.origin.map Origin.request = some number) :
    Mine command number { t with pending := rest, link := t.link.arrives x } where
  pending r mem := mine.pending r (owed r mem)
  inbox f mem head := by
    rcases List.mem_append.mp mem with before | now
    · exact mine.inbox f before head
    · exact own f (List.mem_singleton.mp now).symm head

theorem mine_move {command : UInt8} (known : command ∈ commands) {number : Nat} {t : Talk}
    (mine : Mine command number t) (m : Move) : Mine command number (t.move m) := by
  have unanswered {r : Asked} {rest : List Asked} (owed : t.pending = r :: rest) :
      ∀ q ∈ rest, q ∈ t.pending := by
    intro q mem
    rw [owed]
    exact List.mem_cons_of_mem _ mem
  cases m with
  | answers body greeting =>
    rw [Talk.move]
    split
    · exact mine
    · next r rest owed =>
      refine mine.arrives (unanswered owed) ?_
      rintro f ⟨⟩ head
      have same := mine.pending r (by rw [owed]; exact List.mem_cons_self) (said_head known head)
      exact congrArg some same
  | refuses code =>
    rw [Talk.move]
    split
    · exact mine
    · next r rest owed =>
      refine mine.arrives (unanswered owed) ?_
      rintro f ⟨⟩ head
      exact absurd (Option.some.inj head).symm (reply_event command known).1
  | dio1 level =>
    refine mine.arrives (fun _ mem => mem) ?_
    rintro f ⟨⟩ head
    exact absurd (Option.some.inj head).symm (reply_event command known).2
  | wakes => exact mine.arrives (fun _ mem => mem) nofun
  | goes => exact mine.arrives (fun _ mem => mem) nofun
  | restarts session lost =>
    exact ⟨fun r mem => mine.pending r (List.mem_of_mem_drop mem), mine.inbox⟩

theorem mine_sifted {command : UInt8} {number : Nat} {t : Talk} (mine : Mine command number t) :
    Mine command number (t.sifted command).2 :=
  ⟨mine.pending, fun f mem =>
    mine.inbox f ((sift_spec command t.link t.link.inbox).left _ mem)⟩

/-- An earlier request of the command is owed an answer, or what came of it ends the wait; no
frame that has come is the later request's. -/
structure Anothers (command : UInt8) (number : Nat) (t : Talk) : Prop where
  first : (∃ early r late, t.pending = early ++ r :: late ∧ r.command = command ∧
      r.number ≠ number ∧ ∀ e ∈ early, e.number ≠ number) ∨
    ∃ f, .frame f ∈ t.link.inbox ∧ Ends command f.bytes
  inbox : ∀ f o, .frame f ∈ t.link.inbox → f.origin = some o → o.request ≠ number

/-- With the inbox searched in vain, the answer is still owed. -/
theorem Anothers.owed {command : UInt8} {number : Nat} {t : Talk}
    (another : Anothers command number t) (searched : (t.sifted command).1 = none) :
    (t.sifted command).2.link.inbox = [] ∧
      ∃ early r late, (t.sifted command).2.pending = early ++ r :: late ∧ r.command = command ∧
        r.number ≠ number ∧ ∀ e ∈ early, e.number ≠ number := by
  obtain ⟨empty, quiet⟩ := (sift_spec command t.link t.link.inbox).silent searched
  rcases another.first with owed | ⟨f, mem, ends⟩
  · exact ⟨empty, owed⟩
  · exact absurd ends (quiet f mem)

/-- The oldest request is answered: the one waited behind, or one before it. -/
theorem anothers_answered {command : UInt8} {number : Nat} {u : Talk} (empty : u.link.inbox = [])
    {early late : List Asked} {r : Asked} (pending : u.pending = early ++ r :: late)
    (same : r.command = command) (apart : r.number ≠ number)
    (before : ∀ e ∈ early, e.number ≠ number) {q : Asked} {rest : List Asked}
    (owed : u.pending = q :: rest) {bytes : Bytes} (ends : q.command = command → Ends command bytes) :
    Anothers command number (u.answered q rest bytes) := by
  rw [pending] at owed
  cases early with
  | nil =>
    obtain ⟨rfl, rfl⟩ := List.cons.inj owed
    refine ⟨Or.inr ⟨_, List.mem_append_right _ List.mem_cons_self, ends same⟩, ?_⟩
    intro f o mem origin
    rw [Talk.answered, Link.arrives, empty] at mem
    cases List.mem_singleton.mp mem
    cases origin
    exact apart
  | cons e early =>
    obtain ⟨rfl, rfl⟩ := List.cons.inj owed
    refine ⟨Or.inl ⟨early, r, late, rfl, same, apart,
      fun e mem => before e (List.mem_cons_of_mem _ mem)⟩, ?_⟩
    intro f o mem origin
    rw [Talk.answered, Link.arrives, empty] at mem
    cases List.mem_singleton.mp mem
    cases origin
    exact before e List.mem_cons_self

theorem anothers_move {command : UInt8} (known : command ∈ commands) {number : Nat} {t : Talk}
    (another : Anothers command number t) (searched : (t.sifted command).1 = none) {m : Move}
    (steady : m.steady = true) : Anothers command number ((t.sifted command).2.move m) := by
  obtain ⟨empty, early, r, late, pending, same, apart, before⟩ := another.owed searched
  generalize (t.sifted command).2 = u at empty pending
  have arrives (x : Inbound) (unasked : ∀ f, x = .frame f → f.origin = none) :
      Anothers command number { u with link := u.link.arrives x } := by
    refine ⟨Or.inl ⟨early, r, late, pending, same, apart, before⟩, fun f o mem origin => ?_⟩
    rw [Link.arrives, empty] at mem
    cases (unasked f (List.mem_singleton.mp mem).symm).symm.trans origin
  cases m with
  | answers body greeting =>
    rw [Talk.move]
    split
    · next none => rw [pending] at none; cases early <;> cases none
    · next q rest owed =>
      refine anothers_answered empty pending same apart before owed fun named => Or.inl ?_
      rw [Talk.said, if_pos (named ▸ known), named]
      rfl
  | refuses code =>
    rw [Talk.move]
    split
    · next none => rw [pending] at none; cases early <;> cases none
    · next q rest owed =>
      exact anothers_answered empty pending same apart before owed fun named =>
        Or.inr ⟨code, [], by rw [named]⟩
  | dio1 level => exact arrives _ (by rintro f ⟨⟩; rfl)
  | wakes => exact arrives _ nofun
  | goes => exact arrives _ nofun
  | restarts session lost => cases steady

/-- An earlier request of the command is still to be answered, or its answer to be read. -/
def Outstanding (t : Talk) (command : UInt8) : Prop :=
  (∃ r ∈ t.pending, r.command = command) ∨
    ∃ f, .frame f ∈ t.link.inbox ∧ f.bytes.head? = some (command ||| reply)

/-- The reply to the request that would be written next. -/
def Own {α : Type} (t : Talk) (answer : Answer α) : Prop :=
  answer.origin.map Origin.request = some t.asked

theorem call_own_iff {t : Talk} (orderly : Orderly t) {command : UInt8}
    (known : command ∈ commands) {payload : Bytes} {script : Talk.Script}
    (steady : ∀ m ∈ script.moves, m.steady = true) {answer : Answer Bytes}
    (ok : (t.call command payload script).1 = .ok answer) :
    Own t answer ↔ ¬ Outstanding t command := by
  rw [Talk.call] at ok
  split at ok
  · cases ok
  · split at ok
    · cases ok
    · constructor
      · intro own outstanding
        have another : Anothers command t.asked (t.ask command payload) := by
          refine ⟨?_, fun f o mem origin => Nat.ne_of_lt (orderly.inbox f o mem origin)⟩
          rcases outstanding with ⟨r, mem, same⟩ | ⟨f, mem, head⟩
          · obtain ⟨early, late, split⟩ := List.append_of_mem mem
            refine Or.inl ⟨early, r, late ++ [⟨t.asked, command, payload⟩], ?_, same,
              Nat.ne_of_lt (orderly.pending r mem), fun e mem => ?_⟩
            · rw [Talk.ask, split]
              simp
            · refine Nat.ne_of_lt (orderly.pending e ?_)
              rw [split]
              exact List.mem_append_left _ mem
          · exact Or.inr ⟨f, mem, Or.inl head⟩
        obtain ⟨u, f, another, mem, -, origin⟩ := await_ok
          (fun t m mem another searched => anothers_move known another searched (steady m mem))
          another ok
        obtain ⟨o, from_, request⟩ := Option.map_eq_some_iff.mp own
        exact another.inbox f o mem (origin.trans from_) request
      · intro settled
        have mine : Mine command t.asked (t.ask command payload) := by
          refine ⟨fun r mem same => ?_, fun f mem head => ?_⟩
          · rcases List.mem_append.mp mem with before | now
            · exact absurd (Or.inl ⟨r, before, same⟩) settled
            · rw [List.mem_singleton.mp now]
          · exact absurd (Or.inr ⟨f, mem, head⟩) settled
        obtain ⟨u, f, mine, mem, bytes, origin⟩ := await_ok (I := Mine command t.asked)
          (fun t m _ mine _ => mine_move known (mine_sifted mine) m) mine ok
        rw [Own, ← origin]
        exact mine.inbox f mem (by rw [bytes]; rfl)

theorem callChecked_own_iff {t : Talk} (orderly : Orderly t) {command : UInt8}
    (known : command ∈ commands) {payload : Bytes} {script asking : Talk.Script}
    (steady : ∀ m ∈ script.moves, m.steady = true) {answer : Answer Bytes}
    (ok : (t.callChecked command payload script asking).1 = .ok answer) :
    Own t answer ↔ ¬ Outstanding t command := by
  rw [Talk.callChecked] at ok
  split at ok
  · split at ok <;> cases ok
  · exact call_own_iff orderly known steady ok

theorem irqFlags_own_iff {t : Talk} (orderly : Orderly t) {script : Talk.Script}
    (steady : ∀ m ∈ script.moves, m.steady = true) {answer : Answer UInt16}
    (read : (t.irqFlags script).1 = some answer) :
    Own t answer ↔ ¬ Outstanding t Command.spi := by
  rw [Talk.irqFlags] at read
  split at read
  · cases read
  · next said _ called =>
    have own := call_own_iff orderly (show Command.spi ∈ commands by decide) steady
      (congrArg Prod.fst called)
    split at read
    · split at read
      · cases read
        exact own
      · cases read
    · cases read

theorem transaction_own_iff {t : Talk} (orderly : Orderly t) {operations : List Operation}
    {script asking : Talk.Script} (steady : ∀ m ∈ script.moves, m.steady = true)
    {answer : Answer (List Operation)}
    (ok : (t.transaction operations script asking).1 = .ok answer) :
    Own t answer ↔ ¬ Outstanding t Command.spi := by
  rw [Talk.transaction] at ok
  split at ok
  · cases ok
  · next said _ called =>
    have own := callChecked_own_iff orderly (show Command.spi ∈ commands by decide) steady
      (congrArg Prod.fst called)
    split at ok
    · cases ok
    · cases ok
      exact own

/-- In every conversation, a call that succeeds is given the reply to its own request exactly
when no earlier request of the same command was still outstanding. -/
theorem replies_match (session : UInt32) (owed : List (UInt8 × Bytes)) (steps : List Step)
    (script asking : Talk.Script) (steady : ∀ m ∈ script.moves, m.steady = true) :
    let t := (Talk.start session owed).after steps
    (∀ command ∈ commands, ∀ payload answer, (t.call command payload script).1 = .ok answer →
      (Own t answer ↔ ¬ Outstanding t command)) ∧
    (∀ command ∈ commands, ∀ payload answer,
      (t.callChecked command payload script asking).1 = .ok answer →
        (Own t answer ↔ ¬ Outstanding t command)) ∧
    (∀ answer, (t.irqFlags script).1 = some answer →
      (Own t answer ↔ ¬ Outstanding t Command.spi)) ∧
    ∀ operations answer, (t.transaction operations script asking).1 = .ok answer →
      (Own t answer ↔ ¬ Outstanding t Command.spi) := by
  have orderly := orderly_throughout.after steps (orderly_start session owed)
  refine ⟨?_, ?_, ?_, ?_⟩
  · intro command known payload answer ok
    exact call_own_iff orderly known steady ok
  · intro command known payload answer ok
    exact callChecked_own_iff orderly known steady ok
  · intro answer read
    exact irqFlags_own_iff orderly steady read
  · intro operations answer ok
    exact transaction_own_iff orderly steady ok

/-- A greeting of the reference device. -/
def greeting : Hello := ⟨version, (0, 2), 0xFE, 1, false, false⟩

/-- The device answers, and at once. -/
def prompt (body : Bytes) : Talk.Script := ⟨true, [.answers body greeting]⟩

/-- The device takes its time. -/
def silence : Talk.Script := ⟨true, []⟩

/-- After a quick exchange each kind of call is answered for itself. -/
theorem replies_match_prompt :
    let t := (Talk.start 1 []).after [.called Command.pins [] (prompt [0, 0])]
    (∀ command ∈ commands, ∀ payload answer,
      (t.call command payload (prompt [0, 9, 9, 9])).1 = .ok answer →
      (Own t answer ↔ ¬ Outstanding t command)) ∧
    (∀ command ∈ commands, ∀ payload answer,
      (t.callChecked command payload (prompt [0, 9, 9, 9]) silence).1 = .ok answer →
        (Own t answer ↔ ¬ Outstanding t command)) ∧
    (∀ answer, (t.irqFlags (prompt [0, 9, 9, 9])).1 = some answer →
      (Own t answer ↔ ¬ Outstanding t Command.spi)) ∧
    ∀ operations answer,
      (t.transaction operations (prompt [0, 9, 9, 9]) silence).1 = .ok answer →
      (Own t answer ↔ ¬ Outstanding t Command.spi) :=
  replies_match 1 [] [.called Command.pins [] (prompt [0, 0])] (prompt [0, 9, 9, 9]) silence
    (by decide)

/-- The flags are asked for and their reply is late; the next transaction is given it. -/
theorem replies_crossed :
    ¬ ∀ (session : UInt32) (owed : List (UInt8 × Bytes)) (steps : List Step)
      (script asking : Talk.Script) (operations : List Operation)
      (answer : Answer (List Operation)), (∀ m ∈ script.moves, m.steady = true) →
        (((Talk.start session owed).after steps).transaction operations script asking).1 =
          .ok answer → Own ((Talk.start session owed).after steps) answer := by
  intro matching
  have late := matching 1 [] [.greeted (prompt []) [], .flagged silence]
    (prompt [0, 5, 6]) silence [.write [0x1D], .read [7, 7]]
    ⟨[.write [0x1D], .read [5, 6]], some ⟨1, 0, 1⟩⟩ (by decide) (by decide)
  exact absurd late (by rw [Own]; decide)

end BridgeReplies
