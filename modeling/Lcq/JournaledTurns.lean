import Lcq.CrashSafety
import Lcq.Undisturbed

/-!
# What a turn tells its journal

Everything a turn writes is a record of a turn, told the file and the live
state alike. What is true of a node's mind and its journal, and stays true as
such records are told, is true of the mind and the file wherever a turn stops.
-/

namespace JournaledTurns

open ByteFormat Contracts CrashSafety FileSystem JournalOutcomes JournalRecords JournalRuns
  JournalState LogJournal NodeLoop Program Utterances Wire

variable {P : Postcard} {C : Primitives} {path : Path} {env : Env}

/-- What a turn records. -/
def Turned : Entry → Prop
  | .epoch _ => False
  | _ => True

/-! ## Programs over a journal -/

section telling

variable {σ ε α β : Type} {get : σ → Running}

/-- Wherever the program stops, it has told its journal entries of a turn. -/
def Tells (P : Postcard) (path : Path) (get : σ → Running) (p : Prog σ ε α) : Prop :=
  ∀ s, Sound P path (get s) →
    ∃ es, (∀ e ∈ es, Turned e) ∧ Told P path (get s) es ((p s).1, get (p s).2)

theorem Tells.pure (a : α) : Tells P path get (Pure.pure a : Prog σ ε α) :=
  fun _ sound => ⟨[], by simp, told_nothing (by simp) sound⟩

theorem Tells.fail (e : ε) : Tells P path get (Program.fail e : Prog σ ε α) :=
  fun _ sound => ⟨[], by simp, told_nothing (by simp) sound⟩

theorem Tells.ofExcept (r : Except ε α) : Tells P path get (Program.ofExcept r : Prog σ ε α) := by
  cases r with
  | ok a => exact Tells.pure a
  | error e => exact Tells.fail e

theorem Tells.change {f : σ → σ} (same : ∀ s, get (f s) = get s) :
    Tells P path get (Program.change f : Prog σ ε Unit) := by
  intro s sound
  refine ⟨[], by simp, ?_⟩
  rw [change_apply, same]
  exact told_nothing (by simp) sound

theorem Tells.bind {p : Prog σ ε α} {f : α → Prog σ ε β} (first : Tells P path get p)
    (second : ∀ a, Tells P path get (f a)) : Tells P path get (p >>= f) := by
  intro s sound
  obtain ⟨es, turned, told⟩ := first s sound
  rw [bind_apply]
  generalize p s = out at told
  obtain ⟨stop | a, t⟩ := out
  · refine ⟨es, turned, told.1, ?_⟩
    rcases told.2 with ⟨dead, k, cut⟩ | ⟨alive, sound', state⟩
    · cases dead
      exact Or.inl ⟨rfl, k, cut⟩
    · refine Or.inr ⟨?_, sound', state⟩
      rintro ⟨⟩
      exact alive rfl
  · obtain ⟨-, ⟨dead, -⟩ | ⟨-, sound', state⟩⟩ := told
    · cases dead
    · obtain ⟨ds, turned', named, told'⟩ := second a t sound'
      refine ⟨es ++ ds, ?_, named, ?_⟩
      · intro e mem
        exact (List.mem_append.mp mem).elim (turned e) (turned' e)
      · rcases told' with ⟨dead, k, cut⟩ | ⟨alive, sound'', state'⟩
        · refine Or.inl ⟨dead, es.length + k, ?_⟩
          rw [List.take_length_add_append, State.applyAll_append, ← state]
          exact cut
        · refine Or.inr ⟨alive, sound'', ?_⟩
          rw [State.applyAll_append, ← state]
          exact state'

theorem Tells.reading {f : σ → Prog σ ε α} (rest : ∀ s, Tells P path get (f s)) :
    Tells P path get (Program.read >>= f) := fun s sound => rest s s sound

end telling

theorem turned_recordable {es : List Entry} (turned : ∀ e ∈ es, Turned e) :
    ∀ e ∈ recordable P es, Turned e := fun e mem => turned e (List.mem_filter.mp mem).1

theorem tells_reserveSequence (mild : Mild env) (apart : path.extension ≠ some "compacting") :
    Tells P path id (reserveSequence P env) := by
  intro s sound
  refine ⟨_, turned_recordable ?_, reserveSequence_told sound mild apart⟩
  simp [Op.entries, Turned]

theorem tells_commitVote (mild : Mild env) (apart : path.extension ≠ some "compacting")
    (subject : Subject) (voter : String) (frame : OutgoingFrame) :
    Tells P path id (commitVote P env subject voter frame) := by
  intro s sound
  refine ⟨_, turned_recordable ?_, commitVote_told sound mild apart subject voter frame⟩
  intro e mem
  simp only [Op.entries] at mem
  split at mem
  · cases mem
  · rw [List.mem_singleton.mp mem]
    trivial

theorem turned_unless {known : Bool} {e : Entry} (turned : Turned e) :
    ∀ d ∈ (if known then [] else [e]), Turned d := by
  intro d mem
  cases known with
  | true => cases mem
  | false =>
    rw [List.mem_singleton.mp mem]
    exact turned

theorem witness_told {s : Running} (sound : Sound P path s) (mild : Mild env)
    (apart : path.extension ≠ some "compacting") (author : String) (frame : Bytes) :
    Told P path s (recordable P (Op.entries s.journal.state (.witness author frame)))
      (witness P env author frame s) :=
  recordUnless_told sound mild apart fun absent => by rw [apply_witnessed absent]

theorem tells_witness (mild : Mild env) (apart : path.extension ≠ some "compacting")
    (author : String) (frame : Bytes) : Tells P path id (witness P env author frame) :=
  fun _ sound => ⟨_, turned_recordable (turned_unless (e := .witnessed author frame) trivial),
    witness_told sound mild apart author frame⟩

theorem markSeen_told {s : Running} (sound : Sound P path s) (mild : Mild env)
    (apart : path.extension ≠ some "compacting") (sender : UInt16) (sequence : UInt64) :
    Told P path s
      (recordable P (Op.entries s.journal.state (.markSeen sender sequence)))
      (markSeen P env sender sequence s) :=
  recordUnless_told sound mild apart fun higher => by rw [apply_higher_mark higher]

theorem tells_markSeen (mild : Mild env) (apart : path.extension ≠ some "compacting")
    (sender : UInt16) (sequence : UInt64) : Tells P path id (markSeen P env sender sequence) :=
  fun _ sound => ⟨_, turned_recordable (turned_unless (e := .seen sender sequence) trivial),
    markSeen_told sound mild apart sender sequence⟩

/-- What a record that is accepted makes of the live state. -/
theorem recordUnless_state {s t : Running} {known : Bool} {entry : Entry} {update : State → State}
    (sound : Sound P path s) (mild : Mild env) (apart : path.extension ≠ some "compacting")
    (same : known = false → update s.journal.state = s.journal.state.apply entry)
    (ok : recordUnless P env known entry update s = (.ok (), t)) :
    Sound P path t ∧
      t.journal.state = s.journal.state.applyAll (if known then [] else [entry]) := by
  have told := recordUnless_told sound mild apart same
  have grants : Grants P env fun e => (P.format.encode e).isSome = true := by
    intro entry update s t recorded
    obtain ⟨⟨r, made⟩, -⟩ := record_ok recorded
    rw [(encode_format P entry r).mp made]
    rfl
  have whole : recordable P (if known then [] else [entry]) = if known then [] else [entry] :=
    List.filter_eq_self.mpr (recordUnless_ok grants ok)
  rw [ok, whole] at told
  obtain ⟨-, ⟨dead, -⟩ | ⟨-, sound', state⟩⟩ := told
  · cases dead
  · exact ⟨sound', state⟩

/-- A mark that is accepted is in the journal, or a higher one is. -/
theorem markSeen_ok {s t : Running} {sender : UInt16} {sequence : UInt64}
    (sound : Sound P path s) (mild : Mild env) (apart : path.extension ≠ some "compacting")
    (ok : markSeen P env sender sequence s = (.ok (), t)) :
    ∃ mark, t.journal.state.seen[sender]? = some mark ∧ sequence.toNat ≤ mark.toNat := by
  obtain ⟨-, state⟩ := recordUnless_state sound mild apart
    (fun higher => (apply_higher_mark higher).symm) ok
  rw [state]
  cases known : s.journal.state.seen[sender]?.any fun held => decide (sequence ≤ held) with
  | true =>
    obtain ⟨mark, here, le⟩ := (Option.any_eq_true _ _).mp known
    exact ⟨mark, here, UInt64.le_iff_toNat_le.mp (of_decide_eq_true le)⟩
  | false =>
    refine ⟨max (s.journal.state.seen[sender]?.getD 0) sequence, ?_, ?_⟩
    · simp [State.apply]
    · rw [max64_toNat]
      exact Nat.le_max_right _ _

theorem enterEpoch_told {s : Running} (sound : Sound P path s) (mild : Mild env)
    (apart : path.extension ≠ some "compacting") (epoch : UInt16) :
    Told P path s (recordable P (Op.entries s.journal.state (.enterEpoch epoch)))
      (enterEpoch P env epoch s) :=
  recordUnless_told sound mild apart fun later => by rw [apply_later_epoch later]

theorem enterEpoch_ok {s t : Running} {epoch : UInt16} (sound : Sound P path s)
    (mild : Mild env) (apart : path.extension ≠ some "compacting")
    (ok : enterEpoch P env epoch s = (.ok (), t)) :
    Sound P path t ∧
      t.journal.state = s.journal.state.applyAll (Op.entries s.journal.state (.enterEpoch epoch)) ∧
      ∃ held, t.journal.state.epoch = some held ∧ epoch ≤ held := by
  obtain ⟨sound', state⟩ := recordUnless_state sound mild apart
    (fun later => (apply_later_epoch later).symm) ok
  refine ⟨sound', state, ?_⟩
  rw [state]
  cases known : s.journal.state.epoch.any fun held => decide (epoch ≤ held) with
  | true =>
    obtain ⟨held, here, le⟩ := (Option.any_eq_true _ _).mp known
    exact ⟨held, here, of_decide_eq_true le⟩
  | false =>
    refine ⟨epoch, ?_, UInt16.le_refl _⟩
    change (s.journal.state.apply (.epoch epoch)).epoch = some epoch
    rw [apply_later_epoch known]

/-! ## Building a frame -/

section building

variable {fleet : Fleet} {options : Options} {keys : Provisioned} {subject : Subject}
  {heard : Heard} {round : RoundId}

theorem tells_onJournal {α : Type} {p : Prog Running JournalError α} (tells : Tells P path id p) :
    Tells P path Desk.running (onJournal p) := by
  intro d sound
  obtain ⟨es, turned, told⟩ := tells d.running sound
  exact ⟨es, turned, told_mapError told⟩

theorem tells_utter (mild : Mild env) (apart : path.extension ≠ some "compacting")
    (stage verdict : UInt8) : Tells P path Desk.running
      (utter P C fleet options keys env subject stage verdict heard round) := by
  refine (tells_onJournal (tells_reserveSequence mild apart)).bind fun sequence => ?_
  refine (Tells.ofExcept _).bind fun signed => Tells.bind ?_ fun frame => Tells.pure _
  refine Tells.bind (Tells.change ?_) fun _ => Tells.ofExcept _
  exact fun _ => rfl

theorem tells_build {envs : Nat → Env} (mild : ∀ i, Mild (envs i))
    (apart : path.extension ≠ some "compacting") (stage : Stage) :
    Tells P path Desk.running
      (build P C fleet options keys envs stage subject heard round) := by
  refine Tells.reading fun d => ?_
  split
  · split
    · exact Tells.fail _
    · exact Tells.pure _
  · refine (tells_utter (mild 0) apart _ _).bind fun uttered => ?_
    split
    · exact Tells.fail _
    · split
      · exact (tells_onJournal (tells_commitVote (mild 1) apart _ _ _)).bind fun _ =>
          Tells.pure _
      · exact Tells.pure _

theorem tells_buildNack (mild : Mild env) (apart : path.extension ≠ some "compacting") :
    Tells P path Desk.running (buildNack P C fleet options keys env subject heard round) :=
  (tells_utter mild apart _ _).bind fun _ => Tells.pure _

theorem tells_buildTrigger (mild : Mild env) (apart : path.extension ≠ some "compacting") :
    Tells P path Desk.running (buildTrigger P C fleet options keys env subject round) :=
  (tells_utter mild apart _ _).bind fun _ => Tells.pure _

end building

/-! ## A mind and its journal -/

/-- The journal is as its file, and as the mind goes by. -/
def Stands (P : Postcard) (path : Path) (I : Deliberation → State → Prop) (n : Node) : Prop :=
  Sound P path n.desk.running ∧ I n.mind n.desk.running.journal.state

/-- The file a dead process leaves is as its mind went by. -/
def Fell (P : Postcard) (path : Path) (I : Deliberation → State → Prop) (n : Node) : Prop :=
  I n.mind (replay P (n.desk.running.disk.read path)).1

/-- The part leaves a node standing, or what it has fallen from. -/
def Safe {α : Type} (P : Postcard) (path : Path) (I : Deliberation → State → Prop)
    (p : Prog Node Empty α) : Prop :=
  ∀ n, Stands P path I n → Leads p n (fun _ m => Stands P path I m) (Fell P path I)

section safe

variable {I : Deliberation → State → Prop} {ε α β : Type} {n : Node}

theorem Stands.fell (stands : Stands P path I n) : Fell P path I n := by
  obtain ⟨sound, holds⟩ := stands
  have agree := sound.agree
  rw [bytes, sound.path] at agree
  rw [Fell, agree]
  exact holds

theorem Safe.pure (a : α) : Safe P path I (Pure.pure a) := fun _ stands => Leads.pure stands

theorem Safe.halt : Safe P path I (Program.halt : Prog Node Empty α) :=
  fun _ stands => Leads.halt stands.fell

theorem Safe.bind {p : Prog Node Empty α} {f : α → Prog Node Empty β} (first : Safe P path I p)
    (second : ∀ a, Safe P path I (f a)) : Safe P path I (p >>= f) :=
  fun n stands => (first n stands).bind fun a m stands => second a m stands

theorem Safe.reading {f : Node → Prog Node Empty α} (rest : ∀ n, Safe P path I (f n)) :
    Safe P path I (Program.read >>= f) := fun n stands => Leads.reading (rest n n stands)

theorem Safe.minding {f : Deliberation → Deliberation} (kept : ∀ d s, I d s → I (f d) s) :
    Safe P path I (minding f) :=
  fun _ stands => Leads.change ⟨stands.1, kept _ _ stands.2⟩

variable (turned : ∀ {d s e}, Turned e → I d s → I d (s.apply e))
include turned

theorem holds_applyAll {d : Deliberation} {es : List Entry} {s : State}
    (all : ∀ e ∈ es, Turned e) (holds : I d s) : I d (s.applyAll es) := by
  induction es generalizing s with
  | nil => exact holds
  | cons e es ih =>
    exact ih (fun e mem => all e (List.mem_cons_of_mem _ mem))
      (turned (all e List.mem_cons_self) holds)

/-- What is told leaves the journal standing, or the file. -/
theorem stands_told {s t : Running} {out : Except (Stop ε) α} {d : Deliberation}
    {es : List Entry} (all : ∀ e ∈ es, Turned e) (holds : I d s.journal.state)
    (told : Told P path s es (out, t)) :
    (out = .error .died → I d (replay P (t.disk.read path)).1) ∧
      (out ≠ .error .died → Sound P path t ∧ I d t.journal.state) := by
  obtain ⟨named, ⟨dead, k, cut⟩ | ⟨alive, sound, state⟩⟩ := told
  · refine ⟨fun _ => ?_, fun alive => absurd dead alive⟩
    rw [bytes, named] at cut
    rw [cut]
    exact holds_applyAll turned (fun e mem => all e (List.mem_of_mem_take mem)) holds
  · refine ⟨fun dead => absurd dead alive, fun _ => ⟨sound, ?_⟩⟩
    rw [state]
    exact holds_applyAll turned all holds

/-- What a part does to its journal. -/
theorem leads_onDisk {p : Prog Running ε α} (tells : Tells P path id p)
    (stands : Stands P path I n) :
    Leads (caught (zoom (fun n : Node => n.desk.running)
      (fun running n => { n with desk := { n.desk with running } }) p) :
        Prog Node Empty (Except ε α)) n
      (fun out m => Stands P path I m ∧ m.mind = n.mind ∧
        ∀ a, out = .ok a → p n.desk.running = (.ok a, m.desk.running)) (Fell P path I) := by
  obtain ⟨es, all, told⟩ := tells n.desk.running stands.1
  obtain ⟨fallen, left⟩ := stands_told turned all stands.2 told
  refine (Leads.caught _).weaken ?_ ?_
  · rintro out m ⟨rfl, lives, answered, -⟩
    exact ⟨left lives, rfl, fun a ok =>
      Prod.ext (congrArg Prod.fst (answered a ok) :) rfl⟩
  · intro m died
    rw [zoom_apply, Prod.mk.injEq] at died
    obtain ⟨dead, rfl⟩ := died
    exact fallen dead

theorem Safe.onDisk {p : Prog Running ε α} (tells : Tells P path id p) :
    Safe P path I (caught (zoom (fun n : Node => n.desk.running)
      (fun running n => { n with desk := { n.desk with running } }) p)) :=
  fun _ stands => (leads_onDisk turned tells stands).weaken (fun _ _ after => after.1)
    fun _ fell => fell

theorem Safe.building {p : Prog Desk BuildError Bytes} (tells : Tells P path Desk.running p) :
    Safe P path I (building p) := by
  intro n stands
  obtain ⟨es, all, told⟩ := tells n.desk stands.1
  obtain ⟨fallen, left⟩ := stands_told turned all stands.2 told
  refine (Leads.caught _).weaken ?_ ?_
  · rintro out m ⟨rfl, lives, -⟩
    exact left lives
  · intro m died
    rw [zoom_apply, Prod.mk.injEq] at died
    obtain ⟨dead, rfl⟩ := died
    exact fallen dead

end safe

end JournaledTurns
