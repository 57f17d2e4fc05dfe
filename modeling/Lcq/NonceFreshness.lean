import Lcq.Utterances
import Lcq.VoteLocks

/-!
# No number is sealed under twice

A member's journal hands out every number once, over all of its lives, and no
frame is sealed but under a number just handed out. What is sent a second time
is what the journal kept of the first.
-/

namespace NonceFreshness

open ByteFormat Contracts CrashSafety FileSystem JournalOutcomes JournalRecords JournalRuns
  JournalState LogJournal Program Utterances VoteLocks Wire

/-! ## Lives of a member -/

/-- A step of an honest member's lives. -/
inductive Deed where
  | build (stage : Stage) (subject : Subject) (heard : Heard) (round : RoundId)
      (envs : Nat → Env)
  | buildNack (subject : Subject) (heard : Heard) (round : RoundId) (env : Env)
  | buildTrigger (subject : Subject) (round : RoundId) (env : Env)
  | operate (op : Op) (env : Env)
  | reopen (entropy : UInt64) (env : Env)
  | crash

/-- How many numbers an operation may take. -/
def reserves : Op → Nat
  | .reserveSequence => 1
  | _ => 0

namespace Deed

/-- Every frame is built by the builders: a member commits no other votes. -/
def honest : Deed → Prop
  | operate (.commitVote _ _ _) _ => False
  | _ => True

/-- Nothing fails but, perhaps, compactions up to their rename. -/
def mild : Deed → Prop
  | build _ _ _ _ envs => ∀ i, Mild (envs i)
  | buildNack _ _ _ env | buildTrigger _ _ env | operate _ env | reopen _ env => Mild env
  | crash => True

/-- How many numbers the deed may take. -/
def reservations : Deed → Nat
  | build .. | buildNack .. | buildTrigger .. => 1
  | operate op _ => reserves op
  | reopen .. | crash => 0

end Deed

/-- A member's disk, its process, and every call of `sealFrame` in any life. -/
structure Member where
  world : World
  sealed : List Sealing

variable (P : Postcard) (C : Primitives) (fleet : Fleet) (options : Options) (keys : Provisioned)
  (path : Path)

namespace Member

/-- Run a builder in the living process, if there is one. -/
def builds (m : Member) (p : Prog Desk BuildError Bytes) : Member :=
  match m.world.process with
  | none => m
  | some j =>
    let out := p ⟨⟨m.world.disk, j⟩, m.sealed⟩
    ⟨World.left (out.1, out.2.running), out.2.sealed⟩

def next (m : Member) : Deed → Member
  | .build stage subject heard round envs =>
    m.builds (Utterances.build P C fleet options keys envs stage subject heard round)
  | .buildNack subject heard round env =>
    m.builds (Utterances.buildNack P C fleet options keys env subject heard round)
  | .buildTrigger subject round env =>
    m.builds (Utterances.buildTrigger P C fleet options keys env subject round)
  | .operate op env => { m with world := m.world.next P path (.operate op env) }
  | .reopen entropy env => { m with world := m.world.next P path (.reopen (some entropy) env) }
  | .crash => { m with world := m.world.next P path .crash }

def after (m : Member) (deeds : List Deed) : Member :=
  deeds.foldl (next P C fleet options keys path) m

end Member

/-! ## What the journal knows of what was sealed -/

/-- The journal's counter is past every number sealed under, no number was sealed under
twice, and what is pending was there to begin with or came from a sealing. -/
structure Spent (initial state : State) (sealed : List Sealing) : Prop where
  author : ∀ x ∈ sealed, x.author = authorOf options.index
  below : ∀ x ∈ sealed, x.sequence.toNat < state.nextSequence.toNat
  apart : (sealed.map Sealing.sequence).Nodup
  stored : ∀ (k : UInt64) f, state.pending[k]? = some f → initial.pending[k]? = some f ∨
    ∃ x ∈ sealed, x.sequence = f.sequence ∧
      sealFrame C keys.group x.author x.sequence x.plaintext = .ok f.bytes

/-- The same, the counter being at most `top`. -/
structure Lawful (initial : State) (top : Nat) (state : State) (sealed : List Sealing) :
    Prop where
  spent : Spent C options keys initial state sealed
  top : state.nextSequence.toNat ≤ top

/-- An entry that files no frame and takes the counter no further than `top`. -/
def Modest (top : Nat) (e : Entry) : Prop :=
  ((∀ key f, e ≠ voteEntry key f) ∧ ∀ f, e ≠ frameEntry f) ∧
    ∀ n, e = .sequence n → n.toNat ≤ top

variable {P C fleet options keys path} {initial : State} {top : Nat}

theorem Lawful.raise {state : State} {sealed : List Sealing} {more : Nat}
    (lawful : Lawful C options keys initial top state sealed) (le : top ≤ more) :
    Lawful C options keys initial more state sealed :=
  ⟨lawful.spent, Nat.le_trans lawful.top le⟩

theorem lawful_apply {state : State} {sealed : List Sealing}
    (lawful : Lawful C options keys initial top state sealed) {e : Entry}
    (modest : Modest top e) : Lawful C options keys initial top (state.apply e) sealed := by
  obtain ⟨⟨author, below, apart, stored⟩, bound⟩ := lawful
  obtain ⟨⟨noVote, noFrame⟩, small⟩ := modest
  constructor
  · refine ⟨author, ?_, apart, ?_⟩
    · intro x mem
      exact Nat.lt_of_lt_of_le (below x mem) (nextSequence_apply state e)
    · intro k f found
      rcases pending_apply found with before | ⟨key, vote⟩ | frame
      · exact stored k f before
      · exact absurd vote (noVote key f)
      · exact absurd frame (noFrame f)
  · cases e with
    | sequence n =>
      have n_small := small n rfl
      simp only [State.apply, max64_toNat]
      omega
    | vote key k bytes expiresAt =>
      exact absurd (vote_eq key k bytes expiresAt) (noVote key _)
    | frame k bytes expiresAt => exact absurd (frame_eq k bytes expiresAt) (noFrame _)
    | _ => exact bound

theorem lawful_applyAll {sealed : List Sealing} {es : List Entry} {state : State}
    (lawful : Lawful C options keys initial top state sealed)
    (modest : ∀ e ∈ es, Modest top e) :
    Lawful C options keys initial top (state.applyAll es) sealed := by
  induction es generalizing state with
  | nil => exact lawful
  | cons e es ih =>
    exact ih (lawful_apply lawful (modest e List.mem_cons_self))
      fun e mem => modest e (List.mem_cons_of_mem _ mem)

theorem lawful_told {sealed : List Sealing} {es : List Entry} {state : State}
    (lawful : Lawful C options keys initial top state sealed)
    (modest : ∀ e ∈ es, Modest top e) (k : Nat) :
    Lawful C options keys initial top (state.applyAll ((recordable P es).take k)) sealed :=
  lawful_applyAll lawful fun e mem =>
    modest e (List.mem_of_mem_filter (List.mem_of_mem_take mem))

/-- An operation other than a commitment tells modest entries. -/
theorem op_modest {state : State} {op : Op} {e : Entry}
    (honest : ∀ subject voter f, op ≠ .commitVote subject voter f)
    (bound : state.nextSequence.toNat + reserves op ≤ top) (told : e ∈ op.entries state) :
    Modest top e := by
  rcases op_entries told with ⟨subject, voter, f, rfl, -⟩ | ⟨k, rfl, -⟩ | ⟨-, noVote, noFrame⟩
  · exact absurd rfl (honest subject voter f)
  · exact ⟨⟨nofun, nofun⟩, nofun⟩
  · refine ⟨⟨noVote, noFrame⟩, ?_⟩
    rintro n rfl
    cases op with
    | reserveSequence =>
      have number : n = saturatingAdd state.nextSequence 1 := by simpa [Op.entries] using told
      have one : (1 : UInt64).toNat = 1 := rfl
      rw [number, saturatingAdd_toNat]
      simp only [reserves] at bound
      omega
    | commitVote subject voter f => exact absurd rfl (honest subject voter f)
    | dropExpired now => simp [Op.entries] at told
    | compact => cases told
    | _ =>
      simp only [Op.entries] at told
      split at told <;> simp at told

/-! ## Building -/

/-- A number is sealed under when the journal has just handed it out. -/
theorem lawful_sealed {state : State} {sealed : List Sealing}
    (lawful : Lawful C options keys initial top state sealed) (plaintext : Bytes)
    (room : state.nextSequence.toNat + 1 < 2 ^ 64) :
    Lawful C options keys initial (top + 1)
      (state.apply (.sequence (saturatingAdd state.nextSequence 1)))
      (sealed ++ [⟨authorOf options.index, state.nextSequence, plaintext⟩]) := by
  obtain ⟨⟨author, below, apart, stored⟩, bound⟩ := lawful
  have one : (1 : UInt64).toNat = 1 := rfl
  have counter : (saturatingAdd state.nextSequence 1).toNat = state.nextSequence.toNat + 1 := by
    rw [saturatingAdd_toNat, one]
    omega
  rw [apply_reserved]
  refine ⟨⟨?_, ?_, ?_, ?_⟩, by dsimp only; omega⟩
  · intro x mem
    rcases List.mem_append.mp mem with mem | mem
    · exact author x mem
    · rw [List.mem_singleton.mp mem]
  · intro x mem
    rw [counter]
    rcases List.mem_append.mp mem with mem | mem
    · have lt := below x mem
      omega
    · rw [List.mem_singleton.mp mem]
      exact Nat.lt_succ_self _
  · rw [List.map_append, List.nodup_append]
    refine ⟨apart, by simp, ?_⟩
    rintro number listed other here rfl
    obtain ⟨x, mem, rfl⟩ := List.mem_map.mp listed
    have lt := below x mem
    rw [List.map_singleton, List.mem_singleton] at here
    rw [here] at lt
    exact Nat.lt_irrefl _ lt
  · intro k f found
    refine (stored k f found).imp id ?_
    rintro ⟨x, mem, made⟩
    exact ⟨x, List.mem_append_left _ mem, made⟩

/-- A frame that came from a sealing is committed. -/
theorem lawful_committed {state : State} {sealed : List Sealing}
    (lawful : Lawful C options keys initial top state sealed) (key : String)
    {x : Sealing} (mem : x ∈ sealed) {frame : Bytes}
    (made : sealFrame C keys.group x.author x.sequence x.plaintext = .ok frame) :
    Lawful C options keys initial top
      (state.apply (voteEntry key (.new frame x.sequence))) sealed := by
  obtain ⟨⟨author, below, apart, stored⟩, bound⟩ := lawful
  have lt := below x mem
  have one : (1 : UInt64).toNat = 1 := rfl
  constructor
  · refine ⟨author, ?_, apart, ?_⟩
    · intro y mem
      exact Nat.lt_of_lt_of_le (below y mem) (nextSequence_apply state _)
    · intro k f found
      rcases pending_apply found with before | ⟨key', vote⟩ | frame
      · exact stored k f before
      · obtain ⟨-, rfl⟩ := voteEntry_inj vote
        exact Or.inr ⟨x, mem, rfl, made⟩
      · cases frame
  · rw [apply_vote]
    simp only [max64_toNat, saturatingAdd_toNat, OutgoingFrame.new]
    omega

/-- How a builder ends: dead, what is recovered is lawful; alive, what is live. -/
def Ends {α : Type} (P : Postcard) (C : Primitives) (options : Options) (keys : Provisioned)
    (path : Path) (initial : State) (top : Nat) (out : Except (Stop BuildError) α × Desk) :
    Prop :=
  out.2.running.journal.path = path ∧
    ((out.1 = .error .died ∧ Lawful C options keys initial top
        (replay P (bytes out.2.running)).1 out.2.sealed) ∨
      (out.1 ≠ .error .died ∧ Sound P path out.2.running ∧
        Lawful C options keys initial top out.2.running.journal.state out.2.sealed))

theorem ends_alive {α : Type} {out : Except (Stop BuildError) α} {d : Desk}
    (alive : out ≠ .error .died) (sound : Sound P path d.running)
    (lawful : Lawful C options keys initial top d.running.journal.state d.sealed) :
    Ends P C options keys path initial top (out, d) :=
  ⟨sound.path, Or.inr ⟨alive, sound, lawful⟩⟩

theorem ends_andThen {α β : Type} {out : Except (Stop BuildError) α × Desk}
    {f : α → Prog Desk BuildError β}
    (first : Ends P C options keys path initial top out)
    (second : ∀ a d, out = (.ok a, d) → Sound P path d.running →
      Lawful C options keys initial top d.running.journal.state d.sealed →
      Ends P C options keys path initial top (f a d)) :
    Ends P C options keys path initial top (andThen out f) := by
  obtain ⟨answer, d⟩ := out
  obtain ⟨named, ⟨rfl, lawful⟩ | ⟨alive, sound, lawful⟩⟩ := first
  · exact ⟨named, Or.inl ⟨rfl, lawful⟩⟩
  · cases answer with
    | ok a => exact second a d rfl sound lawful
    | error stop =>
      cases stop with
      | died => exact absurd rfl alive
      | failed e => exact ends_alive (by simp) sound lawful

/-- A journal operation that keeps what it tells lawful. -/
theorem ends_onJournal {α : Type} {p : Prog Running JournalError α} {d : Desk} {es : List Entry}
    (told : Told P path d.running (recordable P es) (p d.running))
    (lawful : ∀ k, Lawful C options keys initial top
      (d.running.journal.state.applyAll ((recordable P es).take k)) d.sealed) :
    Ends P C options keys path initial top (onJournal p d) := by
  simp only [onJournal, zoom_apply, mapError]
  generalize p d.running = out at told
  obtain ⟨answer, t⟩ := out
  obtain ⟨named, ⟨rfl, k, cut⟩ | ⟨alive, sound, state⟩⟩ := told
  · refine ⟨named, Or.inl ⟨rfl, ?_⟩⟩
    dsimp only at cut ⊢
    rw [cut]
    exact lawful k
  · have all := lawful (recordable P es).length
    rw [List.take_length] at all
    rw [← state] at all
    cases answer with
    | ok a => exact ends_alive (by simp) sound all
    | error stop =>
      cases stop with
      | died => exact absurd rfl alive
      | failed e => exact ends_alive (by simp) sound all

theorem onJournal_ok {α : Type} {p : Prog Running JournalError α} {d t : Desk} {a : α}
    (ok : onJournal p d = (.ok a, t)) :
    p d.running = (.ok a, t.running) ∧ t.sealed = d.sealed := by
  simp only [onJournal, zoom_apply, Prod.mk.injEq] at ok
  obtain ⟨answer, rfl⟩ := ok
  have ran := mapError_eq_ok (f := BuildError.journal) (p := p) (Prod.ext answer rfl)
  exact ⟨ran, rfl⟩

/-- A reservation that returns hands out the counter, and its record is in the file. -/
theorem reserveSequence_ok {env : Env} {s t : Running} {n : UInt64}
    (ok : reserveSequence P env s = (.ok n, t)) :
    n = s.journal.state.nextSequence ∧
      recordable P (Op.entries s.journal.state .reserveSequence) =
        Op.entries s.journal.state .reserveSequence := by
  simp only [reserveSequence, bind_apply, read_apply, andThen_ok] at ok
  obtain ⟨_, _, recorded, rest⟩ := andThen_eq_ok ok
  obtain ⟨_, _, -, last⟩ := andThen_eq_ok rest
  obtain ⟨⟨r, made⟩, -⟩ := record_ok recorded
  cases last
  exact ⟨rfl, recordable_made made⟩

/-- Of its one entry a commitment tells nothing or all. -/
theorem commit_parts (state : State) (subject : Subject) (voter : String)
    (frame : OutgoingFrame) (k : Nat) :
    (recordable P (Op.entries state (.commitVote subject voter frame))).take k = [] ∨
      (recordable P (Op.entries state (.commitVote subject voter frame))).take k =
        [voteEntry (lockKey subject voter) frame] := by
  have listed : Op.entries state (.commitVote subject voter frame) = [] ∨
      Op.entries state (.commitVote subject voter frame) =
        [voteEntry (lockKey subject voter) frame] := by
    simp only [Op.entries]
    split
    · exact Or.inl rfl
    · exact Or.inr rfl
  rcases listed with none | one
  · rw [none]
    exact Or.inl List.take_nil
  · rw [one, recordable, List.filter_singleton]
    cases (P.format.encode (voteEntry (lockKey subject voter) frame)).isSome with
    | false => exact Or.inl List.take_nil
    | true =>
      cases k with
      | zero => exact Or.inl rfl
      | succ k => exact Or.inr (by simp)

section builders

variable {d : Desk} {subject : Subject} {stage verdict : UInt8} {heard : Heard}
  {round : RoundId} {env : Env}

/-- What a frame that is uttered was sealed from. -/
theorem utter_ok {t : Desk} {r : UInt64 × Bytes}
    (ok : utter P C fleet options keys env subject stage verdict heard round d = (.ok r, t)) :
    ∃ x ∈ t.sealed, x.sequence = r.1 ∧
      sealFrame C keys.group x.author x.sequence x.plaintext = .ok r.2 := by
  obtain ⟨n, u, -, rest⟩ := andThen_eq_ok ok
  obtain ⟨signed, v, -, rest⟩ := andThen_eq_ok rest
  obtain ⟨frame, w, sealing, rest⟩ := andThen_eq_ok rest
  cases rest
  simp only [Utterances.sealing, bind_apply, change_apply, andThen_ok] at sealing
  cases made : sealFrame C keys.group (authorOf options.index) n signed with
  | error e =>
    rw [made] at sealing
    cases sealing
  | ok bytes =>
    rw [made] at sealing
    cases sealing
    exact ⟨_, List.mem_append_right _ List.mem_cons_self, rfl, made⟩

theorem utter_ends (sound : Sound P path d.running) (mild : Mild env)
    (apart : path.extension ≠ some "compacting")
    (lawful : Lawful C options keys initial top d.running.journal.state d.sealed)
    (room : top + 1 < 2 ^ 64) :
    Ends P C options keys path initial (top + 1)
      (utter P C fleet options keys env subject stage verdict heard round d) := by
  have told := reserveSequence_told sound mild apart
  have bound := lawful.top
  have modest : ∀ e ∈ Op.entries d.running.journal.state .reserveSequence,
      Modest (top + 1) e := by
    intro e mem
    exact op_modest (by simp) (by simp only [reserves]; omega) mem
  refine ends_andThen (ends_onJournal told (lawful_told (lawful.raise (by omega)) modest)) ?_
  intro n t reserved sound' lawful'
  obtain ⟨ran, same⟩ := onJournal_ok reserved
  obtain ⟨number, whole⟩ := reserveSequence_ok ran
  rw [ran, whole] at told
  obtain ⟨-, ⟨dead, -⟩ | ⟨-, -, state⟩⟩ := told
  · cases dead
  have counted : t.running.journal.state = d.running.journal.state.apply
      (.sequence (saturatingAdd d.running.journal.state.nextSequence 1)) := state
  generalize encodeCompact _ = encoded
  cases encoded with
  | error e => exact ends_alive (by simp) sound' lawful'
  | ok signed =>
    have fresh := lawful_sealed lawful signed (by omega)
    rw [← counted, ← same, ← number] at fresh
    simp only [Except.mapError, bind_apply, ofExcept_ok, andThen_ok, Utterances.sealing,
      change_apply]
    cases sealFrame C keys.group (authorOf options.index) n signed with
    | error e => exact ends_alive (by simp) sound' fresh
    | ok frame => exact ends_alive (by simp) sound' fresh

theorem utter_pure_ends {out : Except (Stop BuildError) (UInt64 × Bytes) × Desk}
    (ends : Ends P C options keys path initial top out) :
    Ends P C options keys path initial top
      (andThen out fun r => (pure r.2 : Prog Desk BuildError Bytes)) :=
  ends_andThen ends fun _ _ _ sound lawful => ends_alive (by simp) sound lawful

theorem buildNack_ends (sound : Sound P path d.running) (mild : Mild env)
    (apart : path.extension ≠ some "compacting")
    (lawful : Lawful C options keys initial top d.running.journal.state d.sealed)
    (room : top + 1 < 2 ^ 64) :
    Ends P C options keys path initial (top + 1)
      (buildNack P C fleet options keys env subject heard round d) :=
  utter_pure_ends (utter_ends sound mild apart lawful room)

theorem buildTrigger_ends (sound : Sound P path d.running) (mild : Mild env)
    (apart : path.extension ≠ some "compacting")
    (lawful : Lawful C options keys initial top d.running.journal.state d.sealed)
    (room : top + 1 < 2 ^ 64) :
    Ends P C options keys path initial (top + 1)
      (buildTrigger P C fleet options keys env subject round d) :=
  utter_pure_ends (utter_ends sound mild apart lawful room)

/-- The vote of a member that has voted is the first frame the journal has pending, and
building it changes nothing. -/
theorem build_again {envs : Nat → Env}
    (voted : hasVoted d.running.journal subject (fleet.id options.index) = true) :
    build P C fleet options keys envs .bindingSupport subject heard round d =
      match (pending d.running.journal).head? with
      | none => (.error (.failed .nothingLeft), d)
      | some frame => (.ok frame.bytes, d) := by
  simp only [build, bind_apply, read_apply, andThen_ok, voted, and_self, if_true]
  cases (pending d.running.journal).head? <;> rfl

theorem build_ends {stage : Stage} {envs : Nat → Env} (sound : Sound P path d.running)
    (mild : ∀ i, Mild (envs i)) (apart : path.extension ≠ some "compacting")
    (lawful : Lawful C options keys initial top d.running.journal.state d.sealed)
    (room : top + 1 < 2 ^ 64) :
    Ends P C options keys path initial (top + 1)
      (build P C fleet options keys envs stage subject heard round d) := by
  simp only [build, bind_apply, read_apply, andThen_ok]
  split
  · cases (pending d.running.journal).head? with
    | none => exact ends_alive (by simp) sound (lawful.raise (by omega))
    | some frame => exact ends_alive (by simp) sound (lawful.raise (by omega))
  · refine ends_andThen (utter_ends sound (mild 0) apart lawful room) ?_
    intro r t uttered sound lawful
    obtain ⟨x, mem, number, made⟩ := utter_ok uttered
    split
    · exact ends_alive (by simp) sound lawful
    · split
      · have told := commitVote_told sound (mild 1) apart subject (fleet.id options.index)
          (.new r.2 r.1)
        refine ends_andThen (ends_onJournal told ?_)
          fun _ _ _ sound lawful => ends_alive (by simp) sound lawful
        intro k
        have committed := lawful_committed lawful
          (lockKey subject (fleet.id options.index)) mem made
        rw [number] at committed
        have parts := commit_parts (P := P) t.running.journal.state subject
          (fleet.id options.index) (.new r.2 r.1) k
        rcases parts with none | one
        · rw [none]
          exact lawful
        · rw [one]
          exact committed
      · exact ends_alive (by simp) sound lawful

end builders

/-! ## Lives -/

/-- Alive, the journal and its file agree; alive or dead, what is recovered is lawful. -/
structure Standing (P : Postcard) (C : Primitives) (options : Options) (keys : Provisioned)
    (path : Path) (initial : State) (top : Nat) (m : Member) : Prop where
  agreeing : Agreeing P path m.world
  lawful : Lawful C options keys initial top (m.world.recovered P path) m.sealed

theorem Standing.raise {m : Member} {more : Nat}
    (standing : Standing P C options keys path initial top m) (le : top ≤ more) :
    Standing P C options keys path initial more m :=
  ⟨standing.agreeing, standing.lawful.raise le⟩

theorem builds_standing {m : Member} (standing : Standing P C options keys path initial top m)
    {p : Prog Desk BuildError Bytes}
    (ends : ∀ d : Desk, Sound P path d.running →
      Lawful C options keys initial top d.running.journal.state d.sealed →
      Ends P C options keys path initial (top + 1) (p d)) :
    Standing P C options keys path initial (top + 1) (m.builds p) := by
  cases alive : m.world.process with
  | none =>
    have same : m.builds p = m := by simp [Member.builds, alive]
    rw [same]
    exact standing.raise (Nat.le_succ top)
  | some j =>
    have live := agreeing_recovered standing.agreeing alive
    have lawful := standing.lawful
    rw [live] at lawful
    have ended := ends ⟨⟨m.world.disk, j⟩, m.sealed⟩ (standing.agreeing j alive) lawful
    have result : m.builds p = ⟨World.left ((p ⟨⟨m.world.disk, j⟩, m.sealed⟩).1,
        (p ⟨⟨m.world.disk, j⟩, m.sealed⟩).2.running), (p ⟨⟨m.world.disk, j⟩, m.sealed⟩).2.sealed⟩ := by
      simp [Member.builds, alive]
    rw [result]
    generalize p ⟨⟨m.world.disk, j⟩, m.sealed⟩ = out at ended
    obtain ⟨answer, d⟩ := out
    obtain ⟨named, ⟨rfl, cut⟩ | ⟨survived, sound, kept⟩⟩ := ended
    · dsimp only at named cut
      rw [bytes, named] at cut
      exact ⟨agreeing_dead, cut⟩
    · dsimp only at sound kept ⊢
      rw [World.left_alive survived]
      have agreeing : Agreeing P path ⟨d.running.disk, some d.running.journal⟩ := by
        rintro _ ⟨⟩
        exact sound
      refine ⟨agreeing, ?_⟩
      rw [agreeing_recovered agreeing rfl]
      exact kept

/-- A step of the journal that tells modest entries. -/
theorem journal_standing {m : Member} (standing : Standing P C options keys path initial top m)
    {event : Event} (mild : event.mild) (apart : path.extension ≠ some "compacting") {more : Nat}
    (le : top ≤ more) (modest : ∀ e ∈ m.world.entries P path event, Modest more e) :
    Standing P C options keys path initial more
      { m with world := m.world.next P path event } := by
  obtain ⟨agreeing, k, -, recovered⟩ := next_stepped standing.agreeing mild apart
  refine ⟨agreeing, ?_⟩
  rw [recovered]
  exact lawful_told (standing.lawful.raise le) modest k

theorem next_standing {m : Member} (standing : Standing P C options keys path initial top m)
    {deed : Deed} (mild : deed.mild) (honest : deed.honest)
    (apart : path.extension ≠ some "compacting") (grown : 2 ^ 31 ≤ top)
    (room : top + deed.reservations < 2 ^ 64) :
    Standing P C options keys path initial (top + deed.reservations)
      (m.next P C fleet options keys path deed) := by
  cases deed with
  | build stage subject heard round envs =>
    exact builds_standing standing fun d sound lawful =>
      build_ends sound mild apart lawful room
  | buildNack subject heard round env =>
    exact builds_standing standing fun d sound lawful =>
      buildNack_ends sound mild apart lawful room
  | buildTrigger subject round env =>
    exact builds_standing standing fun d sound lawful =>
      buildTrigger_ends sound mild apart lawful room
  | operate op env =>
    refine journal_standing standing (show (Event.operate op env).mild from mild) apart
      (Nat.le_add_right _ _) ?_
    intro e mem
    simp only [World.entries] at mem
    split at mem
    · cases mem
    · rename_i j alive
      have bound := standing.lawful.top
      rw [agreeing_recovered standing.agreeing alive] at bound
      refine op_modest ?_ (Nat.add_le_add_right bound _) mem
      rintro subject voter f rfl
      exact honest
  | reopen entropy env =>
    refine journal_standing standing (show (Event.reopen (some entropy) env).mild from mild) apart
      (Nat.le_refl _) ?_
    intro e mem
    simp only [World.entries] at mem
    split at mem
    · simp only [startEntries] at mem
      split at mem
      · rw [List.mem_singleton] at mem
        subst mem
        refine ⟨⟨by simp [voteEntry], by simp [frameEntry]⟩, ?_⟩
        rintro n ⟨⟩
        exact Nat.le_trans (Nat.le_of_lt (randomStart_lt _)) grown
      · cases mem
    · cases mem
  | crash =>
    exact journal_standing standing (show Event.crash.mild from trivial) apart
      (Nat.le_refl _) (by rintro _ ⟨⟩)

theorem after_standing {m : Member} (standing : Standing P C options keys path initial top m)
    {deeds : List Deed} (mild : ∀ deed ∈ deeds, deed.mild) (honest : ∀ deed ∈ deeds, deed.honest)
    (apart : path.extension ≠ some "compacting") (grown : 2 ^ 31 ≤ top)
    (room : top + (deeds.map Deed.reservations).sum < 2 ^ 64) :
    Standing P C options keys path initial (top + (deeds.map Deed.reservations).sum)
      (m.after P C fleet options keys path deeds) := by
  induction deeds generalizing m top with
  | nil => exact standing
  | cons deed deeds ih =>
    rw [List.map_cons, List.sum_cons] at room ⊢
    have here : Standing P C options keys path initial (top + deed.reservations)
        (m.next P C fleet options keys path deed) :=
      next_standing standing (mild deed List.mem_cons_self)
        (honest deed List.mem_cons_self) apart grown (by omega)
    have rest := ih here (fun d mem => mild d (List.mem_cons_of_mem _ mem))
      (fun d mem => honest d (List.mem_cons_of_mem _ mem)) (by omega) (by omega)
    rw [← Nat.add_assoc]
    exact rest

/-- Over all lives of an honest member, however often it dies: no two calls of `sealFrame`
have the same author and number, and so none the same nonce; a vote that is built again is
a frame the journal has pending, its bytes unchanged; and what is pending came from one of
the sealings, unless the file had it from the first. -/
theorem nonce_freshness (P : Postcard) (C : Primitives) (fleet : Fleet) (options : Options)
    (keys : Provisioned) (path : Path) (disk : Disk Path) (deeds : List Deed)
    (apart : path.extension ≠ some "compacting") (mild : ∀ deed ∈ deeds, deed.mild)
    (honest : ∀ deed ∈ deeds, deed.honest)
    (few : (deeds.map Deed.reservations).sum < 2 ^ 62)
    (start : (replay P (disk.read path)).1.nextSequence.toNat ≤ 2 ^ 63) :
    let m := Member.after P C fleet options keys path ⟨⟨disk, none⟩, []⟩ deeds
    (m.sealed.map fun x => (x.author, x.sequence)).Nodup ∧
    (∀ a s a' s', nonceFor a s = nonceFor a' s' → a = a' ∧ s = s') ∧
    (m.sealed.map fun x => nonceFor x.author x.sequence).Nodup ∧
    (∀ j subject heard round envs, m.world.process = some j →
      hasVoted j subject (fleet.id options.index) = true →
      let d : Desk := ⟨⟨m.world.disk, j⟩, m.sealed⟩
      build P C fleet options keys envs .bindingSupport subject heard round d =
        match (pending j).head? with
        | none => (.error (.failed .nothingLeft), d)
        | some frame => (.ok frame.bytes, d)) ∧
    (∀ (k : UInt64) f, (m.world.recovered P path).pending[k]? = some f →
      (replay P (disk.read path)).1.pending[k]? = some f ∨
        ∃ x ∈ m.sealed, x.sequence = f.sequence ∧
          sealFrame C keys.group x.author x.sequence x.plaintext = .ok f.bytes) := by
  intro m
  have begun : Standing P C options keys path (replay P (disk.read path)).1 (2 ^ 63)
      ⟨⟨disk, none⟩, []⟩ :=
    ⟨agreeing_dead, ⟨⟨nofun, nofun, .nil, fun k f found => Or.inl found⟩, start⟩⟩
  have standing : Standing P C options keys path _ _ m :=
    after_standing begun mild honest apart (by omega) (by omega)
  have pairs : (m.sealed.map fun x => (x.author, x.sequence)).Nodup :=
    List.Nodup.of_map Prod.snd (by
      rw [List.map_map]
      exact standing.lawful.spent.apart)
  refine ⟨pairs, fun a s a' s' => nonceFor_injective, ?_, ?_, standing.lawful.spent.stored⟩
  · have nonces : (m.sealed.map fun x => nonceFor x.author x.sequence) =
        (m.sealed.map fun x => (x.author, x.sequence)).map fun p => nonceFor p.1 p.2 := by
      rw [List.map_map]
      rfl
    rw [nonces]
    refine pairs.map_on ?_
    rintro ⟨a, s⟩ - ⟨a', s'⟩ - same
    exact Prod.ext_iff.mpr (nonceFor_injective same)
  · intro j subject heard round envs alive voted d
    exact build_again voted

/-- A trigger in a first life, a vote in a second one and the same vote in a third one: two
sealings, two nonces. -/
theorem nonce_freshness_three_lives :
    let vote := Deed.build .bindingSupport someSubject .none ⟨0, 1⟩ fun _ => calm
    let deeds := [.reopen 0 calm, .buildTrigger someSubject .none calm, .crash, .reopen 5 calm, vote,
      .crash, .reopen 7 calm, vote]
    let m := Member.after postcard plain crew firstMember provisioned
      ⟨"member", some "journal"⟩ ⟨⟨Disk.empty, none⟩, []⟩ deeds
    m.sealed.length = 2 ∧ (m.sealed.map fun x => nonceFor x.author x.sequence).Nodup := by
  intro vote deeds m
  have mild : ∀ deed ∈ deeds, deed.mild := by
    simp [deeds, vote, Deed.mild, calm_noFailure.mild]
  have honest : ∀ deed ∈ deeds, deed.honest := by
    simp [deeds, vote, Deed.honest]
  have fresh := nonce_freshness postcard plain crew firstMember provisioned
    ⟨"member", some "journal"⟩ Disk.empty deeds (by decide) mild honest (by decide) (by decide)
  exact ⟨by decide +kernel, fresh.2.2.1⟩

/-! ## Under the scratch file's own name -/

/-- What a record that is written leaves. -/
theorem record_done {env : Env} {s : Running} {i : Nat} {entry : Entry} {r : Bytes}
    (made : encode P entry = .ok r) (written : env (.write i) = .done)
    (synced : env (.sync i) = .done) (update : State → State) :
    record P env i entry update s = (.ok (), ((s.put r).counted r.length).update update) := by
  simp [record, append, caught, tryAppend, made, written, synced]

/-- Numbers of four groups make records of thirteen bytes. -/
theorem sequence_record {n : UInt64} (low : 2 ^ 21 ≤ n.toNat) (high : n.toNat < 2 ^ 28) :
    ∃ r, encode postcard (.sequence n) = .ok r ∧ r.length = 13 := by
  have first : ¬ n.toNat < 128 := by omega
  have second : ¬ n.toNat / 128 < 128 := by omega
  have third : ¬ n.toNat / 128 / 128 < 128 := by omega
  have fourth : n.toNat / 128 / 128 / 128 < 128 := by omega
  have payload : ∃ p, postcard.toAllocvec (.sequence n) = .ok p ∧ p.length = 5 := by
    simp [postcard, entryCoder, Coder.tagged, variant, variantFields, Coder.along,
      Coder.varint64, Coder.varint32, writeGroups, first, second, third, fourth]
  obtain ⟨p, made, size⟩ := payload
  refine ⟨_, by simp only [encode, made, size]; rfl, ?_⟩
  simp [size]

/-- Nothing but the counter, `n` past where it starts. -/
def counter (n : Nat) : State := { State.initial with nextSequence := .ofNat (16777216 + n) }

/-- A file of `n + 1` numbers and the journal that wrote them. -/
structure Counting (path : Path) (n : Nat) (s : Running) : Prop where
  sound : Sound postcard path s
  state : s.journal.state = counter n
  size : s.journal.bytesOnDisk = 13 * (n + 1)

theorem counter_next {n : Nat} (low : n < 2 ^ 24) :
    saturatingAdd (counter n).nextSequence 1 = (counter (n + 1)).nextSequence := by
  have one : (1 : UInt64).toNat = 1 := rfl
  apply UInt64.toNat_inj.mp
  rw [saturatingAdd_toNat, one]
  simp only [counter, UInt64.toNat_ofNat']
  omega

theorem counter_record {n : Nat} (low : n < 2 ^ 24) :
    ∃ r, encode postcard (.sequence (counter n).nextSequence) = .ok r ∧ r.length = 13 := by
  have value : (counter n).nextSequence.toNat = 16777216 + n := by
    simp only [counter, UInt64.toNat_ofNat']
    omega
  exact sequence_record (by omega) (by omega)

/-- A reservation's record, written and counted. -/
theorem reserve_counting {env : Env} {s : Running} {n : Nat} (counting : Counting path n s)
    (low : n < 2 ^ 20) (calls : NoFailure env) (written : env (.write 0) = .done)
    (synced : env (.sync 0) = .done) :
    ∃ t, Counting path (n + 1) t ∧
      reserveSequence postcard env s = andThen (compactIfLarge postcard env t)
        fun _ => pure (counter n).nextSequence := by
  obtain ⟨sound, state, size⟩ := counting
  obtain ⟨r, made, long⟩ := counter_record (n := n + 1) (by omega)
  let update : State → State :=
    fun state => { state with nextSequence := (counter (n + 1)).nextSequence }
  have ran := record_done (s := s) made written synced update
  have same : update s.journal.state =
      s.journal.state.apply (.sequence (counter (n + 1)).nextSequence) := by
    have applied := apply_reserved (counter n)
    rw [counter_next (by omega)] at applied
    rw [state, applied]
  have told := record_told sound calls.mild 0 (.sequence (counter (n + 1)).nextSequence) same
  rw [ran] at told
  obtain ⟨-, ⟨dead, -⟩ | ⟨-, sound', -⟩⟩ := told
  · cases dead
  refine ⟨_, ⟨sound', ?_, ?_⟩, ?_⟩
  · change update s.journal.state = counter (n + 1)
    rw [state]
    rfl
  · change s.journal.bytesOnDisk + r.length = 13 * (n + 1 + 1)
    omega
  · simp only [reserveSequence, bind_apply, read_apply, andThen_ok, state,
      counter_next (show n < 2 ^ 24 by omega)]
    rw [ran, andThen_ok, bind_apply]

/-- Far below the threshold a reservation is its record. -/
theorem reserve_small {s : Running} {n : Nat} (counting : Counting path n s)
    (low : 13 * (n + 2) ≤ compactThresholdBytes) :
    ∃ t, Counting path (n + 1) t ∧
      reserveSequence postcard calm s = (.ok (counter n).nextSequence, t) := by
  rw [compactThresholdBytes] at low
  obtain ⟨t, counting', ran⟩ := reserve_counting counting (by omega) calm_noFailure rfl rfl
  refine ⟨t, counting', ?_⟩
  have small : t.journal.bytesOnDisk ≤ compactThresholdBytes := by
    rw [counting'.size, compactThresholdBytes]
    omega
  rw [ran]
  simp [compactIfLarge, small]

/-- A compaction that dies at its first record, the scratch file being the journal itself,
leaves nothing of the journal. -/
theorem compact_own {s : Running}
    (own : s.journal.path.withExtension "compacting" = s.journal.path) {n : UInt64}
    {es : List Entry} (snapshot : s.journal.state.snapshot = .sequence n :: es) {r : Bytes}
    (made : encode P (.sequence n) = .ok r) :
    ∃ t, compact P (dyingAt (.scratchWrite 0) 0) s = (.error .died, t) ∧
      t.disk.read s.journal.path = [] := by
  obtain ⟨file, named, -, -⟩ := s.disk.make_names s.journal.path
  refine ⟨_, by
    simp only [compact, bind_apply, read_apply, andThen_ok, own, snapshot, dyingAt, step, call,
      named, Disk.put_names, writeScratch, made, ofExcept_ok, andThen_error, if_true, if_false,
      reduceCtorEq]
    rfl, ?_⟩
  simp [Disk.read, named, Disk.write, overwrite]

theorem reserve_dying {s : Running} {n : Nat} (counting : Counting path n s)
    (own : path.withExtension "compacting" = path) (low : n < 2 ^ 20)
    (large : compactThresholdBytes < 13 * (n + 2)) :
    ∃ t, reserveSequence postcard (dyingAt (.scratchWrite 0) 0) s = (.error .died, t) ∧
      t.disk.read path = [] := by
  obtain ⟨t, ⟨sound, state, size⟩, ran⟩ :=
    reserve_counting counting low (dyingAt_noFailure (.scratchWrite 0) 0) rfl rfl
  have snapshot : t.journal.state.snapshot = [.sequence (counter (n + 1)).nextSequence] := by
    rw [state]
    rfl
  obtain ⟨r, made, -⟩ := counter_record (n := n + 1) (by omega)
  obtain ⟨u, died, gone⟩ := compact_own (by rw [sound.path, own]) snapshot made
  have exceeded : ¬ t.journal.bytesOnDisk ≤ compactThresholdBytes := by omega
  refine ⟨u, ?_, sound.path ▸ gone⟩
  rw [ran]
  simp only [compactIfLarge, bind_apply, read_apply, andThen_ok, if_neg exceeded, caught, died,
    andThen_error]

/-- A node that opens an empty file starts over. -/
theorem open_empty {d : Disk Path} (empty : d.read path = []) :
    ∃ j t, openWithEntropy postcard calm path 0 d = (.ok j, t) ∧ Counting path 0 ⟨t, j⟩ := by
  obtain ⟨j, t, opened⟩ := openJournal_calm postcard path d
  obtain ⟨sound, state, size⟩ := openJournal_sound opened
  rw [empty] at state size
  have blank : j.bytesOnDisk = 0 := size
  have fresh : j.state = State.initial := state
  obtain ⟨r, made, long⟩ := counter_record (n := 0) (by omega)
  have tried : tryAppend postcard calm 0 (.sequence (randomStart 0)) ⟨t, j⟩ =
      (.ok (), ((⟨t, j⟩ : Running).put r).counted r.length) := by
    have start : encode postcard (.sequence (randomStart 0)) = .ok r := made
    simp [tryAppend, start, calm]
  have told := openWithEntropy_told (P := postcard) path (d := d) calm_noFailure.mild 0
  have result : openWithEntropy postcard calm path 0 d = (.ok ((((⟨t, j⟩ : Running).put r).counted
      r.length).update fun state => { state with nextSequence := randomStart 0 }).journal,
      (((⟨t, j⟩ : Running).put r).counted r.length).disk) := by
    simp only [openWithEntropy, opened, blank, fresh, State.initial, and_self, if_true, tried]
  rw [result] at told ⊢
  rcases told with ⟨stop, k, stopped, -⟩ | ⟨j', same, sound', state'⟩
  · cases stopped
  cases same
  refine ⟨_, _, rfl, sound', ?_, ?_⟩
  · change { j.state with nextSequence := randomStart 0 } = counter 0
    rw [fresh]
    rfl
  · change j.bytesOnDisk + r.length = 13
    omega

section numbering

variable (C : Primitives) (fleet : Fleet) (options : Options) (keys : Provisioned)

/-- A trigger whose number is reserved is sealed under it, and says its round. -/
theorem buildTrigger_reserved {env : Env} (subject : Subject) (round : RoundId) {d : Desk}
    {t : Running} {n : UInt64} (reserved : reserveSequence P env d.running = (.ok n, t)) :
    ∃ out plaintext, buildTrigger P C fleet options keys env subject round d =
        (out, ⟨t, d.sealed ++ [⟨authorOf options.index, n, plaintext⟩]⟩) ∧
      out ≠ .error .died ∧
      ∃ signed, decodeCompact plaintext = .ok signed ∧ signed.envelope.round = round := by
  let envelope := ((CompactEnvelope.new C fleet.missionEpoch event revision subject.contentHash
    subject.startedAt.secs (authorOf options.index) triggerStage 0 n).acknowledging
      .none).inRound round
  let signed := envelope.sign C keys.signing subject.contentHash
  obtain ⟨plaintext, written⟩ := encodeCompact_total signed
  have result : buildTrigger P C fleet options keys env subject round d =
      andThen ((ofExcept ((sealFrame C keys.group (authorOf options.index) n
          plaintext).mapError .wire) : Prog Desk BuildError Bytes)
        ⟨t, d.sealed ++ [⟨authorOf options.index, n, plaintext⟩]⟩) pure := by
    have made : (encodeCompact signed).mapError BuildError.wire = .ok plaintext := by
      rw [written]
      rfl
    simp only [signed, envelope] at made
    simp only [buildTrigger, utter, sealing, onJournal, bind_apply, zoom_apply, mapError, reserved,
      andThen_ok, made, ofExcept_ok, change_apply]
    cases (sealFrame C keys.group (authorOf options.index) n plaintext).mapError BuildError.wire <;>
      rfl
  rw [result]
  cases sealFrame C keys.group (authorOf options.index) n plaintext with
  | error e =>
    exact ⟨_, plaintext, rfl, by simp, signed, decodeCompact_encodeCompact written, rfl⟩
  | ok frame =>
    exact ⟨_, plaintext, rfl, by simp, signed, decodeCompact_encodeCompact written, rfl⟩

/-- A living member, its file of `n + 1` numbers. -/
def Numbering (path : Path) (n : Nat) (m : Member) : Prop :=
  ∃ j, m.world.process = some j ∧ Counting path n ⟨m.world.disk, j⟩

theorem trigger_numbering {m : Member} {n : Nat} (numbering : Numbering path n m)
    (low : 13 * (n + 2) ≤ compactThresholdBytes) (subject : Subject) (round : RoundId) :
    let v := m.next postcard C fleet options keys path (.buildTrigger subject round calm)
    Numbering path (n + 1) v ∧ ∃ plaintext,
      v.sealed = m.sealed ++ [⟨authorOf options.index, (counter n).nextSequence, plaintext⟩] ∧
      ∃ signed, decodeCompact plaintext = .ok signed ∧ signed.envelope.round = round := by
  intro v
  obtain ⟨j, alive, counting⟩ := numbering
  obtain ⟨t, counting', reserved⟩ := reserve_small counting low
  obtain ⟨out, plaintext, built, lives, decoded⟩ := buildTrigger_reserved C fleet options keys
    subject round (d := ⟨⟨m.world.disk, j⟩, m.sealed⟩) reserved
  have shape : v = ⟨World.left (out, t),
      m.sealed ++ [⟨authorOf options.index, (counter n).nextSequence, plaintext⟩]⟩ := by
    simp only [v, Member.next, Member.builds, alive, built]
  rw [shape, World.left_alive lives]
  exact ⟨⟨t.journal, rfl, counting'⟩, plaintext, rfl, decoded⟩

theorem triggers_numbering (subject : Subject) (round : RoundId) (k : Nat) {m : Member} {n : Nat}
    (numbering : Numbering path n m) (low : 13 * (n + k + 1) ≤ compactThresholdBytes) :
    let v := m.after postcard C fleet options keys path
      (List.replicate k (.buildTrigger subject round calm))
    Numbering path (n + k) v ∧ m.sealed ⊆ v.sealed := by
  induction k generalizing m n with
  | zero => exact ⟨numbering, List.Subset.refl _⟩
  | succ k ih =>
    obtain ⟨here, plaintext, sealed, -⟩ :=
      trigger_numbering C fleet options keys numbering (by omega) subject round
    obtain ⟨rest, kept⟩ := ih here (by omega)
    have count : n + 1 + k = n + (k + 1) := by omega
    rw [count] at rest
    refine ⟨rest, fun x mem => kept ?_⟩
    rw [sealed]
    exact List.mem_append_left _ mem

theorem reopen_numbering {m : Member} (dead : m.world.process = none)
    (empty : m.world.disk.read path = []) :
    let v := m.next postcard C fleet options keys path (.reopen 0 calm)
    Numbering path 0 v ∧ v.sealed = m.sealed := by
  intro v
  obtain ⟨j, t, opened, counting⟩ := open_empty empty
  have shape : v = ⟨⟨t, some j⟩, m.sealed⟩ := by
    simp only [v, Member.next, World.next, dead, openWith, opened]
  rw [shape]
  exact ⟨⟨j, rfl, counting⟩, rfl⟩

theorem trigger_dying {m : Member} {n : Nat} (numbering : Numbering path n m)
    (own : path.withExtension "compacting" = path) (low : n < 2 ^ 20)
    (large : compactThresholdBytes < 13 * (n + 2)) (subject : Subject) (round : RoundId) :
    let v := m.next postcard C fleet options keys path
      (.buildTrigger subject round (dyingAt (.scratchWrite 0) 0))
    v.world.process = none ∧ v.world.disk.read path = [] ∧ v.sealed = m.sealed := by
  intro v
  obtain ⟨j, alive, counting⟩ := numbering
  obtain ⟨t, died, gone⟩ := reserve_dying counting own low large
  have shape : v = ⟨⟨t.disk, none⟩, m.sealed⟩ := by
    simp only [v, Member.next, Member.builds, alive, buildTrigger, utter, onJournal, bind_apply,
      zoom_apply, mapError, died, andThen_error, World.left]
  rw [shape]
  exact ⟨rfl, gone, rfl⟩

/-- A first life of `k + 2` triggers that dies compacting at the last one, and a second life
of one trigger. -/
def overrun (subject : Subject) (round round' : RoundId) (k : Nat) : List Deed :=
  [.reopen 0 calm, .buildTrigger subject round calm] ++
    List.replicate k (.buildTrigger subject round calm) ++
    [.buildTrigger subject round (dyingAt (.scratchWrite 0) 0), .reopen 0 calm,
      .buildTrigger subject round' calm]

theorem overrun_lawful (subject : Subject) (round round' : RoundId) (k : Nat) :
    (∀ deed ∈ overrun subject round round' k, deed.mild ∧ deed.honest) ∧
      ((overrun subject round round' k).map Deed.reservations).sum = k + 3 := by
  constructor
  · intro deed mem
    simp only [overrun, List.mem_append, List.mem_cons, List.mem_replicate, List.not_mem_nil,
      or_false] at mem
    rcases mem with ((rfl | rfl) | ⟨-, rfl⟩) | rfl | rfl | rfl
    · exact ⟨calm_noFailure.mild, trivial⟩
    · exact ⟨calm_noFailure.mild, trivial⟩
    · exact ⟨calm_noFailure.mild, trivial⟩
    · exact ⟨(dyingAt_noFailure _ _).mild, trivial⟩
    · exact ⟨calm_noFailure.mild, trivial⟩
    · exact ⟨calm_noFailure.mild, trivial⟩
  · simp [overrun, Deed.reservations]
    omega

/-- The reservation that fills the file empties it in a compaction; the next life starts
over, and two triggers are sealed under one number. -/
theorem triggers_repeat (own : path.withExtension "compacting" = path) (subject : Subject)
    (round round' : RoundId) (apart : round ≠ round') {k : Nat}
    (low : 13 * (k + 2) ≤ compactThresholdBytes) (large : compactThresholdBytes < 13 * (k + 3)) :
    let m := Member.after postcard C fleet options keys path ⟨⟨Disk.empty, none⟩, []⟩
      (overrun subject round round' k)
    ∃ x ∈ m.sealed, ∃ y ∈ m.sealed, x.author = y.author ∧ x.sequence = y.sequence ∧
      nonceFor x.author x.sequence = nonceFor y.author y.sequence ∧
      x.plaintext ≠ y.plaintext := by
  intro m
  rw [compactThresholdBytes] at low large
  let trigger := Deed.buildTrigger subject round calm
  let next := Member.next postcard C fleet options keys path
  let opened := next ⟨⟨Disk.empty, none⟩, []⟩ (.reopen 0 calm)
  let once := next opened trigger
  let full := once.after postcard C fleet options keys path (List.replicate k trigger)
  let dead := next full (.buildTrigger subject round (dyingAt (.scratchWrite 0) 0))
  let again := next dead (.reopen 0 calm)
  have run : m = next again (.buildTrigger subject round' calm) := by
    simp only [m, overrun, Member.after, List.foldl_append, List.foldl_cons, List.foldl_nil]
    rfl
  obtain ⟨lives, -⟩ : Numbering path 0 opened ∧ _ := reopen_numbering C fleet options keys rfl rfl
  obtain ⟨first, p, sealed, s, decoded, rounds⟩ : Numbering path 1 once ∧ _ :=
    trigger_numbering C fleet options keys lives (by decide) subject round
  obtain ⟨filled, kept⟩ : Numbering path (1 + k) full ∧ _ :=
    triggers_numbering C fleet options keys subject round k first
      (by rw [compactThresholdBytes]; omega)
  obtain ⟨died, empty, same⟩ : dead.world.process = none ∧ _ :=
    trigger_dying C fleet options keys filled own (by omega)
      (by rw [compactThresholdBytes]; omega) subject round
  obtain ⟨restarted, same'⟩ : Numbering path 0 again ∧ _ :=
    reopen_numbering C fleet options keys died empty
  obtain ⟨-, p', sealed', s', decoded', rounds'⟩ :=
    trigger_numbering C fleet options keys restarted (by decide) subject round'
  let x : Sealing := ⟨authorOf options.index, (counter 0).nextSequence, p⟩
  have early : x ∈ m.sealed := by
    rw [run, sealed', same', same]
    refine List.mem_append_left _ (kept ?_)
    rw [sealed]
    exact List.mem_append_right _ List.mem_cons_self
  have later : ⟨authorOf options.index, (counter 0).nextSequence, p'⟩ ∈ m.sealed := by
    rw [run, sealed']
    exact List.mem_append_right _ List.mem_cons_self
  refine ⟨_, early, _, later, rfl, rfl, rfl, ?_⟩
  rintro (rfl : p = p')
  rw [decoded] at decoded'
  cases decoded'
  exact apart (rounds.symm.trans rounds')

end numbering

/-- Under a name that is the scratch file's own, calls of `sealFrame` in two lives have the
same nonce and different plaintexts. -/
theorem nonce_freshness_compacting : ∃ deeds : List Deed,
    (∀ deed ∈ deeds, deed.mild ∧ deed.honest) ∧ (deeds.map Deed.reservations).sum < 2 ^ 62 ∧
      let m := Member.after postcard plain crew firstMember provisioned
        ⟨"member", some "compacting"⟩ ⟨⟨Disk.empty, none⟩, []⟩ deeds
      ∃ x ∈ m.sealed, ∃ y ∈ m.sealed, x.author = y.author ∧ x.sequence = y.sequence ∧
        nonceFor x.author x.sequence = nonceFor y.author y.sequence ∧
        x.plaintext ≠ y.plaintext := by
  obtain ⟨lawful, number⟩ := overrun_lawful someSubject .none ⟨0, 1⟩ 20162
  refine ⟨overrun someSubject .none ⟨0, 1⟩ 20162, lawful, number.trans_lt (by decide), ?_⟩
  exact triggers_repeat plain crew firstMember provisioned rfl
    someSubject .none ⟨0, 1⟩ (by decide) (by decide) (by decide)

end NonceFreshness
