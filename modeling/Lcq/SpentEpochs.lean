import Lcq.FleetSafety
import Lcq.Issuing
import Lcq.SeenOnce

/-!
# Epochs that are spent

A vessel is started again and again, by whoever is aboard and with whatever
files are there. What one process leaves to the next is its journal, and that
knows the epoch it has run under: a manifest of an older one is refused,
however well it was signed.
-/

namespace SpentEpochs

open Admission ByteFormat Contracts CrashSafety FileSystem FleetFile FleetReading FleetSafety
  JournalOutcomes JournalRecords JournalRuns JournalState JournaledTurns LogJournal NodeLoop Program
  Provisioning SafeTurns Utterances Wire

variable {P : Postcard} {C : Primitives} {isKey : Hash → Bool} {station : Station C} {path : Path}
  {epoch : UInt16} {disk : Disk Path}

/-! ## What a journal has reached -/

/-- The journal knows of this epoch, or of a later one. -/
def Reached (epoch : UInt16) (s : State) : Prop :=
  ∃ held, s.epoch = some held ∧ epoch ≤ held

theorem Reached.apply {s : State} (reached : Reached epoch s) (e : Entry) :
    Reached epoch (s.apply e) := by
  obtain ⟨held, here, le⟩ := reached
  cases e with
  | epoch later =>
    simp only [Reached, State.apply, here]
    refine ⟨_, rfl, ?_⟩
    change epoch ≤ if held ≤ later then later else held
    split
    · rename_i above
      exact UInt16.le_trans le above
    · exact le
  | _ => exact ⟨held, here, le⟩

theorem Reached.applyAll {s : State} (reached : Reached epoch s) (es : List Entry) :
    Reached epoch (s.applyAll es) := by
  induction es generalizing s with
  | nil => exact reached
  | cons e es ih => exact ih (reached.apply e)

/-! ## One process after the other -/

/-- A life whose journal has reached an epoch, or that has left such a file. -/
def Holds (P : Postcard) (path : Path) (epoch : UInt16) : Lives → Prop
  | .dead disk _ _ => Reached epoch (replay P (disk.read path)).1
  | .alive node => Stands P path (fun _ s => Reached epoch s) node

theorem Holds.found {lives : Lives} (holds : Holds P path epoch lives) :
    Reached epoch (found P path lives) := by
  cases lives with
  | dead disk sealed past => exact holds
  | alive node =>
    have stands : Stands P path (fun _ s => Reached epoch s) node := holds
    rw [found_standing stands]
    exact stands.2

theorem holds_next (apart : path.extension ≠ some "compacting") {lives : Lives}
    (holds : Holds P path epoch lives) {happening : Happening} (mild : mildly happening) :
    Holds P path epoch (lives.next P station path happening) := by
  cases lives with
  | dead disk sealed past =>
    cases happening with
    | turn t => exact holds
    | crash => exact holds
    | boot entropy opening entering =>
      obtain ⟨opens, enters⟩ := mild
      obtain ⟨refused, begun⟩ := @boot_holds P C station path (Reached epoch) disk entropy opening
        entering opens enters apart (fun reached => reached.apply _)
        (fun _ reached => reached.applyAll _) holds
      rw [Lives.next]
      split
      · rename_i ran
        exact refused _ _ ran
      · rename_i ran
        obtain ⟨sound, -, reached⟩ := begun _ _ ran
        exact ⟨sound, reached⟩
  | alive node =>
    have stands : Stands P path (fun _ s => Reached epoch s) node := holds
    cases happening with
    | boot entropy opening entering => exact stands
    | crash => exact stands.fell
    | turn t =>
      have whole : Safe P path (fun _ s => Reached epoch s) (turn P station t) :=
        safe_turn (Lasting.journal apart fun _ reached => reached.apply _) mild apart
      rw [Lives.next]
      split
      · exact stands
      · split
        · rename_i ran
          exact (whole node stands).stopped _ _ ran
        · rename_i ran
          exact (whole node stands).returned _ _ ran

theorem holds_after (apart : path.extension ≠ some "compacting") {lives : Lives}
    (holds : Holds P path epoch lives) {happenings : List Happening}
    (mild : ∀ happening ∈ happenings, mildly happening) :
    Holds P path epoch (lives.after P station path happenings) := by
  induction happenings generalizing lives with
  | nil => exact holds
  | cons happening rest ih =>
    exact ih (holds_next apart holds (mild _ List.mem_cons_self))
      fun later mem => mild later (List.mem_cons_of_mem _ mem)

/-- A boot reaches the mission's epoch, and fails if the journal has reached a later one. -/
theorem boot_reaches (apart : path.extension ≠ some "compacting") {entropy : UInt64}
    {opening entering : Env} {sealed : List Sealing} {past : Past} {node : Node}
    (mild : mildly (.boot entropy opening entering))
    (alive : (Lives.dead disk sealed past).next P station path (.boot entropy opening entering) =
      .alive node) :
    Holds P path station.fleet.missionEpoch (.alive node) ∧
      ∀ epoch, Reached epoch (replay P (disk.read path)).1 →
        epoch ≤ station.fleet.missionEpoch := by
  obtain ⟨opens, enters⟩ := mild
  obtain ⟨-, begun⟩ := @boot_holds P C station path (fun _ => True) disk entropy opening entering
    opens enters apart (fun _ => trivial) (fun _ _ => trivial) trivial
  rw [Lives.next] at alive
  split at alive
  · cases alive
  rename_i journal d ran
  cases alive
  obtain ⟨sound, reached, -⟩ := begun _ _ ran
  refine ⟨⟨sound, reached⟩, fun epoch known => ?_⟩
  have told := openWithEntropy_told (P := P) path (d := disk) opens entropy
  unfold boot at ran
  cases opened : openWithEntropy P opening path entropy disk with
  | mk out t =>
  rw [opened] at told ran
  rcases told with ⟨stop, k, rfl, -⟩ | ⟨first, rfl, -, state⟩
  · cases ran
  · obtain ⟨held, here, le⟩ : Reached epoch first.state := by
      rw [state]
      exact known.applyAll _
    dsimp only at ran
    split at ran
    · cases ran
    · rename_i fresh
      rw [here, Option.any_some, decide_eq_true_eq] at fresh
      exact UInt16.le_trans le (UInt16.not_lt.mp fresh)

/-! ## A vessel -/

/-- What a process is started with, how the system treats it until it is up, and the turns it takes
until it ends or is ended. -/
structure Process where
  files : Files
  now : UInt64
  options : Commands
  entropy : UInt64
  opening : Env
  entering : Env
  turns : List Turn

namespace Process

/-- In none of its calls does anything fail, but perhaps compactions. -/
def Mildly (p : Process) : Prop :=
  mildly (.boot p.entropy p.opening p.entering) ∧ ∀ t ∈ p.turns, mildly (.turn t)

/-- The epoch that the manifest aboard names; a harness is always in the first. -/
def Names (isKey : Hash → Bool) (p : Process) (epoch : UInt16) : Prop :=
  match p.options.manifest with
  | none => epoch = missionEpoch
  | some path => ∃ text m, p.files.text path = .ok text ∧ Manifest.parse isKey text = .ok m ∧
      m.epoch = epoch

/-- What the process started with, if it came up, and the disk it leaves. -/
def run (P : Postcard) (C : Primitives) (isKey : Hash → Bool) (path : Path) (p : Process)
    (disk : Disk Path) : Option (Start C) × Disk Path :=
  match launch isKey C p.files p.now p.options with
  | .error _ => (none, disk)
  | .ok start =>
    match (Lives.dead disk [] ⟨[], [], []⟩).next P start.station path
      (.boot p.entropy p.opening p.entering) with
    | .dead disk _ _ => (none, disk)
    | .alive node =>
      (some start, diskOf ((Lives.alive node).after P start.station path (p.turns.map .turn)))

end Process

/-- The processes that came up, one after the other over one disk. -/
def ran (P : Postcard) (C : Primitives) (isKey : Hash → Bool) (path : Path) (disk : Disk Path) :
    List Process → List (Process × Start C)
  | [] => []
  | p :: later =>
    match p.run P C isKey path disk with
    | (none, disk) => ran P C isKey path disk later
    | (some start, disk) => (p, start) :: ran P C isKey path disk later

theorem launch_names {p : Process} {start : Start C}
    (launched : launch isKey C p.files p.now p.options = .ok start) :
    p.Names isKey start.station.fleet.missionEpoch := by
  unfold Process.Names
  cases given : p.options.manifest with
  | none =>
    obtain ⟨provided, provisioned, enlisted⟩ := bind_ok.mp launched
    have shows := enlist_shows enlisted
    unfold provision at provisioned
    rw [given] at provisioned
    dsimp only at provisioned
    unfold harness at provisioned
    split at provisioned
    · cases provisioned
    · rename_i charter made
      cases provisioned
      dsimp only
      rw [shows.fleet]
      exact (charter_ok.mp made).1
  | some path =>
    obtain ⟨-, -, -, shows⟩ := launch_shows launched
    obtain ⟨_, m, _, read, epoch, -⟩ := shows (by rw [given]; rintro ⟨⟩)
    obtain ⟨_, text, here, filed, parsed⟩ := read.filed
    cases given.symm.trans here
    exact ⟨text, m, filed, parsed, epoch.symm⟩

section runs

variable {p : Process} {start : Start C} {left : Disk Path}
  (apart : path.extension ≠ some "compacting") (mild : p.Mildly)
include apart mild

/-- What a process leaves has reached whatever it found reached. -/
theorem run_holds (reached : Reached epoch (replay P (disk.read path)).1) :
    Reached epoch (replay P ((p.run P C isKey path disk).2.read path)).1 := by
  unfold Process.run
  split
  · exact reached
  · rename_i start launched
    have dead : Holds P path epoch (.dead disk [] ⟨[], [], []⟩) := reached
    have booted : Holds P path epoch ((Lives.dead disk [] ⟨[], [], []⟩).next P start.station path
        (.boot p.entropy p.opening p.entering)) := holds_next apart dead mild.1
    split
    · rename_i same
      rw [same] at booted
      exact booted
    · rename_i node same
      rw [same] at booted
      exact (holds_after apart booted (by simpa using mild.2)).found

/-- A process that comes up is in an epoch no older than any its journal had reached, and leaves
one that has reached it. -/
theorem run_reaches (up : p.run P C isKey path disk = (some start, left)) :
    launch isKey C p.files p.now p.options = .ok start ∧
      Reached start.station.fleet.missionEpoch (replay P (left.read path)).1 ∧
        ∀ epoch, Reached epoch (replay P (disk.read path)).1 →
          epoch ≤ start.station.fleet.missionEpoch := by
  unfold Process.run at up
  split at up
  · cases up
  · rename_i started launched
    split at up
    · cases up
    · rename_i node alive
      cases up
      obtain ⟨holds, newest⟩ := boot_reaches apart mild.1 alive
      exact ⟨launched, (holds_after apart holds (by simpa using mild.2)).found, newest⟩

end runs

section vessel

variable {processes : List Process} (apart : path.extension ≠ some "compacting")
include apart

theorem ran_newer (mild : ∀ p ∈ processes, p.Mildly)
    (reached : Reached epoch (replay P (disk.read path)).1) :
    ∀ q ∈ ran P C isKey path disk processes, epoch ≤ q.2.station.fleet.missionEpoch := by
  induction processes generalizing disk with
  | nil =>
    intro q mem
    rw [ran] at mem
    cases mem
  | cons p later ih =>
    have first := mild p List.mem_cons_self
    have rest : ∀ q ∈ later, q.Mildly := fun q mem => mild q (List.mem_cons_of_mem _ mem)
    have kept := @run_holds P C isKey path epoch disk p apart first reached
    unfold ran
    split
    · rename_i left down
      rw [down] at kept
      exact ih rest kept
    · rename_i start left up
      rw [up] at kept
      intro q mem
      rcases List.mem_cons.mp mem with rfl | mem
      · exact (run_reaches apart first up).2.2 epoch reached
      · exact ih rest kept q mem

theorem ran_launched (mild : ∀ p ∈ processes, p.Mildly) :
    ∀ q ∈ ran P C isKey path disk processes,
      launch isKey C q.1.files q.1.now q.1.options = .ok q.2 := by
  induction processes generalizing disk with
  | nil =>
    intro q mem
    rw [ran] at mem
    cases mem
  | cons p later ih =>
    have rest : ∀ q ∈ later, q.Mildly := fun q mem => mild q (List.mem_cons_of_mem _ mem)
    unfold ran
    split
    · exact ih rest
    · rename_i start left up
      intro q mem
      rcases List.mem_cons.mp mem with rfl | mem
      · exact (run_reaches apart (mild p List.mem_cons_self) up).1
      · exact ih rest q mem

theorem ran_ordered (mild : ∀ p ∈ processes, p.Mildly) :
    (ran P C isKey path disk processes).Pairwise fun q r =>
      q.2.station.fleet.missionEpoch ≤ r.2.station.fleet.missionEpoch := by
  induction processes generalizing disk with
  | nil => exact List.Pairwise.nil
  | cons p later ih =>
    have rest : ∀ q ∈ later, q.Mildly := fun q mem => mild q (List.mem_cons_of_mem _ mem)
    unfold ran
    split
    · exact ih rest
    · rename_i start left up
      have reached := (run_reaches apart (mild p List.mem_cons_self) up).2.1
      exact List.pairwise_cons.mpr ⟨ran_newer apart rest reached, ih rest⟩

/-- However often a vessel is started, and with whatever manifests, those that it comes up with
never fall back in their epochs, nor behind the epoch its journal knew to begin with. -/
theorem epochs_rise (mild : ∀ p ∈ processes, p.Mildly) :
    (∀ q ∈ ran P C isKey path disk processes, ∃ epoch, q.1.Names isKey epoch ∧
      ∀ held, (replay P (disk.read path)).1.epoch = some held → held ≤ epoch) ∧
    (ran P C isKey path disk processes).Pairwise fun q r => ∃ epoch later,
      q.1.Names isKey epoch ∧ r.1.Names isKey later ∧ epoch ≤ later := by
  have names (q) (mem : q ∈ ran P C isKey path disk processes) :
      q.1.Names isKey q.2.station.fleet.missionEpoch :=
    launch_names (ran_launched apart mild q mem)
  constructor
  · intro q mem
    refine ⟨_, names q mem, fun held here => ?_⟩
    exact ran_newer apart mild ⟨held, here, UInt16.le_refl held⟩ q mem
  · refine (ran_ordered apart mild).imp_of_mem ?_
    intro q r first second le
    exact ⟨_, _, names q first, names r second, le⟩

end vessel

/-! ## Without its manifest -/

/-- The second of two vessels is started with what was delivered. -/
def delivered (signed : String) : Process where
  files := Issuing.aboard signed
  now := 6
  options := Issuing.started 1
  entropy := 0
  opening := calm
  entering := calm
  turns := []

/-- It is started as a harness, with no files at all. -/
def bare : Process where
  files := ⟨fun _ => .error "nothing there", fun _ => .error "nothing there"⟩
  now := 6
  options := { Issuing.started 1 with manifest := none, adminKey := none }
  entropy := 0
  opening := calm
  entering := calm
  turns := []

theorem calm_mildly {p : Process} (opening : p.opening = calm) (entering : p.entering = calm)
    (turns : p.turns = []) : p.Mildly := by
  refine ⟨⟨?_, ?_⟩, ?_⟩
  · rw [opening]
    exact calm_noFailure.mild
  · rw [entering]
    exact calm_noFailure.mild
  · rw [turns]
    exact nofun

/-- On an empty disk a process with the seventh epoch's manifest comes up. -/
theorem delivered_up {signed : String} {start : Start plain}
    (launched : launch Issuing.anyKey plain (Issuing.aboard signed) 6
      (Issuing.started 1) = .ok start) (seventh : start.station.fleet.missionEpoch = 7)
    (path : Path) : ∃ left, (delivered signed).run postcard plain Issuing.anyKey
      path Disk.empty = (some start, left) := by
  obtain ⟨j, t, opened, counting⟩ := @NonceFreshness.open_empty path Disk.empty rfl
  obtain ⟨b, made, long⟩ := SeenOnce.encoded_length (P := postcard)
    (e := .epoch start.station.fleet.missionEpoch) (n := 10) (by
      rw [seventh]
      decide +kernel)
  obtain ⟨j', t', booted, -⟩ := SeenOnce.boot_filled opened
    ⟨counting.sound, counting.state, counting.size⟩ rfl made (by
      rw [long]
      decide)
  refine ⟨t', ?_⟩
  have alive : (Lives.dead Disk.empty [] ⟨[], [], []⟩).next postcard start.station path
      (.boot 0 calm calm) = .alive ⟨⟨⟨t', j'⟩, []⟩, .begin start.station j'.state ⟨[], [], []⟩⟩ :=
    SeenOnce.next_boot booted
  simp only [Process.run, delivered, launched, alive]
  rfl

/-- A vessel that came up with its manifest would come up as a harness, but for its journal. -/
theorem epochs_rise_bare : ∃ signed start later,
    launch Issuing.anyKey plain bare.files bare.now bare.options = .ok later ∧
    ran postcard plain Issuing.anyKey ⟨"member", none⟩ Disk.empty
      [delivered signed, bare] = [(delivered signed, start)] := by
  obtain ⟨signed, signs⟩ := Issuing.pair_signs CanonicalForm.header (Or.inl rfl)
  obtain ⟨start, launched⟩ := Issuing.pair_runs (Or.inl rfl) signs
    (Or.inr rfl : 1 = 0 ∨ 1 = 1) (by decide : (5 : UInt64) ≤ 6) (by decide)
  obtain ⟨m, sound⟩ := Issuing.pair_sound signs
  have names {epoch : UInt16} (named : (delivered signed).Names Issuing.anyKey epoch) :
      epoch = 7 := by
    obtain ⟨text, m', here, parsed, rfl⟩ := named
    cases here
    cases sound.parses.symm.trans parsed
    exact (Issuing.pair_signed (Or.inl rfl) signs parsed).1
  have launched' : launch Issuing.anyKey plain (delivered signed).files
      (delivered signed).now (delivered signed).options = .ok start := launched
  obtain ⟨left, up⟩ := delivered_up launched (names (launch_names launched')) ⟨"member", none⟩
  have harnessed : (launch Issuing.anyKey plain bare.files bare.now
      bare.options).isOk = true := by decide +kernel
  have apart : (⟨"member", none⟩ : Path).extension ≠ some "compacting" := by decide
  have mild : ∀ p ∈ [delivered signed, bare], p.Mildly := by
    intro p mem
    rcases List.mem_cons.mp mem with rfl | mem
    · exact calm_mildly rfl rfl rfl
    · rw [List.mem_singleton.mp mem]
      exact calm_mildly rfl rfl rfl
  have ordered := (@epochs_rise postcard plain Issuing.anyKey ⟨"member", none⟩ Disk.empty _ apart
    mild).2
  cases later : launch Issuing.anyKey plain bare.files bare.now bare.options with
  | error e =>
    rw [later] at harnessed
    cases harnessed
  | ok other =>
  refine ⟨signed, start, other, rfl, ?_⟩
  have first : ran postcard plain Issuing.anyKey ⟨"member", none⟩ Disk.empty
      [delivered signed, bare] = (delivered signed, start) ::
        ran postcard plain Issuing.anyKey ⟨"member", none⟩ left [bare] := by
    rw [ran, up]
  rw [first] at ordered ⊢
  suffices refused : ran postcard plain Issuing.anyKey ⟨"member", none⟩ left [bare] = [] by
    rw [refused]
  cases up' : bare.run postcard plain Issuing.anyKey ⟨"member", none⟩ left with
  | mk answer after =>
  cases answer with
  | none =>
    rw [ran, up']
    rfl
  | some again =>
    -- the harness is in the first epoch, behind the seventh
    rw [ran, up'] at ordered
    obtain ⟨epoch, second, named, named', le⟩ :=
      List.rel_of_pairwise_cons ordered List.mem_cons_self
    cases names named
    cases named'
    exact absurd le (by decide)

end SpentEpochs
