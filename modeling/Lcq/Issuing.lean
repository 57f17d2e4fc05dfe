import Lcq.ManifestSigning
import Lcq.Provisioning

/-!
# What the administrator runs

The tool at both ends of a manifest: it prints the public half of a key for a
card, it signs a manifest, and it checks one. What it signs is what a vessel
runs with, if its crew has typed in what is on the card, in its hours and with
the key it names; and what the card, the tool and the vessel show is the same.
-/

namespace Issuing

open ByteFormat CanonicalForm Contracts FleetFile FleetReading HandKeys LawfulFleets
  ManifestSigning Provisioning Spelling TextLines Utterances Wire

/-! ## Options -/

structure Options where
  key : Option String
  adminKey : Option String
  input : Option String
  output : Option String
  now : Option UInt64

namespace Options

def default : Options := ⟨none, none, none, none, none⟩

/-- A number of seconds, with or without a plus sign. -/
def seconds (raw : String) : Except Refusal UInt64 :=
  let digits := if raw.toList.head? = some '+' then raw.toList.tail else raw.toList
  match Spelling.parse maxU64 digits with
  | none => .error (.notSeconds raw)
  | some value => .ok (.ofNat value)

def isFlag (flag : String) : Bool :=
  ["--key", "--admin-key", "--in", "--out", "--now"].contains flag

def set (options : Options) (flag value : String) : Except Refusal Options :=
  match flag with
  | "--key" => .ok { options with key := some value }
  | "--admin-key" => .ok { options with adminKey := some value }
  | "--in" => .ok { options with input := some value }
  | "--out" => .ok { options with output := some value }
  | "--now" => do
    let now ← seconds value
    .ok { options with now := some now }
  | other => .error (.notAnOption other)

def read (options : Options) : List String → Except Refusal Options
  | [] => .ok options
  | [flag] => .error (if isFlag flag = true then .wantsValue flag else .notAnOption flag)
  | flag :: value :: rest => do
    let options ← options.set flag value
    read options rest

end Options

def need (path : Option String) (flag : String) : Except Refusal String :=
  path.elim (.error (.required flag)) .ok

/-! ## Keys -/

/-- A secret that the group or the world can read is refused before it is read. -/
def refuseIfReadable (files : Files) (path : String) : Except Refusal Unit := do
  let mode ← files.permissions path
  if mode &&& 0o077 ≠ 0 then .error (.readable path mode) else .ok ()

/-- The administrator's secret. -/
def readSecret (files : Files) (path : String) : Except Refusal SigningKey := do
  refuseIfReadable files path
  let text ← files.readToString path
  seedIn path text

theorem trailingZeros_le {mode : UInt32} {n : Nat} (le : n ≤ 32) :
    n ≤ trailingZeros mode ↔ ∀ i < n, mode.toNat.testBit i = false := by
  unfold trailingZeros
  cases found : (List.range 32).find? fun i => mode.toNat.testBit i with
  | none =>
    rw [List.find?_eq_none] at found
    constructor
    · intro _ i lt
      simpa using found i (List.mem_range.mpr (Nat.lt_of_lt_of_le lt le))
    · exact fun _ => le
  | some k =>
    rw [List.find?_range_eq_some] at found
    obtain ⟨set, inside, clear⟩ := found
    constructor
    · intro below i lt
      rw [Option.getD_some] at below
      simpa using clear i (by omega)
    · intro all
      rw [Option.getD_some]
      by_contra above
      have := all k (by omega)
      rw [this] at set
      cases set

theorem private_iff (mode : UInt32) : mode &&& 0o077 = 0 ↔ 6 ≤ trailingZeros mode := by
  have mask : mode.toNat &&& 63 = mode.toNat % 2 ^ 6 := Nat.and_two_pow_sub_one_eq_mod _ 6
  have low : (mode &&& 0o077).toNat = mode.toNat % 2 ^ 6 := by rw [UInt32.toNat_and, ← mask]; rfl
  rw [trailingZeros_le (by omega), ← UInt32.toNat_inj, low]
  constructor
  · intro none i lt
    have bit := Nat.testBit_mod_two_pow mode.toNat 6 i
    rw [none] at bit
    simpa [lt] using bit.symm
  · intro clear
    apply Nat.eq_of_testBit_eq
    intro i
    rw [Nat.testBit_mod_two_pow]
    by_cases lt : i < 6
    · simp [clear i lt]
    · simp [lt]

/-- The tool and the node ask the same of a file with a secret in it. -/
theorem readSecret_eq (files : Files) (path : String) :
    readSecret files path = readSeed files path := by
  unfold readSecret readSeed refuseIfReadable
  cases files.permissions path with
  | error e => rfl
  | ok mode =>
    by_cases hidden : mode &&& 0o077 = 0
    · have low := (private_iff mode).mp hidden
      simp only [bind, Except.bind, hidden, ne_eq, not_true_eq_false, if_false,
        Nat.not_lt.mpr low]
    · have low : trailingZeros mode < 6 :=
        Nat.lt_of_not_le fun low => hidden ((private_iff mode).mpr low)
      simp only [bind, Except.bind, hidden, ne_eq, not_false_eq_true, if_true, low]

/-! ## Commands -/

variable (isKey : Hash → Bool) (C : Primitives)

/-- What goes on the card, and what a node prints back at every start. -/
structure Card where
  key : String
  fingerprint : String
  deriving DecidableEq

def Card.lines (card : Card) : List String :=
  ["# Put this on the card. A vessel's crew types it in once.", card.key, "",
    "# And this is what the node prints back at every start.", card.fingerprint]

def fingerprint (files : Files) (options : Options) : Except Refusal Card := do
  let path ← need options.key "--key"
  let key ← readSecret files path
  let shown := C.verifyingKey key
  .ok ⟨encode C shown, FleetFile.fingerprint C shown⟩

/-- A signed manifest goes into a file, or to the standard output. -/
structure Issued where
  text : String
  path : Option String
  deriving DecidableEq

/-- Sign a manifest. `unwritable` is why a file could not be written, if it could not. -/
def sign (files : Files) (unwritable : String → Option String) (options : Options) :
    Except Refusal Issued := do
  let keyPath ← need options.key "--key"
  let input ← need options.input "--in"
  let key ← readSecret files keyPath
  let text ← files.readToString input
  let signed ← (Manifest.signText isKey C text key).mapError (.manifest input)
  match options.output.bind fun path => (unwritable path).map (Refusal.unwritten path) with
  | some why => .error why
  | none => .ok ⟨signed, options.output⟩

def memberLine (member : Member) : String :=
  "  " ++ decimal member.index.toNat ++ " " ++ decimal member.competence.toNat ++ " " ++ member.id

/-- What is printed of a manifest that verified. -/
def shows (manifest : Manifest) (admin : VerifyingKey) (now : UInt64) : List String :=
  ["epoch " ++ decimal manifest.epoch.toNat,
    "valid " ++ decimal manifest.validFrom.toNat ++ " to " ++ decimal manifest.validUntil.toNat
      ++ " (now " ++ decimal now.toNat ++ ")",
    "verified-by " ++ FleetFile.fingerprint C admin,
    "issuer-claims " ++ manifest.issuer ++ " (unsigned)",
    "members " ++ decimal manifest.size]
    ++ manifest.members.map memberLine
    ++ ["manifest " ++ hexText (digest C manifest).1]

/-- Check a manifest, at the given hour or at that of the clock. -/
def verify (files : Files) (clock : UInt64) (options : Options) : Except Refusal (List String) := do
  let keyPath ← need options.adminKey "--admin-key"
  let input ← need options.input "--in"
  let admin ← readAdmin isKey C files keyPath
  let now := options.now.getD clock
  let manifest ← readManifest isKey C files input admin now
  .ok (shows C manifest admin now)

/-- What the tool does for a command line. -/
inductive Done where
  | card (card : Card)
  | issued (issued : Issued)
  | checked (lines : List String)

def main (files : Files) (unwritable : String → Option String) (clock : UInt64)
    (args : List String) : Except Refusal Done := do
  let options ← Options.default.read args.tail
  match args.headD "" with
  | "fingerprint" => (fingerprint C files options).map .card
  | "sign" => (sign isKey C files unwritable options).map .issued
  | "verify" => (verify isKey C files clock options).map .checked
  | other => .error (.notACommand other)

/-! ## From the card to the start -/

section issue

variable {isKey C} {desk files : Files} {unwritable : String → Option String} {tool : Options}
  {options : Commands} {card : Card} {issued : Issued} {now : UInt64}

theorem need_ok {path : Option String} {flag file : String} :
    need path flag = .ok file ↔ path = some file := by
  cases path with
  | none =>
    constructor
    · nofun
    · nofun
  | some p =>
    constructor
    · rintro ⟨⟩
      rfl
    · rintro ⟨⟩
      rfl

theorem fingerprint_ok (carded : fingerprint C desk tool = .ok card) : ∃ path admin,
    tool.key = some path ∧ readSecret desk path = .ok admin ∧
      card = ⟨encode C (C.verifyingKey admin), FleetFile.fingerprint C (C.verifyingKey admin)⟩ := by
  simp only [fingerprint, bind_ok, need_ok] at carded
  obtain ⟨path, here, admin, read, done⟩ := carded
  exact ⟨path, admin, here, read, (Except.ok.inj done).symm⟩

theorem sign_ok (signed : sign isKey C desk unwritable tool = .ok issued) : ∃ path admin text,
    tool.key = some path ∧ readSecret desk path = .ok admin ∧
      Manifest.signText isKey C text admin = .ok issued.text := by
  simp only [sign, bind_ok, need_ok, mapError_ok] at signed
  obtain ⟨path, here, input, -, admin, read, text, -, out, signs, done⟩ := signed
  refine ⟨path, admin, text, here, read, ?_⟩
  split at done
  · cases done
  · cases done
    exact signs

/-- A vessel holds what was issued, and the key of the card as its crew typed it. -/
structure Delivered (card : Card) (issued : Issued) (files : Files) (options : Commands) :
    Prop where
  filed : ∃ path, options.manifest = some path ∧ files.text path = .ok issued.text
  typed : ∃ path text, options.adminKey = some path ∧ files.text path = .ok text ∧
    canonical text.toList = canonical card.key.toList

/-- The hours of a manifest. -/
def InForce (m : Manifest) (now : UInt64) : Prop := m.validFrom ≤ now ∧ now < m.validUntil

/-- The tool's own check, on a vessel. -/
def check (isKey : Hash → Bool) (C : Primitives) (files : Files) (options : Commands)
    (now : UInt64) : Except Refusal (List String) :=
  verify isKey C files now
    { Options.default with adminKey := options.adminKey, input := options.manifest }

/-- What was issued, under the key on the card. -/
structure Sound (isKey : Hash → Bool) (C : Primitives) (card : Card) (issued : Issued)
    (admin : VerifyingKey) (m : Manifest) : Prop where
  isPublic : isKey admin = true
  key : card.key = encode C admin
  fingerprint : card.fingerprint = FleetFile.fingerprint C admin
  parses : Manifest.parse isKey issued.text = .ok m
  verifies : ∀ now, m.verify C admin now = .ok () ↔ InForce m now

/-- What a key signs is sound under the card made of it. -/
theorem signed_sound (correct : ∀ key message,
      C.verifyStrict (C.verifyingKey key) message (C.sign key message) = true)
    {text : String} {admin : SigningKey} (isPublic : isKey (C.verifyingKey admin) = true)
    (signs : Manifest.signText isKey C text admin = .ok issued.text) :
    ∃ m, Sound isKey C
      ⟨encode C (C.verifyingKey admin), FleetFile.fingerprint C (C.verifyingKey admin)⟩ issued
      (C.verifyingKey admin) m := by
  obtain ⟨parts, bytes, read, canonical, out⟩ := signText_ok.mp signs
  obtain ⟨m, parses, -, -, verifies⟩ := (signed_finished correct read canonical admin).verifies
  rw [← out] at parses
  exact ⟨m, isPublic, rfl, rfl, parses, verifies⟩

theorem issued_sound (correct : ∀ key message,
      C.verifyStrict (C.verifyingKey key) message (C.sign key message) = true)
    (keys : ∀ seed, isKey (C.verifyingKey seed) = true)
    (carded : fingerprint C desk tool = .ok card)
    (signed : sign isKey C desk unwritable tool = .ok issued) :
    ∃ admin m, Sound isKey C card issued admin m := by
  obtain ⟨path, admin, here, secret, rfl⟩ := fingerprint_ok carded
  obtain ⟨path', admin', text, here', secret', signs⟩ := sign_ok signed
  cases here.symm.trans here'
  cases secret.symm.trans secret'
  exact ⟨_, signed_sound correct (keys admin) signs⟩

/-- The key that the crew typed in is the key on the card. -/
theorem delivered_typed {admin : VerifyingKey} {m : Manifest}
    (sound : Sound isKey C card issued admin m)
    (delivered : Delivered card issued files options) :
    ∃ path text, options.adminKey = some path ∧ files.text path = .ok text ∧
      decode C text = .ok admin := by
  obtain ⟨path, text, held, entered, spelled⟩ := delivered.typed
  refine ⟨path, text, held, entered, ?_⟩
  rw [decode_ok, spelled, sound.key, canonical_encode]

/-- A vessel that has all of this reads exactly what was issued. -/
theorem delivered_read {admin : VerifyingKey} {m : Manifest}
    (sound : Sound isKey C card issued admin m) (delivered : Delivered card issued files options)
    {admin' : VerifyingKey} {m' : Manifest} {signing : SigningKey} :
    Read isKey C files now options admin' m' signing ↔ admin' = admin ∧ m' = m ∧
      InForce m now ∧ readSigning files options = .ok signing ∧
        m.keyOf options.index = some (C.verifyingKey signing) := by
  obtain ⟨path, given, filed⟩ := delivered.filed
  obtain ⟨adminPath, typed, held, entered, decoded⟩ := delivered_typed sound delivered
  constructor
  · rintro ⟨⟨path', text, held', entered', read⟩, -, ⟨path'', text', given', filed', parsed⟩,
      verified, own, named⟩
    cases held.symm.trans held'
    cases entered.symm.trans entered'
    cases decoded.symm.trans read
    cases given.symm.trans given'
    cases filed.symm.trans filed'
    cases sound.parses.symm.trans parsed
    exact ⟨rfl, rfl, (sound.verifies now).mp verified, own, named⟩
  · rintro ⟨rfl, rfl, inForce, own, named⟩
    exact ⟨⟨adminPath, typed, held, entered, decoded⟩, sound.isPublic,
      ⟨path, issued.text, given, filed, sound.parses⟩, (sound.verifies now).mpr inForce, own, named⟩

theorem delivered_given (delivered : Delivered card issued files options) :
    options.manifest ≠ none := by
  obtain ⟨path, given, -⟩ := delivered.filed
  rw [given]
  rintro ⟨⟩

theorem check_ok {admin : VerifyingKey} {m : Manifest} (sound : Sound isKey C card issued admin m)
    (delivered : Delivered card issued files options) {lines : List String} :
    check isKey C files options now = .ok lines ↔
      InForce m now ∧ lines = shows C m admin now := by
  obtain ⟨path, given, filed⟩ := delivered.filed
  obtain ⟨adminPath, typed, held, entered, decoded⟩ := delivered_typed sound delivered
  have administrator : readAdmin isKey C files adminPath = .ok admin :=
    readAdmin_ok.mpr ⟨⟨typed, entered, decoded⟩, sound.isPublic⟩
  simp only [check, verify, bind_ok, need_ok]
  constructor
  · rintro ⟨_, held', _, given', _, administrator', m', read, done⟩
    cases held.symm.trans held'
    cases given.symm.trans given'
    cases administrator.symm.trans administrator'
    obtain ⟨⟨text, filed', parsed⟩, verified⟩ := readManifest_ok.mp read
    cases filed.symm.trans filed'
    cases sound.parses.symm.trans parsed
    exact ⟨(sound.verifies now).mp verified, (Except.ok.inj done).symm⟩
  · rintro ⟨inForce, rfl⟩
    exact ⟨adminPath, held, path, given, admin, administrator, m, readManifest_ok.mpr
      ⟨⟨issued.text, filed, sound.parses⟩, (sound.verifies now).mpr inForce⟩, rfl⟩

/-- When a vessel that has all of this runs. -/
theorem delivered_launches {admin : VerifyingKey} {m : Manifest}
    (sound : Sound isKey C card issued admin m)
    (delivered : Delivered card issued files options) :
    (∃ start, launch isKey C files now options = .ok start) ↔ InForce m now ∧
      (∃ signing, readSigning files options = .ok signing ∧
        m.keyOf options.index = some (C.verifyingKey signing)) ∧ 1 ≤ options.scale ∧
      Schedule.finish options.toOptions m.size ≤ endorsementTargetSeconds := by
  have given := delivered_given delivered
  have lawful := parse_lawful sound.parses
  -- the fleet of a vessel that runs is the manifest's
  have fleet {provided : Provision C options.index} {admin' : VerifyingKey} {m' : Manifest}
      {signing : SigningKey} (carries : Carries provided admin' m' signing) :
      provided.charter.fleet.size = m'.size := by
    rw [Fleet.size, carries.ids, List.length_map, Manifest.size]
  have seated {signing : SigningKey}
      (named : m.keyOf options.index = some (C.verifyingKey signing)) :
      options.index < m.size := by
    by_contra past
    rw [(lawful.nobody options.index (Nat.le_of_not_lt past)).2] at named
    cases named
  constructor
  · rintro ⟨start, launched⟩
    obtain ⟨provided, provisioned, enlisted⟩ := bind_ok.mp launched
    obtain ⟨admin', m', signing, read, carries⟩ := (provision_ok given).mp provisioned
    obtain ⟨-, rfl, inForce, own, named⟩ := (delivered_read sound delivered).mp read
    have size := fleet carries
    have sized : 1 ≤ m'.size ∧ m'.size ≤ 64 := ⟨lawful.manned, lawful.small⟩
    have fits := (enlist_total (size ▸ seated named) (size ▸ sized)).mp ⟨start, enlisted⟩
    rw [size] at fits
    exact ⟨inForce, ⟨signing, own, named⟩, fits⟩
  · rintro ⟨inForce, ⟨signing, own, named⟩, fits⟩
    have read : Read isKey C files now options admin m signing :=
      (delivered_read sound delivered).mpr ⟨rfl, rfl, inForce, own, named⟩
    obtain ⟨provided, provisioned, carries⟩ := provision_total given read
    have size := fleet carries
    have sized : 1 ≤ m.size ∧ m.size ≤ 64 := ⟨lawful.manned, lawful.small⟩
    rw [← size] at fits
    obtain ⟨start, enlisted⟩ := (enlist_total (size ▸ seated named) (size ▸ sized)).mpr fits
    exact ⟨start, bind_ok.mpr ⟨provided, provisioned, enlisted⟩⟩

/-- A vessel that was handed what the administrator signed, and whose crew typed in the card in
any way that reads as it, runs exactly in the manifest's hours and with the key that it names, if
its schedule fits; and then the card, the tool and the vessel all show the same. -/
theorem issued_runs (correct : ∀ key message,
      C.verifyStrict (C.verifyingKey key) message (C.sign key message) = true)
    (keys : ∀ seed, isKey (C.verifyingKey seed) = true)
    (carded : fingerprint C desk tool = .ok card)
    (signed : sign isKey C desk unwritable tool = .ok issued) :
    ∃ m, Manifest.parse isKey issued.text = .ok m ∧ ∀ files options,
      Delivered card issued files options → ∀ now,
        ((∃ lines, check isKey C files options now = .ok lines) ↔ InForce m now) ∧
        ((∃ start, launch isKey C files now options = .ok start) ↔ InForce m now ∧
          (∃ signing, readSigning files options = .ok signing ∧
            m.keyOf options.index = some (C.verifyingKey signing)) ∧ 1 ≤ options.scale ∧
          Schedule.finish options.toOptions m.size ≤ endorsementTargetSeconds) ∧
        ∀ start, launch isKey C files now options = .ok start →
          start.admin = some card.fingerprint ∧ ∃ lines digest,
            check isKey C files options now = .ok lines ∧
            "verified-by " ++ card.fingerprint ∈ lines ∧
            start.manifestDigest = some digest ∧
            lines.getLast? = some ("manifest " ++ hexText digest.1) := by
  obtain ⟨admin, m, sound⟩ := issued_sound correct keys carded signed
  refine ⟨m, sound.parses, fun files options delivered now => ⟨?_, ?_, ?_⟩⟩
  · constructor
    · rintro ⟨lines, checked⟩
      exact ((check_ok sound delivered).mp checked).1
    · intro inForce
      exact ⟨_, (check_ok sound delivered).mpr ⟨inForce, rfl⟩⟩
  · exact delivered_launches sound delivered
  · intro start launched
    obtain ⟨-, -, -, runs⟩ := launch_shows launched
    obtain ⟨admin', m', signing, read, -, -, -, -, shown, shown'⟩ :=
      runs (delivered_given delivered)
    obtain ⟨rfl, rfl, inForce, -, -⟩ := (delivered_read sound delivered).mp read
    rw [sound.fingerprint]
    refine ⟨shown, _, _, (check_ok sound delivered).mpr ⟨inForce, rfl⟩, ?_, shown', ?_⟩
    · simp [shows]
    · rw [shows]
      exact List.getLast?_concat

/-- What a signed text has of the text that was signed. -/
theorem signed_states {text out : String} {admin : SigningKey} {m : Manifest}
    (signs : Manifest.signText isKey C text admin = .ok out)
    (parses : Manifest.parse isKey out = .ok m) : ∃ parts,
      Parts.read isKey text false = .ok parts ∧ m.members = Parts.sortByIndex parts.members ∧
        m.epoch = parts.epoch.getD 0 ∧ m.validFrom = parts.validFrom.getD 0 ∧
          m.validUntil = parts.validUntil.getD 0 := by
  obtain ⟨parts, bytes, read, -, rfl⟩ := signText_ok.mp signs
  refine ⟨parts, read, ?_⟩
  rw [Manifest.parse, read_finished read (fingerprint_plain C _)] at parses
  obtain ⟨_, same, finishes⟩ := bind_ok.mp parses
  cases same
  simp only [Parts.finish, bind_ok] at finishes
  obtain ⟨settled, settles, _, -, done⟩ := finishes
  obtain ⟨-, rfl⟩ := settle_ok.mp settles
  cases done
  exact ⟨rfl, rfl, rfl, rfl⟩

end issue

/-! ## A fleet of two -/

/-- Two members, each under the harness's key for its index. -/
def pair (header : List Char) : List Char :=
  header ++ "group-key ".toList ++ List.replicate 62 '0' ++ "a1\nbyzantine-bps 0\n".toList
    ++ "max-competence-ratio 3\n".toList ++ "phy-profile eu868-sf10-v1\n".toList
    ++ "heard-capacity 64\nmember 0 100 ".toList ++ List.replicate 15 '0' ++ ['1']
    ++ List.replicate 48 '0' ++ " ship-a\nmember 1 100 ".toList ++ List.replicate 15 '0' ++ ['2']
    ++ List.replicate 48 '0' ++ " ship-b\n".toList

/-- The administrator's files. -/
def desk : Files where
  mode path := if path = "admin.key" then .ok 0o600 else .error "nothing there"
  text path :=
    if path = "admin.key" then .ok (.ofList (List.replicate 62 '0' ++ ['0', '7', '\n']))
    else if path = "fleet" then .ok (.ofList (pair header))
    else if path = "reordered" then .ok (.ofList (pair reordered))
    else .error "nothing there"

def signing (input : String) : Options :=
  { Options.default with key := some "admin.key", input := some input }

theorem sevenLast_size : (List.replicate 31 (0 : UInt8) ++ [7]).length = 32 := by decide

def admin : SigningKey := ⟨List.replicate 31 0 ++ [7], sevenLast_size⟩

theorem admin_read : readSecret desk "admin.key" = .ok admin := by
  have text : seedIn "admin.key" (.ofList (List.replicate 62 '0' ++ ['0', '7', '\n'])) =
      .ok admin := by
    simp only [seedIn, String.toList_ofList, asBytes_ofList]
    decide +kernel
  exact text

def anyKey : Hash → Bool := fun _ => true

theorem pair_signs (front : List Char) (known : front = header ∨ front = reordered) :
    ∃ out, Manifest.signText anyKey plain (.ofList (pair front)) admin = .ok out := by
  have ok : (Manifest.signText anyKey plain (.ofList (pair front)) admin).isOk = true := by
    simp only [Manifest.signText, Parts.read, Manifest.fleetText, String.toList_ofList]
    rcases known with rfl | rfl
    · decide +kernel
    · decide +kernel
  cases signs : Manifest.signText anyKey plain (.ofList (pair front)) admin with
  | error e =>
    rw [signs] at ok
    cases ok
  | ok out => exact ⟨out, rfl⟩

theorem pair_states (front : List Char) (known : front = header ∨ front = reordered) :
    ((Parts.read anyKey (.ofList (pair front)) false).toOption.map fun parts =>
      ((Parts.sortByIndex parts.members).map Member.key, parts.epoch, parts.validFrom,
        parts.validUntil)) =
    some ([Scenarios.seedFor 0, Scenarios.seedFor 1], some 7, some 5, some 9) := by
  simp only [Parts.read, String.toList_ofList]
  rcases known with rfl | rfl
  · decide +kernel
  · decide +kernel

/-- The two signed texts name both keys in epoch 7, from the fifth second to the ninth. -/
theorem pair_signed {front : List Char} (known : front = header ∨ front = reordered) {out : String}
    {m : Manifest} (signs : Manifest.signText anyKey plain (.ofList (pair front)) admin = .ok out)
    (parses : Manifest.parse anyKey out = .ok m) :
    m.epoch = 7 ∧ m.size = 2 ∧ (∀ index, index = 0 ∨ index = 1 →
      m.keyOf index = some (plain.verifyingKey (Scenarios.seedFor index))) ∧
    ∀ now, 5 ≤ now → now < 9 → InForce m now := by
  obtain ⟨parts, read, members, epoch, validFrom, validUntil⟩ := signed_states signs parses
  have states := pair_states front known
  rw [read] at states
  obtain ⟨keys, rest⟩ := Prod.mk.inj (Option.some.inj states)
  obtain ⟨seventh, ends⟩ := Prod.mk.inj rest
  obtain ⟨first, last⟩ := Prod.mk.inj ends
  rw [← members] at keys
  rw [seventh] at epoch
  rw [first] at validFrom
  rw [last] at validUntil
  refine ⟨epoch, ?_, ?_, ?_⟩
  · have two := congrArg List.length keys
    rw [List.length_map] at two
    exact two
  · intro index inside
    rw [Manifest.keyOf, ← List.getElem?_map, keys]
    rcases inside with rfl | rfl
    · rfl
    · rfl
  · intro now opened stays
    rw [InForce, validFrom, validUntil]
    exact ⟨opened, stays⟩

/-- What a vessel of the two holds: the signed text, and the card's key in lower case. -/
def aboard (signed : String) : Files where
  mode _ := .error "nothing there"
  text path :=
    if path = "fleet.signed" then .ok signed
    else if path = "admin.pub" then
      .ok (.ofList (" ".toList ++ (encode plain admin).toList.map Char.toLower))
    else .error "nothing there"

def started (index : Nat) : Commands where
  index
  slots := true
  guardMs := 200
  scale := 100
  ignoreAcks := false
  attempts := 1
  fleet := 5
  manifest := some "fleet.signed"
  adminKey := some "admin.pub"
  signingKey := none
  clockEpoch := 1000000

def cardOfTwo : Card := ⟨encode plain admin, FleetFile.fingerprint plain admin⟩

theorem card_of_two (input : String) : fingerprint plain desk (signing input) = .ok cardOfTwo := by
  simp only [fingerprint, bind_ok, need_ok]
  exact ⟨"admin.key", rfl, admin, admin_read, rfl⟩

theorem delivered_two (signed : String) (index : Nat) :
    Delivered cardOfTwo ⟨signed, none⟩ (aboard signed) (started index) := by
  refine ⟨⟨"fleet.signed", rfl, rfl⟩, "admin.pub", _, rfl, rfl, ?_⟩
  simp only [cardOfTwo, encode, String.toList_ofList]
  decide +kernel

theorem pair_sound {front : List Char} {out : String}
    (signs : Manifest.signText anyKey plain (.ofList (pair front)) admin = .ok out) :
    ∃ m, Sound anyKey plain cardOfTwo ⟨out, none⟩ admin m := by
  have correct : ∀ key message,
      plain.verifyStrict (plain.verifyingKey key) message (plain.sign key message) = true :=
    fun _ _ => decide_eq_true rfl
  exact signed_sound correct rfl signs

/-- Either of the two vessels runs, in any of the manifest's hours. -/
theorem pair_runs {front : List Char} (known : front = header ∨ front = reordered) {out : String}
    (signs : Manifest.signText anyKey plain (.ofList (pair front)) admin = .ok out) {index : Nat}
    (inside : index = 0 ∨ index = 1) {now : UInt64} (opened : 5 ≤ now) (stays : now < 9) :
    ∃ start, launch anyKey plain (aboard out) now (started index) = .ok start := by
  obtain ⟨m, sound⟩ := pair_sound signs
  obtain ⟨-, two, named, inForce⟩ := pair_signed known signs sound.parses
  have runs : (1 : UInt32) ≤ 100 := by decide
  refine (delivered_launches sound (delivered_two out index)).mpr
    ⟨inForce now opened stays, ⟨Scenarios.seedFor index, rfl, named index inside⟩, runs, ?_⟩
  rw [two]
  rcases inside with rfl | rfl
  · decide +kernel
  · decide +kernel

/-- The second of two vessels runs in the sixth second, and shows what is on the card. -/
theorem issued_runs_second : ∃ signed start,
    sign anyKey plain desk (fun _ => none) (signing "fleet") = .ok ⟨signed, none⟩ ∧
    launch anyKey plain (aboard signed) 6 (started 1) = .ok start ∧
    start.admin = some cardOfTwo.fingerprint := by
  obtain ⟨signed, signs⟩ := pair_signs header (Or.inl rfl)
  have issues : sign anyKey plain desk (fun _ => none) (signing "fleet") = .ok ⟨signed, none⟩ := by
    simp only [sign, bind_ok, need_ok, mapError_ok]
    exact ⟨"admin.key", rfl, "fleet", rfl, admin, admin_read, .ofList (pair header), rfl, signed,
      signs, rfl⟩
  obtain ⟨m, parses, runs⟩ := issued_runs (fun _ _ => decide_eq_true rfl) (fun _ => rfl)
    (card_of_two "fleet") issues
  obtain ⟨-, two, named, inForce⟩ := pair_signed (Or.inl rfl) signs parses
  obtain ⟨-, runs, shows⟩ := runs (aboard signed) (started 1) (delivered_two signed 1) 6
  obtain ⟨start, launched⟩ := runs.mpr ⟨inForce 6 (by decide) (by decide),
    ⟨Scenarios.seedFor 1, rfl, named 1 (Or.inr rfl)⟩, by decide, by
      rw [two]
      decide +kernel⟩
  exact ⟨signed, start, issues, launched, (shows start launched).1⟩

end Issuing
