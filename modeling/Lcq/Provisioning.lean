import Lcq.Approvals
import Lcq.HandKeys
import Lcq.LawfulFleets
import Lcq.UniformFleets

/-!
# What a node runs with

A node is told who is in its fleet by a manifest that its administrator signed,
checked against a key that was typed in by hand, and it runs with a key of its
own that the manifest names; or it is a harness, and all of it follows from how
many there are. It refuses to run rather than run on less. The files it can
read, and what the system says of those it cannot, are parameters.
-/

namespace Provisioning

open Admission Approvals ByteFormat CanonicalForm Contracts EvaluationLaws FleetFile FleetReading
  FleetSafety HandKeys LawfulFleets OrderedMap Quorum Scenarios Spelling TextLines Utterances Wire

/-! ## Files -/

/-- The permission bits and the text of every file there is, and why the others cannot be read. -/
structure Files where
  mode : String → Except String UInt32
  text : String → Except String String

/-- Why a program does not run. -/
inductive Refusal where
  | required (flag : String)
  | wantsValue (flag : String)
  | notAnOption (flag : String)
  | notSeconds (raw : String)
  | notACommand (command : String)
  | unread (path : String) (why : String)
  | unwritten (path : String) (why : String)
  | readable (path : String) (mode : UInt32)
  | notSixtyFour (path : String)
  | notHexadecimal (path : String)
  /-- A slice that would cut a character in two stops the program. -/
  | cutCharacter (path : String)
  | typed (path : String) (error : HandError)
  | notPublic (path : String)
  | manifest (path : String) (error : ManifestError)
  | policy (error : PolicyError)
  | notAMember (index : Nat)
  | notNamed (index : Nat)
  | fleetSize
  | scale
  | scheduleUnfit
  deriving DecidableEq

def Files.readToString (files : Files) (path : String) : Except Refusal String :=
  (files.text path).mapError (.unread path)

def Files.permissions (files : Files) (path : String) : Except Refusal UInt32 :=
  (files.mode path).mapError (.unread path)

theorem mapError_ok {ε δ α : Type} {a : Except ε α} {f : ε → δ} {x : α} :
    a.mapError f = .ok x ↔ a = .ok x := by
  cases a with
  | error e =>
    constructor
    · nofun
    · nofun
  | ok y =>
    constructor
    · rintro ⟨⟩
      rfl
    · rintro ⟨⟩
      rfl

/-! ## A seed in a file -/

/-- The bits in front of the lowest that is set. -/
def trailingZeros (mode : UInt32) : Nat :=
  ((List.range 32).find? fun i => mode.toNat.testBit i).getD 32

/-- A digit of base sixteen, in either case. -/
def digitOf (byte : UInt8) : Option UInt8 :=
  if 48 ≤ byte ∧ byte ≤ 57 then some (byte - 48)
  else if 97 ≤ byte ∧ byte ≤ 102 then some (byte - 87)
  else if 65 ≤ byte ∧ byte ≤ 70 then some (byte - 55)
  else none

/-- `u8::from_str_radix` on two bytes. It takes a plus sign in front of a digit. -/
def fromStrRadix (high low : UInt8) : Option UInt8 :=
  if high = 43 then digitOf low
  else (digitOf high).bind fun h => (digitOf low).map fun l => h <<< 4 ||| l

/-- The byte goes on with a character that an earlier one began. -/
def continues (byte : UInt8) : Bool := decide (128 ≤ byte ∧ byte < 192)

/-- Two characters a byte. -/
def readPairs (path : String) : Bytes → Except Refusal Bytes
  | [] => .ok []
  | [_] => .error (.notSixtyFour path)
  | high :: low :: rest =>
    if continues high = true ∨ (rest.head?.any continues) = true then .error (.cutCharacter path)
    else
      match fromStrRadix high low with
      | none => .error (.notHexadecimal path)
      | some byte => do
        let bytes ← readPairs path rest
        .ok (byte :: bytes)

/-- Thirty-two bytes of hexadecimal, whatever white space is around them. -/
def seedIn (path : String) (text : String) : Except Refusal SigningKey :=
  let trimmed := asBytes (.ofList (trim text.toList))
  if trimmed.length ≠ 64 then .error (.notSixtyFour path)
  else do
    let bytes ← readPairs path trimmed
    if size : bytes.length = 32 then .ok ⟨bytes, size⟩ else .error (.notSixtyFour path)

/-- This device's signing seed, in a file only its owner can read. The mode is checked before the
bytes are read. -/
def readSeed (files : Files) (path : String) : Except Refusal SigningKey := do
  let mode ← files.permissions path
  if trailingZeros mode < 6 then .error (.readable path mode)
  else
    let text ← files.readToString path
    seedIn path text

/-! ## The fleet -/

/-- Who is in the fleet, and what each member's judgment is worth. -/
structure Charter where
  fleet : Fleet
  policy : Policy

def Charter.of (missionEpoch : UInt16) (ids : List String) : (made : Except PolicyError Policy) →
    (∀ policy, made = .ok policy → ids.Nodup) → Except Refusal Charter
  | .error e, _ => .error (.policy e)
  | .ok policy, distinct => .ok ⟨⟨missionEpoch, ids, distinct policy rfl⟩, policy⟩

theorem charter_ok {missionEpoch : UInt16} {ids : List String} {made : Except PolicyError Policy}
    {distinct : ∀ policy, made = .ok policy → ids.Nodup} {charter : Charter} :
    Charter.of missionEpoch ids made distinct = .ok charter ↔
      charter.fleet.missionEpoch = missionEpoch ∧ charter.fleet.ids = ids ∧
        made = .ok charter.policy := by
  obtain ⟨⟨epoch, named, apart⟩, policy⟩ := charter
  cases made with
  | error e =>
    constructor
    · nofun
    · rintro ⟨-, -, ⟨⟩⟩
  | ok made =>
    constructor
    · rintro ⟨⟩
      exact ⟨rfl, rfl, rfl⟩
    · rintro ⟨rfl, rfl, same⟩
      cases same
      rfl

/-- Nobody is enrolled twice. -/
theorem enrol_once {members : List (String × UInt8)} {before after : Map String Competence}
    (enrolled : enrol before members = .ok after) :
    (members.map Prod.fst).Nodup ∧ ∀ p ∈ members, before[p.1]? = none := by
  induction members generalizing before with
  | nil => exact ⟨List.nodup_nil, nofun⟩
  | cons member members ih =>
    obtain ⟨id, score⟩ := member
    unfold enrol at enrolled
    split at enrolled
    · cases enrolled
    · split at enrolled
      · cases enrolled
      · split at enrolled
        · cases enrolled
        · rename_i competence _ fresh
          obtain ⟨once, new⟩ := ih enrolled
          have later : ∀ p ∈ members, id ≠ p.1 ∧ before[p.1]? = none := by
            intro p mem
            have absent := new p mem
            rw [Std.ExtTreeMap.getElem?_insert] at absent
            split at absent
            · cases absent
            · rename_i other
              exact ⟨fun same => other (by rw [same]; exact Std.ReflCmp.compare_self), absent⟩
          constructor
          · rw [List.map_cons, List.nodup_cons]
            refine ⟨fun mem => ?_, once⟩
            obtain ⟨p, listed, same⟩ := List.mem_map.mp mem
            exact (later p listed).1 same.symm
          · rintro p mem
            rcases List.mem_cons.mp mem with rfl | mem
            · exact Std.ExtTreeMap.getElem?_eq_none (by simpa using fresh)
            · exact (later p mem).2

/-- A policy has one member a name. -/
theorem names_once {members : List (String × UInt8)} {bps ratio : UInt32} {policy : Policy}
    (accepted : Policy.withSettings members bps ratio = .ok policy) :
    (members.map Prod.fst).Nodup :=
  (enrol_once (withSettings_eq_ok accepted).2.2.2).1

/-- The mission epoch of a fleet that no manifest names one for. -/
def missionEpoch : UInt16 := 1

theorem uniform_distinct {size : Nat} {policy : Policy}
    (accepted : Policy.new (Scenarios.standing size) = .ok policy) :
    ((List.range size).map SimAdmission.memberId).Nodup := by
  rw [← UniformFleets.standing_names]
  exact names_once accepted

theorem manifest_distinct {manifest : Manifest} {policy : Policy}
    (accepted : manifest.policy = .ok policy) : (manifest.members.map Member.id).Nodup := by
  have once := names_once accepted
  rwa [FleetFile.standing, List.map_map] at once

/-- The fleet a bare `--fleet N` describes: synthetic names, every member counting the same. -/
def Charter.uniform (size : Nat) : Except Refusal Charter :=
  Charter.of missionEpoch ((List.range size).map SimAdmission.memberId)
    (Policy.new (Scenarios.standing size)) fun _ => uniform_distinct

/-- The fleet a manifest file describes. -/
def Charter.fromManifest (manifest : Manifest) : Except Refusal Charter :=
  Charter.of manifest.epoch (manifest.members.map Member.id) manifest.policy
    fun _ => manifest_distinct

theorem fromManifest_ok {manifest : Manifest} {charter : Charter} :
    Charter.fromManifest manifest = .ok charter ↔ charter.fleet.missionEpoch = manifest.epoch ∧
      charter.fleet.ids = manifest.members.map Member.id ∧
        manifest.policy = .ok charter.policy := charter_ok

/-! ## Provisioning -/

/-- What a node is started with. -/
structure Commands extends Options where
  fleet : Nat
  manifest : Option String
  adminKey : Option String
  signingKey : Option String
  clockEpoch : UInt64

variable (isKey : Hash → Bool) (C : Primitives)

/-- A group key from the name a manifest gives it and the mission epoch. -/
def fixtureForEpoch (groupKeyId : Hash) (epoch : UInt16) : GroupKey :=
  C.blake2s256 (asBytes "lcq-group-key-fixture-v1" ++ groupKeyId.1 ++ be 2 epoch.toNat)

def digest (manifest : Manifest) : Hash := C.blake2s256 manifest.canonicalBytes

/-- Everything a node needs before it may speak. Its own key is the one its fleet knows it by. -/
structure Provision (index : Nat) where
  charter : Charter
  keys : Provisioned
  admin : Option String
  manifestDigest : Option Hash
  keyed : keys.keyring.length = charter.fleet.size
  named : index < charter.fleet.size → keys.keyring[index]? = some (C.verifyingKey keys.signing)

/-- The harness: synthetic members, every key derived from an index. -/
def harness (options : Commands) : Except Refusal (Provision C options.index) :=
  match made : Charter.uniform options.fleet with
  | .error e => .error e
  | .ok charter =>
    have sized : charter.fleet.size = options.fleet := by
      rw [Fleet.size, (charter_ok.mp made).2.1, List.length_map, List.length_range]
    .ok {
      charter
      keys := ⟨keysOf C options.fleet, seedFor options.index, labGroupKey⟩
      admin := none
      manifestDigest := none
      keyed := by rw [sized, keysOf, List.length_map, List.length_range]
      named := fun inside => UniformFleets.keysOf_get C (sized ▸ inside) }

/-- The administration key, as the crew typed it. -/
def readAdmin (files : Files) (path : String) : Except Refusal VerifyingKey := do
  let typed ← files.readToString path
  let bytes ← (decode C typed).mapError (.typed path)
  if isKey bytes = false then .error (.notPublic path) else .ok bytes

/-- A manifest, checked against the administration key at this hour. -/
def readManifest (files : Files) (path : String) (admin : VerifyingKey) (now : UInt64) :
    Except Refusal Manifest := do
  let text ← files.readToString path
  let manifest ← (Manifest.parse isKey text).mapError (.manifest path)
  let _ ← (manifest.verify C admin now).mapError (.manifest path)
  .ok manifest

/-- The key from this device's own file, or the harness derivation. -/
def readSigning (files : Files) (options : Commands) : Except Refusal SigningKey :=
  match options.signingKey with
  | some path => readSeed files path
  | none => .ok (seedFor options.index)

/-- What a node takes from a manifest, if it holds the key that is named for its index. -/
def takeOver (manifest : Manifest) (index : Nat) (admin : VerifyingKey) (signing : SigningKey) :
    Except Refusal (Provision C index) :=
  if named : manifest.keyOf index = some (C.verifyingKey signing) then
    match made : Charter.fromManifest manifest with
    | .error e => .error e
    | .ok charter =>
      .ok {
        charter
        keys := ⟨manifest.members.map Member.key, signing,
          fixtureForEpoch C manifest.groupKeyId manifest.epoch⟩
        admin := some (fingerprint C admin)
        manifestDigest := some (digest C manifest)
        keyed := by rw [Fleet.size, (charter_ok.mp made).2.1, List.length_map, List.length_map]
        named := fun _ => by rw [List.getElem?_map, ← named, Manifest.keyOf] }
  else .error (.notNamed index)

/-- Read the fleet and the keys, and refuse to run rather than run on less. -/
def provision (files : Files) (now : UInt64) (options : Commands) :
    Except Refusal (Provision C options.index) :=
  match options.manifest with
  | none => harness C options
  | some path => do
    let adminPath ← options.adminKey.elim (.error (.required "--admin-key")) .ok
    let admin ← readAdmin isKey C files adminPath
    let manifest ← readManifest isKey C files path admin now
    if manifest.size ≤ options.index then .error (.notAMember options.index)
    else
      let signing ← readSigning files options
      takeOver C manifest options.index admin signing

/-! ## Starting -/

theorem content_size : (List.replicate 32 (0x22 : UInt8)).length = 32 := by decide

/-- The content every node deliberates. -/
def contentHash : Hash := ⟨List.replicate 32 0x22, content_size⟩

theorem claim_named : "mission" ≠ "" ∧ "evt-1" ≠ "" := by decide

/-- The claim, from the instant the clocks of this run count from. -/
def claim (clockEpoch : UInt64) : Subject where
  mission := "mission"
  event := "evt-1"
  revision := 0
  contentHash := contentHash
  startedAt := ⟨clockEpoch⟩
  named := claim_named

/-- What a node starts with, and what it shows of whom it trusts. -/
structure Start where
  station : Station C
  admin : Option String
  manifestDigest : Option Hash

/-- The checks between provisioning and the round. -/
def enlist (options : Commands) (provided : Provision C options.index) :
    Except Refusal (Start C) :=
  let fleet := provided.charter.fleet
  if seated : options.index < fleet.size then
    if sized : 1 ≤ fleet.size ∧ fleet.size ≤ Heard.capacity then
      if options.scale < 1 then .error .scale
      else if scheduled : Schedule.finish options.toOptions fleet.size ≤
          endorsementTargetSeconds then
        .ok {
          station := {
            fleet
            policy := provided.charter.policy
            options := options.toOptions
            keys := provided.keys
            subject := claim options.clockEpoch
            seated
            sized := sized.2
            keyed := provided.keyed
            named := provided.named seated
            scheduled }
          admin := provided.admin
          manifestDigest := provided.manifestDigest }
      else .error .scheduleUnfit
    else .error .fleetSize
  else .error (.notAMember options.index)

def launch (files : Files) (now : UInt64) (options : Commands) : Except Refusal (Start C) := do
  let provided ← provision isKey C files now options
  enlist C options provided

/-- What the log's first line shows a human of whom this node trusts. -/
def trust {C : Primitives} (start : Start C) : String :=
  let epoch := decimal start.station.fleet.missionEpoch.toNat
  match start.admin, start.manifestDigest with
  | some fingerprint, some digest =>
    ",\"epoch\":" ++ epoch ++ ",\"admin\":\"" ++ fingerprint ++ "\",\"manifest\":\""
      ++ hexText digest.1 ++ "\""
  | _, _ => ",\"epoch\":" ++ epoch ++ ",\"provisioning\":\"harness\""

/-! ## What a start rests on -/

section rests

variable {isKey C} {files : Files} {now : UInt64} {options : Commands}

/-- What a node has read when it runs with a manifest: the administrator's key, a manifest that
the administrator signed and whose hour it is, and the key that is named for its own index. -/
structure Read (isKey : Hash → Bool) (C : Primitives) (files : Files) (now : UInt64)
    (options : Commands) (admin : VerifyingKey) (manifest : Manifest) (signing : SigningKey) :
    Prop where
  typed : ∃ path text, options.adminKey = some path ∧ files.text path = .ok text ∧
    decode C text = .ok admin
  isPublic : isKey admin = true
  filed : ∃ path text, options.manifest = some path ∧ files.text path = .ok text ∧
    Manifest.parse isKey text = .ok manifest
  verified : manifest.verify C admin now = .ok ()
  own : readSigning files options = .ok signing
  named : manifest.keyOf options.index = some (C.verifyingKey signing)

/-- What a node takes from it. -/
structure Carries {index : Nat} (provided : Provision C index) (admin : VerifyingKey)
    (manifest : Manifest) (signing : SigningKey) : Prop where
  epoch : provided.charter.fleet.missionEpoch = manifest.epoch
  ids : provided.charter.fleet.ids = manifest.members.map Member.id
  policy : manifest.policy = .ok provided.charter.policy
  keys : provided.keys = ⟨manifest.members.map Member.key, signing,
    fixtureForEpoch C manifest.groupKeyId manifest.epoch⟩
  admin : provided.admin = some (fingerprint C admin)
  digest : provided.manifestDigest = some (digest C manifest)

theorem readToString_ok {path text : String} :
    files.readToString path = .ok text ↔ files.text path = .ok text := mapError_ok

theorem readAdmin_ok {path : String} {admin : VerifyingKey} :
    readAdmin isKey C files path = .ok admin ↔
      (∃ text, files.text path = .ok text ∧ decode C text = .ok admin) ∧ isKey admin = true := by
  simp only [readAdmin, bind_ok, readToString_ok, mapError_ok]
  constructor
  · rintro ⟨text, read, bytes, decoded, rest⟩
    split at rest
    · cases rest
    · rename_i isPublic
      cases rest
      exact ⟨⟨text, read, decoded⟩, by simpa using isPublic⟩
  · rintro ⟨⟨text, read, decoded⟩, isPublic⟩
    exact ⟨text, read, admin, decoded, by rw [if_neg (by rw [isPublic]; nofun)]⟩

theorem readManifest_ok {path : String} {admin : VerifyingKey} {manifest : Manifest} :
    readManifest isKey C files path admin now = .ok manifest ↔
      (∃ text, files.text path = .ok text ∧ Manifest.parse isKey text = .ok manifest) ∧
        manifest.verify C admin now = .ok () := by
  simp only [readManifest, bind_ok, readToString_ok, mapError_ok]
  constructor
  · rintro ⟨text, read, m, parsed, u, verified, ⟨⟩⟩
    exact ⟨⟨text, read, parsed⟩, verified⟩
  · rintro ⟨⟨text, read, parsed⟩, verified⟩
    exact ⟨text, read, manifest, parsed, (), verified, rfl⟩

theorem takeOver_ok {index : Nat} {admin : VerifyingKey} {manifest : Manifest}
    {signing : SigningKey} {provided : Provision C index} :
    takeOver C manifest index admin signing = .ok provided ↔
      manifest.keyOf index = some (C.verifyingKey signing) ∧
        Carries provided admin manifest signing := by
  unfold takeOver
  split
  · rename_i named
    split
    · rename_i e refused
      constructor
      · nofun
      · rintro ⟨-, carries⟩
        have accepted := fromManifest_ok.mpr ⟨carries.epoch, carries.ids, carries.policy⟩
        rw [refused] at accepted
        cases accepted
    · rename_i charter made
      obtain ⟨epoch, ids, policy⟩ := fromManifest_ok.mp made
      constructor
      · rintro ⟨⟩
        exact ⟨named, ⟨epoch, ids, policy, rfl, rfl, rfl⟩⟩
      · rintro ⟨-, carries⟩
        have accepted := fromManifest_ok.mpr ⟨carries.epoch, carries.ids, carries.policy⟩
        rw [made] at accepted
        obtain ⟨charter', keys, admin', digest', keyed, mine⟩ := provided
        obtain ⟨-, -, -, keys_is, admin_is, digest_is⟩ := carries
        cases Except.ok.inj accepted
        cases keys_is
        cases admin_is
        cases digest_is
        rfl
  · rename_i other
    constructor
    · nofun
    · rintro ⟨named, -⟩
      exact absurd named other

/-- A node runs with a manifest exactly if it has read all of it; and then it has the manifest's
own fleet, policy and keys. -/
theorem provision_ok (given : options.manifest ≠ none) {provided : Provision C options.index} :
    provision isKey C files now options = .ok provided ↔ ∃ admin manifest signing,
      Read isKey C files now options admin manifest signing ∧
        Carries provided admin manifest signing := by
  unfold provision
  split
  · rename_i none
    exact absurd none given
  · rename_i path here
    simp only [bind_ok]
    constructor
    · rintro ⟨adminPath, typed, admin, administrator, manifest, checked, rest⟩
      split at rest
      · cases rest
      · obtain ⟨signing, own, taken⟩ := bind_ok.mp rest
        obtain ⟨⟨key, read, decoded⟩, isPublic⟩ := readAdmin_ok.mp administrator
        obtain ⟨⟨text, read', parsed⟩, verified⟩ := readManifest_ok.mp checked
        obtain ⟨named, carries⟩ := takeOver_ok.mp taken
        have path_is : options.adminKey = some adminPath := by
          cases chosen : options.adminKey with
          | none =>
            rw [chosen] at typed
            cases typed
          | some p =>
            rw [chosen] at typed
            cases typed
            rfl
        exact ⟨admin, manifest, signing, ⟨⟨adminPath, key, path_is, read, decoded⟩, isPublic,
          ⟨path, text, here, read', parsed⟩, verified, own, named⟩, carries⟩
    · rintro ⟨admin, manifest, signing, read, carries⟩
      obtain ⟨adminPath, key, path_is, typed, decoded⟩ := read.typed
      obtain ⟨path', text, here', filed, parsed⟩ := read.filed
      cases here.symm.trans here'
      refine ⟨adminPath, by rw [path_is]; rfl, admin,
        readAdmin_ok.mpr ⟨⟨key, typed, decoded⟩, read.isPublic⟩, manifest,
        readManifest_ok.mpr ⟨⟨text, filed, parsed⟩, read.verified⟩, ?_⟩
      have inside : ¬ manifest.size ≤ options.index := by
        intro past
        have named := read.named
        rw [Manifest.keyOf, List.getElem?_eq_none past] at named
        cases named
      rw [if_neg inside, bind_ok]
      exact ⟨signing, read.own, takeOver_ok.mpr ⟨read.named, carries⟩⟩

/-- What it has read is enough: a manifest that parses is a lawful policy. -/
theorem provision_total (given : options.manifest ≠ none) {admin : VerifyingKey}
    {manifest : Manifest} {signing : SigningKey}
    (read : Read isKey C files now options admin manifest signing) :
    ∃ provided, provision isKey C files now options = .ok provided ∧
      Carries provided admin manifest signing := by
  obtain ⟨path, text, -, -, parsed⟩ := read.filed
  obtain ⟨made, stands⟩ := (parse_lawful parsed).stands
  obtain ⟨provided, taken⟩ : ∃ provided, takeOver C manifest options.index admin signing =
      .ok provided := by
    have charter : Charter.fromManifest manifest =
        .ok ⟨⟨manifest.epoch, manifest.members.map Member.id, manifest_distinct stands.accepted⟩,
          made⟩ := fromManifest_ok.mpr ⟨rfl, rfl, stands.accepted⟩
    unfold takeOver
    rw [dif_pos read.named]
    split
    · rename_i e refused
      rw [charter] at refused
      cases refused
    · exact ⟨_, rfl⟩
  have carries := (takeOver_ok.mp taken).2
  exact ⟨provided, (provision_ok given).mpr ⟨admin, manifest, signing, read, carries⟩, carries⟩

/-- What is checked of a node's options, and what it starts with. -/
structure Enlisted (options : Commands) (provided : Provision C options.index) (start : Start C) :
    Prop where
  fleet : start.station.fleet = provided.charter.fleet
  policy : start.station.policy = provided.charter.policy
  obeys : start.station.options = options.toOptions
  keys : start.station.keys = provided.keys
  subject : start.station.subject = claim options.clockEpoch
  admin : start.admin = provided.admin
  manifestDigest : start.manifestDigest = provided.manifestDigest

theorem enlist_shows {provided : Provision C options.index} {start : Start C}
    (enlisted : enlist C options provided = .ok start) : Enlisted options provided start := by
  unfold enlist at enlisted
  dsimp only at enlisted
  split at enlisted
  · split at enlisted
    · split at enlisted
      · cases enlisted
      · split at enlisted
        · cases enlisted
          exact ⟨rfl, rfl, rfl, rfl, rfl, rfl, rfl⟩
        · cases enlisted
    · cases enlisted
  · cases enlisted

theorem enlist_total {provided : Provision C options.index}
    (seated : options.index < provided.charter.fleet.size)
    (sized : 1 ≤ provided.charter.fleet.size ∧ provided.charter.fleet.size ≤ Heard.capacity) :
    (∃ start, enlist C options provided = .ok start) ↔ 1 ≤ options.scale ∧
      Schedule.finish options.toOptions provided.charter.fleet.size ≤
        endorsementTargetSeconds := by
  unfold enlist
  rw [dif_pos seated, dif_pos sized]
  constructor
  · rintro ⟨start, enlisted⟩
    split at enlisted
    · cases enlisted
    · rename_i runs
      split at enlisted
      · rename_i scheduled
        exact ⟨UInt32.not_lt.mp runs, scheduled⟩
      · cases enlisted
  · rintro ⟨runs, scheduled⟩
    rw [if_neg (UInt32.not_lt.mpr runs), dif_pos scheduled]
    exact ⟨_, rfl⟩

/-- A node shows whom it trusts exactly if it runs with a manifest. -/
theorem launch_shows {start : Start C} (launched : launch isKey C files now options = .ok start) :
    start.station.options = options.toOptions ∧
      start.station.subject = claim options.clockEpoch ∧
      (options.manifest = none → start.admin = none ∧ start.manifestDigest = none) ∧
      (options.manifest ≠ none → ∃ admin manifest signing,
        Read isKey C files now options admin manifest signing ∧
        start.station.fleet.missionEpoch = manifest.epoch ∧
        start.station.fleet.ids = manifest.members.map Member.id ∧
        manifest.policy = .ok start.station.policy ∧
        start.station.keys = ⟨manifest.members.map Member.key, signing,
          fixtureForEpoch C manifest.groupKeyId manifest.epoch⟩ ∧
        start.admin = some (fingerprint C admin) ∧
        start.manifestDigest = some (digest C manifest)) := by
  obtain ⟨provided, provisioned, enlisted⟩ := bind_ok.mp launched
  have shows := enlist_shows enlisted
  refine ⟨shows.obeys, shows.subject, fun without => ?_, fun given => ?_⟩
  · rw [shows.admin, shows.manifestDigest]
    unfold provision at provisioned
    rw [without] at provisioned
    dsimp only at provisioned
    unfold harness at provisioned
    split at provisioned
    · cases provisioned
    · cases provisioned
      exact ⟨rfl, rfl⟩
  · obtain ⟨admin, manifest, signing, read, carries⟩ := (provision_ok given).mp provisioned
    refine ⟨admin, manifest, signing, read, ?_, ?_, ?_, ?_, ?_, ?_⟩
    · rw [shows.fleet, carries.epoch]
    · rw [shows.fleet, carries.ids]
    · rw [shows.policy, carries.policy]
    · rw [shows.keys, carries.keys]
    · rw [shows.admin, carries.admin]
    · rw [shows.manifestDigest, carries.digest]

end rests

end Provisioning
