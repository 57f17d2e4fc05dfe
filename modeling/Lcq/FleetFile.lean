import Lcq.Quorum
import Lcq.Spelling
import Lcq.TextLines
import Lcq.Wire
import Mathlib.Data.List.Sort

/-!
# The fleet manifest as a signed file

A text with one directive a line becomes a manifest, or is refused with the
line that is wrong. What is signed is a canonical form built after parsing. The
signature primitives are parameters, and so is which bytes are a public key; a
key is the bytes it was read from.
-/

namespace FleetFile

open ByteFormat Contracts Quorum Spelling TextLines Wire

abbrev Word := String

def manifestVersion : UInt32 := 2
def canonicalDomain : Bytes := asBytes "lcq-manifest-v2"
def versionByte : UInt8 := 2
def maxLabelBytes : Nat := 32
def phyProfileName : String := "eu868-sf10-v1"

inductive ManifestError where
  | unknownDirective (line : Nat) (word : String)
  | malformed (line : Nat) (expected : String)
  | notANumber (line : Nat) (field : String)
  | notCanonicalNumber (line : Nat) (field : String)
  | notHex (line : Nat) (field : String) (bytes : Nat)
  | missingDirective (directive : String)
  | unsupportedVersion (line : Nat) (version : UInt32)
  | repeated (line : Nat) (directive : String)
  | outOfOrder (line : Nat) (directive : String)
  | labelCharset (line : Nat) (id : String)
  | labelTooLong (line : Nat) (found : Nat)
  | notAKey (line : Nat) (index : Nat)
  | duplicateIndex (line : Nat) (index : Nat)
  | duplicateId (line : Nat) (id : String)
  | duplicateKey (line : Nat) (index : Nat)
  | noMembers
  | indicesNotContiguous (missing : Nat) (size : Nat)
  | fleetTooLarge (size : Nat) (max : Nat)
  | phyProfileMismatch (line : Nat) (found : String) (expected : String)
  | heardCapacityMismatch (line : Nat) (found : Nat) (expected : Nat)
  | validityInverted (validFrom : UInt64) (validUntil : UInt64)
  | badSignature
  | notYetValid (validFrom : UInt64) (now : UInt64)
  | expired (validUntil : UInt64) (now : UInt64)
  | policy (error : PolicyError)
  deriving DecidableEq

/-- The index a frame names a member by, what its judgment is worth, its key and its label. -/
structure Member where
  index : UInt16
  competence : UInt8
  key : VerifyingKey
  id : String
  deriving DecidableEq

structure Manifest where
  epoch : UInt16
  validFrom : UInt64
  validUntil : UInt64
  groupKeyId : Hash
  byzantineBps : UInt32
  maxCompetenceRatio : UInt32
  phyProfile : String
  heardCapacity : UInt16
  members : List Member
  issuer : String
  signature : Signature
  deriving DecidableEq

/-- What a manifest file said, before any of it is trusted. -/
structure Parts where
  epoch : Option UInt16
  validFrom : Option UInt64
  validUntil : Option UInt64
  groupKeyId : Option Hash
  byzantineBps : Option UInt32
  maxCompetenceRatio : Option UInt32
  phyProfile : Option String
  heardCapacity : Option UInt16
  members : List Member
  issuer : Option String
  signature : Option Signature
  deriving DecidableEq

def Parts.nothing : Parts where
  epoch := none
  validFrom := none
  validUntil := none
  groupKeyId := none
  byzantineBps := none
  maxCompetenceRatio := none
  phyProfile := none
  heardCapacity := none
  members := []
  issuer := none
  signature := none

/-! ## Reading a field -/

/-- A directive that may appear once has not appeared yet. -/
def once (held : Bool) (line : Nat) (directive : String) : Except ManifestError Unit :=
  if held then .error (.repeated line directive) else .ok ()

def oneWord (words : List Word) (line : Nat) (expected : String) : Except ManifestError Word :=
  match words with
  | [word] => .ok word
  | _ => .error (.malformed line expected)

/-- One number, one spelling. A number type is its largest value. -/
def canonicalNumber (top : Nat) (word : Word) (line : Nat) (field : String) :
    Except ManifestError Nat :=
  if signed word.toList then .error (.notCanonicalNumber line field)
  else if padded word.toList then .error (.notCanonicalNumber line field)
  else
    match Spelling.parse top word.toList with
    | none => .error (.notANumber line field)
    | some value => .ok value

def number (top : Nat) (words : List Word) (line : Nat) (field : String) :
    Except ManifestError Nat := do
  let word ← oneWord words line "a directive and one number"
  canonicalNumber top word line field

def maxU8 : Nat := 255
def maxU16 : Nat := 65535
def maxU32 : Nat := 4294967295
def maxU64 : Nat := 18446744073709551615

/-- A 16-bit field, read with 32 bits. -/
def bounded (words : List Word) (line : Nat) (field : String) : Except ManifestError UInt16 := do
  let value ← number maxU32 words line field
  if value ≤ maxU16 then .ok (.ofNat value) else .error (.notANumber line field)

def hexBytes (n : Nat) (word : Word) (line : Nat) (field : String) :
    Except ManifestError {bytes : Bytes // bytes.length = n} :=
  if (asBytes word).length ≠ n * 2 then .error (.notHex line field n)
  else
    match hexPairs (asBytes word) with
    | none => .error (.notHex line field n)
    | some bytes =>
      if size : bytes.length = n then .ok ⟨bytes, size⟩ else .error (.notHex line field n)

/-- One hexadecimal field of `n` bytes. -/
def hexField (n : Nat) (words : List Word) (line : Nat) (field : String) :
    Except ManifestError {bytes : Bytes // bytes.length = n} := do
  let word ← oneWord words line "a directive and one hexadecimal field"
  hexBytes n word line field

def hex32 (words : List Word) (line : Nat) (field : String) : Except ManifestError Hash :=
  hexField 32 words line field

def hex64 (words : List Word) (line : Nat) (field : String) : Except ManifestError Signature :=
  hexField 64 words line field

def labelByte (byte : UInt8) : Bool :=
  decide (48 ≤ byte ∧ byte ≤ 57 ∨ 65 ≤ byte ∧ byte ≤ 90 ∨ 97 ≤ byte ∧ byte ≤ 122 ∨
    byte = 45 ∨ byte = 95)

def checkLabel (id : Word) (line : Nat) : Except ManifestError Unit :=
  if maxLabelBytes < (asBytes id).length then .error (.labelTooLong line (asBytes id).length)
  else if asBytes id = [] ∨ (asBytes id).all labelByte = false then .error (.labelCharset line id)
  else .ok ()

/-! ## Reading a line -/

variable (isKey : Hash → Bool)

namespace Parts

variable (parts : Parts)

def memberShape : String := "member <index> <competence> <public key> <label>"

def addMember (words : List Word) (line : Nat) : Except ManifestError Parts :=
  match words with
  | [index, competence, key, id] => do
    let seat ← canonicalNumber maxU16 index line "index"
    let competence ← canonicalNumber maxU8 competence line "competence"
    let key ← hexBytes 32 key line "member key"
    if isKey key = false then .error (.notAKey line seat)
    else
      checkLabel id line
      if parts.members.any fun held => decide (held.index = .ofNat seat) then
        .error (.duplicateIndex line seat)
      else if parts.members.any fun held => decide (held.id = id) then
        .error (.duplicateId line id)
      -- one principal, one seat
      else if parts.members.any fun held => decide (held.key = key) then
        .error (.duplicateKey line seat)
      else
        .ok { parts with
          members := parts.members ++ [⟨.ofNat seat, .ofNat competence, key, id⟩] }
  | _ => .error (.malformed line memberShape)

/-- One directive. -/
def apply (directive : Word) (words : List Word) (line : Nat) (version : Option UInt32) :
    Except ManifestError (Parts × Option UInt32) :=
  match directive with
  | "version" => do
    once version.isSome line "version"
    let value ← number maxU32 words line "version"
    if UInt32.ofNat value ≠ manifestVersion then .error (.unsupportedVersion line (.ofNat value))
    else .ok (parts, some (.ofNat value))
  | "epoch" => do
    once parts.epoch.isSome line "epoch"
    let epoch ← bounded words line "epoch"
    .ok ({ parts with epoch := some epoch }, version)
  | "valid-from" => do
    once parts.validFrom.isSome line "valid-from"
    let value ← number maxU64 words line "valid-from"
    .ok ({ parts with validFrom := some (.ofNat value) }, version)
  | "valid-until" => do
    once parts.validUntil.isSome line "valid-until"
    let value ← number maxU64 words line "valid-until"
    .ok ({ parts with validUntil := some (.ofNat value) }, version)
  | "group-key" => do
    once parts.groupKeyId.isSome line "group-key"
    let key ← hex32 words line "group-key"
    .ok ({ parts with groupKeyId := some key }, version)
  | "byzantine-bps" => do
    once parts.byzantineBps.isSome line "byzantine-bps"
    let value ← number maxU32 words line "byzantine-bps"
    .ok ({ parts with byzantineBps := some (.ofNat value) }, version)
  | "max-competence-ratio" => do
    once parts.maxCompetenceRatio.isSome line "max-competence-ratio"
    let value ← number maxU32 words line "max-competence-ratio"
    .ok ({ parts with maxCompetenceRatio := some (.ofNat value) }, version)
  | "phy-profile" => do
    once parts.phyProfile.isSome line "phy-profile"
    let found ← oneWord words line "phy-profile <name>"
    if found ≠ phyProfileName then .error (.phyProfileMismatch line found phyProfileName)
    else .ok ({ parts with phyProfile := some found }, version)
  | "heard-capacity" => do
    once parts.heardCapacity.isSome line "heard-capacity"
    let found ← bounded words line "heard-capacity"
    if found.toNat ≠ Heard.capacity then
      .error (.heardCapacityMismatch line found.toNat Heard.capacity)
    else .ok ({ parts with heardCapacity := some found }, version)
  | "member" => do
    let parts ← parts.addMember isKey words line
    .ok (parts, version)
  | "issuer" => do
    once parts.issuer.isSome line "issuer"
    let word ← oneWord words line "issuer <fingerprint>"
    .ok ({ parts with issuer := some word }, version)
  | "signature" => do
    let signature ← hex64 words line "signature"
    .ok ({ parts with signature := some signature }, version)
  | other => .error (.unknownDirective line other)

/-- Order is part of the structure: header directives, then members, the signature last. -/
def inOrder (directive : Word) (line : Nat) (version : Option UInt32) :
    Except ManifestError Unit :=
  if parts.signature.isSome then .error (.outOfOrder line "signature")
  else if directive ≠ "member" ∧ directive ≠ "issuer" ∧ directive ≠ "signature" then
    if parts.members ≠ [] then .error (.outOfOrder line "a header directive")
    else if directive ≠ "version" ∧ version = none then .error (.missingDirective "version")
    else .ok ()
  else .ok ()

def readLine (raw : List Char) (line : Nat) (version : Option UInt32) :
    Except ManifestError (Parts × Option UInt32) :=
  let content := trim (uncommented raw)
  if content = [] then .ok (parts, version)
  else
    let words := (splitWhitespace content).map String.ofList
    let directive := words.headD ""
    do
      parts.inOrder directive line version
      parts.apply isKey directive words.tail line version

def readLines : List (List Char) → Nat → Parts → Option UInt32 →
    Except ManifestError (Parts × Option UInt32)
  | [], _, parts, version => .ok (parts, version)
  | raw :: rest, line, parts, version => do
    let (parts, version) ← parts.readLine isKey raw line version
    readLines rest (line + 1) parts version

def read (text : String) (wantSignature : Bool) : Except ManifestError Parts := do
  let (parts, version) ← readLines isKey (lines text.toList) 1 nothing none
  if version = none then .error (.missingDirective "version")
  else if wantSignature ∧ parts.signature = none then .error (.missingDirective "signature")
  else .ok parts

/-! ## Settling -/

/-- The first of these indices that is not the next one. -/
def firstGap : Nat → List Member → Option Nat
  | _, [] => none
  | expected, member :: rest =>
    if member.index.toNat ≠ expected then some expected else firstGap (expected + 1) rest

def sortByIndex (members : List Member) : List Member :=
  members.insertionSort fun m n => m.index.toNat ≤ n.index.toNat

/-- The first required directive that has not appeared. -/
def missing : Option String :=
  [(parts.epoch.isSome, "epoch"), (parts.validFrom.isSome, "valid-from"),
    (parts.validUntil.isSome, "valid-until"), (parts.groupKeyId.isSome, "group-key"),
    (parts.byzantineBps.isSome, "byzantine-bps"),
    (parts.maxCompetenceRatio.isSome, "max-competence-ratio"),
    (parts.phyProfile.isSome, "phy-profile"),
    (parts.heardCapacity.isSome, "heard-capacity")].findSome? fun p =>
      if p.1 then none else some p.2

/-- Everything the structure requires, checked, and the members in index order. -/
def settle : Except ManifestError Parts :=
  match parts.missing with
  | some directive => .error (.missingDirective directive)
  | none =>
    let validFrom := parts.validFrom.getD 0
    let validUntil := parts.validUntil.getD 0
    if validUntil ≤ validFrom then .error (.validityInverted validFrom validUntil)
    else if parts.members = [] then .error .noMembers
    else if Heard.capacity < parts.members.length then
      .error (.fleetTooLarge parts.members.length Heard.capacity)
    else
      let members := sortByIndex parts.members
      match firstGap 0 members with
      | some missing => .error (.indicesNotContiguous missing members.length)
      | none => .ok { parts with members := members }

end Parts

/-! ## The canonical form -/

/-- One length byte, then the bytes. -/
def pushText (text : String) : Bytes := UInt8.ofNat (asBytes text).length :: asBytes text

def pushMember (member : Member) : Bytes :=
  be 2 member.index.toNat ++ [member.competence] ++ member.key.1 ++ pushText member.id

/-- One fixed order, one fixed width per field. -/
def canonical (epoch : UInt16) (validFrom validUntil : UInt64) (groupKeyId : Hash)
    (byzantineBps maxCompetenceRatio : UInt32) (phyProfile : String) (heardCapacity : UInt16)
    (members : List Member) : Bytes :=
  canonicalDomain ++ [versionByte] ++ be 2 epoch.toNat ++ be 8 validFrom.toNat
    ++ be 8 validUntil.toNat ++ groupKeyId.1 ++ be 4 byzantineBps.toNat
    ++ be 4 maxCompetenceRatio.toNat ++ pushText phyProfile ++ be 2 heardCapacity.toNat
    ++ be 2 (UInt16.ofNat members.length).toNat ++ members.flatMap pushMember

def noHash : Hash := ⟨List.replicate 32 0, by decide⟩

def noSignature : Signature := ⟨List.replicate 64 0, by decide⟩

def standing (members : List Member) : List (String × UInt8) :=
  members.map fun member => (member.id, member.competence)

namespace Parts

variable (parts : Parts)

def lawful (parts : Parts) : Except ManifestError Unit :=
  match Policy.withSettings (standing parts.members) (parts.byzantineBps.getD 0)
      (parts.maxCompetenceRatio.getD 0) with
  | .error e => .error (.policy e)
  | .ok _ => .ok ()

/-- The bytes an administrator signs, for a file that carries no signature yet. -/
def canonicalBytes : Except ManifestError Bytes := do
  let parts ← parts.settle
  parts.lawful
  .ok (canonical (parts.epoch.getD 0) (parts.validFrom.getD 0) (parts.validUntil.getD 0)
    (parts.groupKeyId.getD noHash) (parts.byzantineBps.getD 0)
    (parts.maxCompetenceRatio.getD 0) (parts.phyProfile.getD "") (parts.heardCapacity.getD 0)
    parts.members)

def finish : Except ManifestError Manifest := do
  let parts ← parts.settle
  parts.lawful
  .ok {
    epoch := parts.epoch.getD 0
    validFrom := parts.validFrom.getD 0
    validUntil := parts.validUntil.getD 0
    groupKeyId := parts.groupKeyId.getD noHash
    byzantineBps := parts.byzantineBps.getD 0
    maxCompetenceRatio := parts.maxCompetenceRatio.getD 0
    phyProfile := parts.phyProfile.getD ""
    heardCapacity := parts.heardCapacity.getD 0
    members := parts.members
    issuer := parts.issuer.getD ""
    signature := parts.signature.getD noSignature }

end Parts

/-! ## A key by hand -/

def alphabet : List Char := "0123456789ABCDEFGHJKMNPQRSTVWXYZ".toList

/-- The five bits that symbol `index` takes from `bytes`, zero past the end. -/
def symbolAt (bytes : Bytes) (index : Nat) : Nat :=
  (List.range 5).foldl (fun value bit =>
    let position := index * 5 + bit
    let set := decide (position < bytes.length * 8)
      && bytes.getD (position / 8) 0 &&& (0x80 >>> UInt8.ofNat (position % 8)) != 0
    2 * value + set.toNat) 0

/-- Uppercase, in groups of four. -/
def writeSymbols : Nat → List Nat → List Char
  | _, [] => []
  | index, symbol :: rest =>
    (if 0 < index ∧ index % 4 = 0 then ['-'] else [])
      ++ alphabet.getD symbol '0' :: writeSymbols (index + 1) rest

/-- A short form of a key, for somebody to compare against a card. -/
def fingerprint (C : Primitives) (key : VerifyingKey) : String :=
  .ofList (writeSymbols 0 ((List.range 16).map (symbolAt (C.blake2s256 key.1).1)))

/-! ## Parsing, verifying, signing -/

namespace Manifest

/-- Structure only: this does not check the signature. -/
def parse (text : String) : Except ManifestError Manifest := do
  let parts ← Parts.read isKey text true
  parts.finish

def size (manifest : Manifest) : Nat := manifest.members.length

def idOf (manifest : Manifest) (index : Nat) : Option String :=
  manifest.members[index]?.map Member.id

def keyOf (manifest : Manifest) (index : Nat) : Option VerifyingKey :=
  manifest.members[index]?.map Member.key

/-- The policy this fleet implies. -/
def policy (manifest : Manifest) : Except PolicyError Policy :=
  Policy.withSettings (standing manifest.members) manifest.byzantineBps
    manifest.maxCompetenceRatio

def canonicalBytes (manifest : Manifest) : Bytes :=
  canonical manifest.epoch manifest.validFrom manifest.validUntil manifest.groupKeyId
    manifest.byzantineBps manifest.maxCompetenceRatio manifest.phyProfile
    manifest.heardCapacity manifest.members

variable (C : Primitives)

def verify (manifest : Manifest) (admin : VerifyingKey) (now : UInt64) :
    Except ManifestError Unit :=
  if C.verifyStrict admin manifest.canonicalBytes manifest.signature = false then
    .error .badSignature
  else if now < manifest.validFrom then .error (.notYetValid manifest.validFrom now)
  else if manifest.validUntil ≤ now then .error (.expired manifest.validUntil now)
  else .ok ()

/-- The first word of a line, or nothing. -/
def directiveOf (raw : List Char) : Word :=
  .ofList ((splitWhitespace (uncommented raw)).headD [])

/-- The lines of a text that an issuer and a signature are put behind. -/
def fleetText (text : String) : List Char :=
  unlines ((lines text.toList).filter fun raw =>
    !(directiveOf raw == "issuer" || directiveOf raw == "signature"))

/-- Sign a manifest that has everything but its issuer and signature lines. Those it has
are replaced. -/
def signText (text : String) (admin : SigningKey) : Except ManifestError String := do
  let parts ← Parts.read isKey text false
  let bytes ← parts.canonicalBytes
  let signature := C.sign admin bytes
  let issuer := fingerprint C (C.verifyingKey admin)
  .ok (.ofList (fleetText text ++ "issuer ".toList ++ issuer.toList ++ ['\n']
    ++ "signature ".toList ++ (hexText signature.1).toList ++ ['\n']))

end Manifest
end FleetFile
