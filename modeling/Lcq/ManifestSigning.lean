import Lcq.FleetReading

/-!
# What is signed is what is read back

Signing drops the issuer and signature lines a text has and puts new ones
behind the others. The finished text says the same fleet, so it parses, and the
signature is over the very bytes the reader builds.
-/

namespace ManifestSigning

open ByteFormat Contracts FleetFile FleetReading Quorum Spelling TextLines Wire

variable {isKey : Hash → Bool}

/-! ## The fleet without its signature -/

def fleetLine (line : List Word) : Bool :=
  !(line.headD "" == "issuer" || line.headD "" == "signature")

/-- What a text says of the fleet, line by line. -/
def fleetLines (text : String) : List (List Word) := (contentLines text).filter fleetLine

def unsealed (p : Parts) : Parts := { p with issuer := none, signature := none }

def bare (r : Reading) : Reading := (unsealed r.1, r.2)

theorem admits_bare {r : Reading} {directive : Word} (admits : Admits r directive) :
    Admits (bare r) directive := ⟨rfl, admits.2⟩

/-- A fleet line is read alike without an issuer and a signature. -/
theorem takes_bare {r s : Reading} {line : List Word} (takes : Takes isKey r line s)
    (fleet : fleetLine line = true) : Takes isKey (bare r) line (bare s) := by
  obtain ⟨admits, said⟩ := takes
  refine ⟨admits_bare admits, ?_⟩
  cases said with
  | version => exact .version
  | @epoch p _ fresh value => exact .epoch (p := unsealed p) fresh value
  | @validFrom p _ fresh value => exact .validFrom (p := unsealed p) fresh value
  | @validUntil p _ fresh value => exact .validUntil (p := unsealed p) fresh value
  | @groupKey p _ fresh value => exact .groupKey (p := unsealed p) fresh value
  | @byzantineBps p _ fresh value => exact .byzantineBps (p := unsealed p) fresh value
  | @maxCompetenceRatio p _ fresh value => exact .maxCompetenceRatio (p := unsealed p) fresh value
  | @phyProfile p _ fresh => exact .phyProfile (p := unsealed p) fresh
  | @heardCapacity p _ fresh => exact .heardCapacity (p := unsealed p) fresh
  | @member p _ _ joins => exact .member (p := unsealed p) joins
  | issuer fresh word => cases fleet
  | signature value => cases fleet

theorem takes_dropped {r s : Reading} {line : List Word} (takes : Takes isKey r line s)
    (other : fleetLine line = false) : bare s = bare r := by
  obtain ⟨-, said⟩ := takes
  cases said with
  | issuer fresh word => rfl
  | signature value => rfl
  | _ => cases other

theorem reads_bare {r s : Reading} {ls : List (List Word)} (reads : Reads isKey r ls s) :
    Reads isKey (bare r) (ls.filter fleetLine) (bare s) := by
  induction reads with
  | nil => exact .nil
  | @cons r s t line rest takes _ ih =>
    cases fleet : fleetLine line with
    | true =>
      rw [List.filter_cons_of_pos fleet]
      exact .cons (takes_bare takes fleet) ih
    | false =>
      rw [List.filter_cons_of_neg (by rw [fleet]; nofun), ← takes_dropped takes fleet]
      exact ih

/-! ## Words that stand alone -/

/-- A word without whitespace or a comment sign. -/
structure Plain (word : List Char) : Prop where
  some : word ≠ []
  dark : ∀ c ∈ word, isWhitespace c = false
  uncommented : ∀ c ∈ word, c ≠ '#'

theorem Plain.single {word : List Char} (plain : Plain word) : '\n' ∉ word := by
  intro mem
  have dark := plain.dark '\n' mem
  cases dark

theorem uncommented_self {line : List Char} (none : ∀ c ∈ line, c ≠ '#') :
    uncommented line = line :=
  List.takeWhile_eq_self_iff.mpr fun c mem => by simpa using none c mem

theorem words_pair {directive word : List Char} (first : Plain directive) (second : Plain word) :
    words (directive ++ ' ' :: word) = [directive, word] := by
  have none : ∀ c ∈ directive ++ ' ' :: word, c ≠ '#' := by
    intro c mem
    rcases List.mem_append.mp mem with mem | mem
    · exact first.uncommented c mem
    · rcases List.mem_cons.mp mem with rfl | mem
      · decide
      · exact second.uncommented c mem
  rw [words, uncommented_self none, splitWhitespace_cons first.some first.dark,
    splitWhitespace_word second.some second.dark]

theorem plain_of_subset {word chars : List Char} (some : word ≠ [])
    (among : ∀ c ∈ word, c ∈ chars)
    (all : (chars.all fun c => !isWhitespace c && decide (c ≠ '#')) = true) : Plain word := by
  have each : ∀ c ∈ word, isWhitespace c = false ∧ c ≠ '#' := by
    intro c mem
    simpa using List.all_eq_true.mp all c (among c mem)
  exact ⟨some, fun c mem => (each c mem).1, fun c mem => (each c mem).2⟩

theorem getD_mem {α : Type} {chars : List α} {default : α} (held : default ∈ chars) (i : Nat) :
    chars.getD i default ∈ chars := by
  rw [List.getD_eq_getElem?_getD]
  cases found : chars[i]? with
  | none => exact held
  | some c => exact List.mem_of_getElem? found

theorem hexText_plain {bytes : Bytes} (some : bytes ≠ []) : Plain (hexText bytes).toList := by
  rw [hexText, String.toList_ofList]
  refine @plain_of_subset _ hexDigits ?_ ?_ (by decide)
  · cases bytes with
    | nil => exact absurd rfl some
    | cons byte bytes => simp [hexPair]
  · intro c mem
    obtain ⟨byte, -, mem⟩ := List.mem_flatMap.mp mem
    have zero : '0' ∈ hexDigits := by decide
    rcases List.mem_cons.mp mem with rfl | mem
    · exact getD_mem zero _
    · rw [List.mem_singleton.mp mem]
      exact getD_mem zero _

theorem writeSymbols_mem (symbols : List Nat) (index : Nat) :
    ∀ c ∈ writeSymbols index symbols, c ∈ '-' :: alphabet := by
  induction symbols generalizing index with
  | nil => nofun
  | cons symbol rest ih =>
    intro c mem
    rcases List.mem_append.mp mem with dash | mem
    · split at dash
      · rw [List.mem_singleton.mp dash]
        exact List.mem_cons_self
      · cases dash
    · rcases List.mem_cons.mp mem with rfl | mem
      · exact List.mem_cons_of_mem _ (getD_mem (by decide) symbol)
      · exact ih _ c mem

theorem fingerprint_plain (C : Primitives) (key : VerifyingKey) :
    Plain (fingerprint C key).toList := by
  rw [fingerprint, String.toList_ofList]
  refine @plain_of_subset _ ('-' :: alphabet) ?_ (writeSymbols_mem _ _) (by decide)
  simp [writeSymbols, List.range_succ_eq_map]

/-! ## The finished text -/

/-- The fleet's lines, then an issuer and a signature. -/
def finished (text : String) (issuer : String) (signature : Signature) : String :=
  .ofList (Manifest.fleetText text ++ "issuer ".toList ++ issuer.toList ++ ['\n']
    ++ "signature ".toList ++ (hexText signature.1).toList ++ ['\n'])

theorem directiveOf_eq (raw : List Char) : Manifest.directiveOf raw = (wordsOf raw).headD "" := by
  rw [Manifest.directiveOf, wordsOf, words]
  cases splitWhitespace (uncommented raw) <;> rfl

theorem contents_filter (raws : List (List Char)) :
    contents (raws.filter fun raw =>
      !(Manifest.directiveOf raw == "issuer" || Manifest.directiveOf raw == "signature")) =
      (contents raws).filter fleetLine := by
  have same : (fun raw => !(Manifest.directiveOf raw == "issuer" ||
      Manifest.directiveOf raw == "signature")) = fleetLine ∘ wordsOf := by
    funext raw
    rw [directiveOf_eq, Function.comp_apply, fleetLine]
  rw [same, contents, ← List.filter_map, List.filter_filter, contents, List.filter_filter]
  congr 1
  funext line
  exact Bool.and_comm _ _

theorem contents_stripped (raws : List (List Char)) :
    contents (raws.map fun raw => (stripReturn raw.reverse).reverse) = contents raws := by
  have same : (wordsOf ∘ fun raw : List Char => (stripReturn raw.reverse).reverse) = wordsOf := by
    funext raw
    rw [Function.comp_apply, wordsOf, words_stripReturn, wordsOf]
  rw [contents, List.map_map, same, contents]

theorem contents_append (raws more : List (List Char)) :
    contents (raws ++ more) = contents raws ++ contents more := by
  rw [contents, List.map_append, List.filter_append, contents, contents]

/-- One line of two words. -/
theorem contents_pair {directive word : List Char} (first : Plain directive)
    (second : Plain word) (rest : List Char) :
    contents (lines (directive ++ ' ' :: word ++ '\n' :: rest)) =
      [.ofList directive, .ofList word] :: contents (lines rest) := by
  have single : '\n' ∉ directive ++ ' ' :: word := by
    intro mem
    rcases List.mem_append.mp mem with mem | mem
    · exact first.single mem
    · rcases List.mem_cons.mp mem with same | mem
      · cases same
      · exact second.single mem
  have stripped := contents_stripped [directive ++ ' ' :: word]
  have pair : wordsOf (directive ++ ' ' :: word) = [.ofList directive, .ofList word] := by
    rw [wordsOf, words_pair first second]
    rfl
  rw [lines_cons _ _ single, ← List.singleton_append, contents_append]
  rw [List.map_singleton] at stripped
  rw [stripped]
  simp [contents, pair]

theorem issuer_plain : Plain "issuer".toList :=
  plain_of_subset (by decide) (fun _ mem => mem) (by decide)

theorem signature_plain : Plain "signature".toList :=
  plain_of_subset (by decide) (fun _ mem => mem) (by decide)

theorem signature_some (signature : Signature) : signature.1 ≠ [] := by
  intro none
  have size := signature.2
  rw [none] at size
  cases size

/-- The finished text says the fleet's lines, and who signed them. -/
theorem contentLines_finished (text : String) {issuer : String} (plain : Plain issuer.toList)
    (signature : Signature) : contentLines (finished text issuer signature) =
      fleetLines text ++ [["issuer", issuer], ["signature", hexText signature.1]] := by
  have tail : "issuer ".toList ++ issuer.toList ++ ['\n'] ++ "signature ".toList
      ++ (hexText signature.1).toList ++ ['\n'] =
      "issuer".toList ++ ' ' :: issuer.toList ++ '\n' ::
        ("signature".toList ++ ' ' :: (hexText signature.1).toList ++ '\n' :: []) := by
    have issuer_space : "issuer ".toList = "issuer".toList ++ [' '] := by decide
    have signature_space : "signature ".toList = "signature".toList ++ [' '] := by decide
    rw [issuer_space, signature_space]
    simp only [List.append_assoc, List.cons_append, List.nil_append]
  have whole : (finished text issuer signature).toList = Manifest.fleetText text ++
      ("issuer ".toList ++ issuer.toList ++ ['\n'] ++ "signature ".toList
        ++ (hexText signature.1).toList ++ ['\n']) := by
    rw [finished, String.toList_ofList]
    simp only [List.append_assoc]
  have single : ∀ raw ∈ (lines text.toList).filter (fun raw =>
      !(Manifest.directiveOf raw == "issuer" || Manifest.directiveOf raw == "signature")),
      '\n' ∉ raw :=
    fun raw mem => newline_notMem_lines text.toList raw (List.mem_of_mem_filter mem)
  rw [contentLines, whole, tail, Manifest.fleetText, lines_unlines _ single, contents_append,
    contents_stripped, contents_filter, contents_pair issuer_plain plain,
    contents_pair signature_plain (hexText_plain (signature_some signature))]
  simp only [String.ofList_toList]
  rfl

theorem fleetLines_finished (text : String) {issuer : String} (plain : Plain issuer.toList)
    (signature : Signature) : fleetLines (finished text issuer signature) = fleetLines text := by
  have kept : (fleetLines text).filter fleetLine = fleetLines text := by
    rw [fleetLines, List.filter_filter]
    simp only [Bool.and_self]
  rw [fleetLines, contentLines_finished text plain, List.filter_append, kept]
  simp [fleetLine]

/-! ## Reading it back -/

def resealed (p : Parts) (issuer : String) (signature : Signature) : Parts :=
  { p with issuer := some issuer, signature := some signature }

/-- A text that reads as a fleet reads as that fleet when it is finished. -/
theorem read_finished {text : String} {parts : Parts}
    (read : Parts.read isKey text false = .ok parts) {issuer : String}
    (plain : Plain issuer.toList) (signature : Signature) (want : Bool) :
    Parts.read isKey (finished text issuer signature) want =
      .ok (resealed parts issuer signature) := by
  obtain ⟨v, reads, named, -⟩ := read_ok.mp read
  refine read_ok.mpr ⟨v, ?_, named, fun _ => nofun⟩
  rw [contentLines_finished text plain]
  refine (reads_bare reads).append (.cons ⟨⟨rfl, ?_⟩, .issuer rfl issuer⟩
    (.cons ⟨⟨rfl, ?_⟩, .signature signature⟩ .nil))
  · exact fun header => absurd rfl header.2.1
  · exact fun header => absurd rfl header.2.2

theorem settle_resealed {p q : Parts} (settled : p.settle = .ok q) (issuer : String)
    (signature : Signature) :
    (resealed p issuer signature).settle = .ok (resealed q issuer signature) := by
  obtain ⟨⟨complete, window, manned, small, seated⟩, rfl⟩ := settle_ok.mp settled
  exact settle_ok.mpr ⟨⟨complete, window, manned, small, seated⟩, rfl⟩

/-- What signing would sign is what the finished file's reader builds. -/
theorem finish_resealed {p : Parts} {bytes : Bytes} (signs : p.canonicalBytes = .ok bytes)
    (issuer : String) (signature : Signature) :
    (resealed p issuer signature).canonicalBytes = .ok bytes ∧
    ∃ m, (resealed p issuer signature).finish = .ok m ∧ m.canonicalBytes = bytes ∧
      m.issuer = issuer ∧ m.signature = signature := by
  simp only [Parts.canonicalBytes, bind_ok] at signs
  obtain ⟨q, settled, _, lawful, ⟨⟩⟩ := signs
  simp only [Parts.canonicalBytes, Parts.finish, bind_ok, settle_resealed settled]
  refine ⟨⟨_, rfl, (), lawful, rfl⟩, _, ⟨_, rfl, (), lawful, rfl⟩, rfl, rfl, rfl⟩

theorem parse_finished {text : String} {parts : Parts} {bytes : Bytes}
    (read : Parts.read isKey text false = .ok parts) (signs : parts.canonicalBytes = .ok bytes)
    {issuer : String} (plain : Plain issuer.toList) (signature : Signature) :
    ∃ m, Manifest.parse isKey (finished text issuer signature) = .ok m ∧
      m.canonicalBytes = bytes ∧ m.issuer = issuer ∧ m.signature = signature := by
  obtain ⟨m, finishes, rest⟩ := (finish_resealed signs issuer signature).2
  refine ⟨m, ?_, rest⟩
  rw [Manifest.parse, read_finished read plain signature true]
  exact finishes

/-! ## The law -/

variable {C : Primitives}

/-- A text that parses and verifies, signed over these bytes, with one issuer line and one
signature line. -/
structure Signed (isKey : Hash → Bool) (C : Primitives) (admin : SigningKey) (bytes : Bytes)
    (out : String) : Prop where
  verifies : ∃ m, Manifest.parse isKey out = .ok m ∧ m.canonicalBytes = bytes ∧
    m.signature = C.sign admin bytes ∧ ∀ now,
      m.verify C (C.verifyingKey admin) now = .ok () ↔ m.validFrom ≤ now ∧ now < m.validUntil
  one_issuer : ((contentLines out).filter fun line => line.headD "" == "issuer").length = 1
  one_signature : ((contentLines out).filter fun line => line.headD "" == "signature").length = 1

theorem signText_ok {text out : String} {admin : SigningKey} :
    Manifest.signText isKey C text admin = .ok out ↔
      ∃ parts bytes, Parts.read isKey text false = .ok parts ∧
        parts.canonicalBytes = .ok bytes ∧
        out = finished text (fingerprint C (C.verifyingKey admin)) (C.sign admin bytes) := by
  simp only [Manifest.signText, bind_ok]
  constructor
  · rintro ⟨parts, read, bytes, signs, done⟩
    exact ⟨parts, bytes, read, signs, (Except.ok.inj done).symm⟩
  · rintro ⟨parts, bytes, read, signs, rfl⟩
    exact ⟨parts, read, bytes, signs, rfl⟩

theorem no_line {directive : Word} (dropped : directive = "issuer" ∨ directive = "signature")
    (text : String) : (fleetLines text).filter (fun line => line.headD "" == directive) = [] := by
  rw [List.filter_eq_nil_iff]
  intro line mem here
  have fleet := (List.mem_filter.mp mem).2
  have named : line.headD "" = directive := by simpa using here
  rw [fleetLine, named] at fleet
  rcases dropped with rfl | rfl <;> cases fleet

theorem signed_finished (correct : ∀ key message,
      C.verifyStrict (C.verifyingKey key) message (C.sign key message) = true)
    {text : String} {parts : Parts} {bytes : Bytes}
    (read : Parts.read isKey text false = .ok parts) (signs : parts.canonicalBytes = .ok bytes)
    (admin : SigningKey) : Signed isKey C admin bytes
      (finished text (fingerprint C (C.verifyingKey admin)) (C.sign admin bytes)) := by
  have plain := fingerprint_plain C (C.verifyingKey admin)
  obtain ⟨m, parses, canonical, -, signature⟩ :=
    parse_finished read signs plain (C.sign admin bytes)
  have content := contentLines_finished text plain (C.sign admin bytes)
  refine ⟨⟨m, parses, canonical, signature, ?_⟩, ?_, ?_⟩
  · intro now
    have valid : C.verifyStrict (C.verifyingKey admin) m.canonicalBytes m.signature = true := by
      rw [canonical, signature, correct]
    rw [Manifest.verify, if_neg (by rw [valid]; nofun)]
    by_cases early : now < m.validFrom
    · rw [if_pos early]
      simp [UInt64.not_le.mpr early]
    · rw [if_neg early]
      by_cases late : m.validUntil ≤ now
      · rw [if_pos late]
        simp [UInt64.not_lt.mpr late]
      · rw [if_neg late]
        simp [UInt64.not_lt.mp early, UInt64.not_le.mp late]
  · rw [content, List.filter_append, no_line (Or.inl rfl)]
    rfl
  · rw [content, List.filter_append, no_line (Or.inr rfl)]
    rfl

/-- A text that signs becomes one that parses to the very bytes signed and verifies in its
window and at no other time; so does that text when it is signed again, with whatever key;
and a text whose fleet no issuer and signature would make a manifest is not signed. -/
theorem sign_text (C : Primitives) (isKey : Hash → Bool) (correct : ∀ key message,
      C.verifyStrict (C.verifyingKey key) message (C.sign key message) = true)
    (text : String) (admin : SigningKey) :
    (∀ out, Manifest.signText isKey C text admin = .ok out → ∃ parts bytes,
      Parts.read isKey text false = .ok parts ∧ parts.canonicalBytes = .ok bytes ∧
      Signed isKey C admin bytes out ∧ fleetLines out = fleetLines text ∧
      ∀ other, ∃ again, Manifest.signText isKey C out other = .ok again ∧
        Signed isKey C other bytes again ∧ fleetLines again = fleetLines text) ∧
    ∀ (issuer : String) signature e, Plain issuer.toList →
      Manifest.parse isKey (finished text issuer signature) = .error e →
      ∃ e', Manifest.signText isKey C text admin = .error e' := by
  constructor
  · intro out signs
    obtain ⟨parts, bytes, read, canonical, rfl⟩ := signText_ok.mp signs
    have plain := fingerprint_plain C (C.verifyingKey admin)
    have lines := fleetLines_finished text plain (C.sign admin bytes)
    refine ⟨parts, bytes, read, canonical, signed_finished correct read canonical admin, lines, ?_⟩
    intro other
    have read' := read_finished read plain (C.sign admin bytes) false
    have canonical' := (finish_resealed canonical (fingerprint C (C.verifyingKey admin))
      (C.sign admin bytes)).1
    refine ⟨_, signText_ok.mpr ⟨_, _, read', canonical', rfl⟩,
      signed_finished correct read' canonical' other, ?_⟩
    rw [fleetLines_finished _ (fingerprint_plain C (C.verifyingKey other)), lines]
  · intro issuer signature e plain refused
    cases signs : Manifest.signText isKey C text admin with
    | error e' => exact ⟨e', rfl⟩
    | ok out =>
      obtain ⟨parts, bytes, read, canonical, -⟩ := signText_ok.mp signs
      obtain ⟨m, parses, -⟩ := parse_finished read canonical plain signature
      rw [refused] at parses
      cases parses

/-- A fleet of one, with an old issuer in front of its member and no signature yet. -/
def single : List Char :=
  "version 2 # the form\n\nepoch 7\r\n".toList ++ "valid-from 5\nvalid-until 9\n".toList
    ++ "group-key ".toList ++ List.replicate 62 '0' ++ "a1\nbyzantine-bps 0\n".toList
    ++ "max-competence-ratio 3\n".toList ++ "phy-profile eu868-sf10-v1\n".toList
    ++ "heard-capacity 64\nissuer nobody\n".toList ++ "member\t0 100 ".toList
    ++ List.replicate 62 '0' ++ "ff ship-a".toList

theorem sign_text_single : ∃ out m, Manifest.signText (fun _ => true) plain (.ofList single)
      ⟨List.replicate 32 7, by decide⟩ = .ok out ∧
    Manifest.parse (fun _ => true) out = .ok m ∧
    (m.verify plain ⟨List.replicate 32 7, by decide⟩ 5 = .ok () ↔
      m.validFrom ≤ 5 ∧ 5 < m.validUntil) := by
  have ok : (Manifest.signText (fun _ => true) plain (.ofList single)
      ⟨List.replicate 32 7, by decide⟩).isOk = true := by
    simp only [Manifest.signText, Parts.read, Manifest.fleetText, String.toList_ofList]
    decide +kernel
  cases signed : Manifest.signText (fun _ => true) plain (.ofList single)
      ⟨List.replicate 32 7, by decide⟩ with
  | error e =>
    rw [signed] at ok
    cases ok
  | ok out =>
    obtain ⟨_, _, -, -, ⟨⟨m, parses, -, -, verifies⟩, -, -⟩, -⟩ :=
      (sign_text plain (fun _ => true) (fun _ _ => decide_eq_true rfl) (.ofList single) _).1
        out signed
    exact ⟨out, m, rfl, parses, verifies 5⟩

end ManifestSigning
