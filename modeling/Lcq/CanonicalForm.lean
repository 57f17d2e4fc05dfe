import Lcq.ManifestSigning
import Mathlib.Data.Multiset.Filter
import Mathlib.Data.Multiset.MapFold
import Mathlib.Tactic.Abel

/-!
# The canonical form is faithful

What an accepted manifest says is a multiset of lines, each value in its one
spelling. The canonical bytes determine those lines, and the lines determine
the bytes, whatever their order.
-/

namespace CanonicalForm

open ByteFormat Contracts FleetFile FleetReading ManifestSigning Quorum Spelling TextLines Wire

variable {isKey : Hash → Bool}

/-! ## What is said -/

/-- A line that is said if there is a value for it. -/
def saidOnce {α : Type} (directive : Word) (spell : α → Word) : Option α → Multiset (List Word)
  | none => 0
  | some value => {[directive, spell value]}

@[simp] theorem saidOnce_none {α : Type} (directive : Word) (spell : α → Word) :
    saidOnce directive spell none = 0 := rfl

@[simp] theorem saidOnce_some {α : Type} (directive : Word) (spell : α → Word) (value : α) :
    saidOnce directive spell (some value) = {[directive, spell value]} := rfl

def spell32 (value : UInt32) : Word := decimal value.toNat
def spell16 (value : UInt16) : Word := decimal value.toNat
def spell64 (value : UInt64) : Word := decimal value.toNat
def spellHash (value : Hash) : Word := hexText value.1

/-- The fleet's lines behind a reading. -/
def spoken (r : Reading) : Multiset (List Word) :=
  saidOnce "version" spell32 r.2 + saidOnce "epoch" spell16 r.1.epoch
    + saidOnce "valid-from" spell64 r.1.validFrom + saidOnce "valid-until" spell64 r.1.validUntil
    + saidOnce "group-key" spellHash r.1.groupKeyId
    + saidOnce "byzantine-bps" spell32 r.1.byzantineBps
    + saidOnce "max-competence-ratio" spell32 r.1.maxCompetenceRatio
    + saidOnce "phy-profile" id r.1.phyProfile
    + saidOnce "heard-capacity" spell16 r.1.heardCapacity + ↑(r.1.members.map seatLine)

/-- The fleet's lines of a manifest. -/
def statement (m : Manifest) : Multiset (List Word) :=
  {["version", "2"]} + {["epoch", spell16 m.epoch]} + {["valid-from", spell64 m.validFrom]}
    + {["valid-until", spell64 m.validUntil]} + {["group-key", spellHash m.groupKeyId]}
    + {["byzantine-bps", spell32 m.byzantineBps]}
    + {["max-competence-ratio", spell32 m.maxCompetenceRatio]} + {["phy-profile", m.phyProfile]}
    + {["heard-capacity", spell16 m.heardCapacity]} + ↑(m.members.map seatLine)

/-- A fleet line adds itself to what is said, and no other line adds anything. -/
theorem spoken_fleet {r s : Reading} {line : List Word} (takes : Takes isKey r line s)
    (fleet : fleetLine line = true) : spoken s = {line} + spoken r := by
  obtain ⟨-, said⟩ := takes
  cases said with
  | version =>
    simp only [spoken, saidOnce_none, saidOnce_some, spell32, decimal_version]
    abel
  | epoch fresh value =>
    simp only [spoken, saidOnce_none, saidOnce_some, fresh, spell16]
    abel
  | validFrom fresh value =>
    simp only [spoken, saidOnce_none, saidOnce_some, fresh, spell64]
    abel
  | validUntil fresh value =>
    simp only [spoken, saidOnce_none, saidOnce_some, fresh, spell64]
    abel
  | groupKey fresh value =>
    simp only [spoken, saidOnce_none, saidOnce_some, fresh, spellHash]
    abel
  | byzantineBps fresh value =>
    simp only [spoken, saidOnce_none, saidOnce_some, fresh, spell32]
    abel
  | maxCompetenceRatio fresh value =>
    simp only [spoken, saidOnce_none, saidOnce_some, fresh, spell32]
    abel
  | phyProfile fresh =>
    simp only [spoken, saidOnce_none, saidOnce_some, fresh, id]
    abel
  | heardCapacity fresh =>
    simp only [spoken, saidOnce_none, saidOnce_some, fresh, spell16, decimal_capacity]
    abel
  | @member p v m joins =>
    simp only [spoken, List.map_append, List.map_cons, List.map_nil, ← Multiset.coe_add,
      Multiset.coe_singleton]
    abel
  | issuer fresh word => cases fleet
  | signature value => cases fleet

theorem spoken_other {r s : Reading} {line : List Word} (takes : Takes isKey r line s)
    (other : fleetLine line = false) : spoken s = spoken r := by
  obtain ⟨-, said⟩ := takes
  cases said with
  | issuer fresh word => rfl
  | signature value => rfl
  | _ => cases other

theorem spoken_reads {r s : Reading} {ls : List (List Word)} (reads : Reads isKey r ls s) :
    spoken s = ↑(ls.filter fleetLine) + spoken r := by
  induction reads with
  | nil => simp
  | @cons r s t line rest takes _ ih =>
    cases fleet : fleetLine line with
    | true =>
      rw [ih, spoken_fleet takes fleet, List.filter_cons_of_pos fleet, ← Multiset.cons_coe,
        ← Multiset.singleton_add]
      abel
    | false =>
      rw [ih, spoken_other takes fleet, List.filter_cons_of_neg (by rw [fleet]; nofun)]

/-! ## What is accepted -/

/-- What holds of the parts of a manifest at every line. -/
structure Sane (r : Reading) : Prop where
  version : r.2 = none ∨ r.2 = some manifestVersion
  phyProfile : r.1.phyProfile = none ∨ r.1.phyProfile = some phyProfileName
  heardCapacity : r.1.heardCapacity = none ∨ r.1.heardCapacity = some 64
  labels : ∀ m ∈ r.1.members, Labelled m.id

theorem sane_takes {r s : Reading} {line : List Word} (takes : Takes isKey r line s)
    (sane : Sane r) : Sane s := by
  obtain ⟨-, said⟩ := takes
  obtain ⟨version, phyProfile, heardCapacity, labels⟩ := sane
  cases said with
  | version => exact ⟨Or.inr rfl, phyProfile, heardCapacity, labels⟩
  | phyProfile => exact ⟨version, Or.inr rfl, heardCapacity, labels⟩
  | heardCapacity => exact ⟨version, phyProfile, Or.inr rfl, labels⟩
  | member joins =>
    refine ⟨version, phyProfile, heardCapacity, ?_⟩
    intro held mem
    rcases List.mem_append.mp mem with mem | mem
    · exact labels held mem
    · rw [List.mem_singleton.mp mem]
      exact joins.label
  | _ => exact ⟨version, phyProfile, heardCapacity, labels⟩

theorem sane_reads {r s : Reading} {ls : List (List Word)} (reads : Reads isKey r ls s)
    (sane : Sane r) : Sane s := by
  induction reads with
  | nil => exact sane
  | cons takes _ ih => exact ih (sane_takes takes sane)

theorem firstGap_none {expected : Nat} {members : List Member}
    (seated : Parts.firstGap expected members = none) (i : Nat) (m : Member)
    (here : members[i]? = some m) : m.index.toNat = expected + i := by
  induction members generalizing expected i with
  | nil => cases here
  | cons first rest ih =>
    unfold Parts.firstGap at seated
    split at seated
    · cases seated
    · rename_i next
      cases i with
      | zero =>
        cases here
        exact not_not.mp next
      | succ i =>
        have later := ih seated i here
        omega

theorem complete_iff {p : Parts} (complete : p.missing = none) :
    p.epoch.isSome ∧ p.validFrom.isSome ∧ p.validUntil.isSome ∧ p.groupKeyId.isSome ∧
      p.byzantineBps.isSome ∧ p.maxCompetenceRatio.isSome ∧ p.phyProfile.isSome ∧
      p.heardCapacity.isSome := by
  simp only [Parts.missing, List.findSome?_eq_none_iff, List.mem_cons, List.not_mem_nil, or_false,
    forall_eq_or_imp, forall_eq] at complete
  simpa [Option.isSome_iff_ne_none] using complete

/-- What an accepted manifest is. -/
structure WellFormed (m : Manifest) : Prop where
  phyProfile : m.phyProfile = phyProfileName
  heardCapacity : m.heardCapacity = 64
  window : m.validFrom < m.validUntil
  manned : m.members ≠ []
  small : m.members.length ≤ Heard.capacity
  seated : ∀ (i : Nat) (member : Member), m.members[i]? = some member → member.index.toNat = i
  labels : ∀ member ∈ m.members, Labelled member.id

/-- An accepted text says what its manifest states, and the manifest is well formed. -/
theorem parse_states {text : String} {m : Manifest} (parses : Manifest.parse isKey text = .ok m) :
    (fleetLines text : Multiset (List Word)) = statement m ∧ WellFormed m := by
  simp only [Manifest.parse, bind_ok] at parses
  obtain ⟨parts, read, finishes⟩ := parses
  obtain ⟨v, reads, named, -⟩ := read_ok.mp read
  simp only [Parts.finish, bind_ok] at finishes
  obtain ⟨settled, settles, _, lawful, done⟩ := finishes
  obtain ⟨⟨complete, window, manned, small, seated⟩, rfl⟩ := settle_ok.mp settles
  have nothing : Sane (.nothing, none) := ⟨Or.inl rfl, Or.inl rfl, Or.inl rfl, by rintro _ ⟨⟩⟩
  have sane := sane_reads reads nothing
  have spoke := spoken_reads reads
  obtain ⟨epoch, validFrom, validUntil, groupKeyId, byzantineBps, ratio, phyProfile, capacity⟩ :=
    complete_iff complete
  obtain ⟨epoch, epoch_is⟩ := Option.isSome_iff_exists.mp epoch
  obtain ⟨validFrom, from_is⟩ := Option.isSome_iff_exists.mp validFrom
  obtain ⟨validUntil, until_is⟩ := Option.isSome_iff_exists.mp validUntil
  obtain ⟨groupKeyId, key_is⟩ := Option.isSome_iff_exists.mp groupKeyId
  obtain ⟨byzantineBps, bps_is⟩ := Option.isSome_iff_exists.mp byzantineBps
  obtain ⟨ratio, ratio_is⟩ := Option.isSome_iff_exists.mp ratio
  have profile_is := sane.phyProfile.resolve_left (Option.isSome_iff_ne_none.mp phyProfile)
  have capacity_is := sane.heardCapacity.resolve_left (Option.isSome_iff_ne_none.mp capacity)
  have version_is := sane.version.resolve_left named
  have sorted : (Parts.sortByIndex parts.members).Perm parts.members :=
    List.perm_insertionSort _ _
  rw [Except.ok.inj done.symm]
  dsimp only at profile_is capacity_is version_is
  constructor
  · have members : (↑((Parts.sortByIndex parts.members).map seatLine) : Multiset (List Word)) =
        ↑(parts.members.map seatLine) := Multiset.coe_eq_coe.mpr (sorted.map seatLine)
    have silent : spoken (.nothing, none) = 0 := rfl
    rw [silent, add_zero] at spoke
    rw [fleetLines, ← spoke]
    simp only [spoken, statement, epoch_is, from_is, until_is, key_is, bps_is, ratio_is,
      profile_is, capacity_is, version_is, saidOnce_some, Option.getD_some, members, id,
      spell32, decimal_version]
  · refine ⟨?_, ?_, window, ?_, ?_, ?_, ?_⟩
    · change parts.phyProfile.getD "" = phyProfileName
      rw [profile_is, Option.getD_some]
    · change parts.heardCapacity.getD 0 = 64
      rw [capacity_is, Option.getD_some]
    · exact fun none => manned (sorted.symm.trans (none ▸ List.Perm.refl _)).eq_nil
    · rw [sorted.length_eq]
      exact small
    · intro i member here
      simpa using firstGap_none seated i member here
    · exact fun member mem => sane.labels member (sorted.mem_iff.mp mem)

/-! ## The statement determines the manifest -/

theorem seatLine_injective : Function.Injective seatLine := by
  rintro ⟨index, competence, key, id⟩ ⟨index', competence', key', id'⟩ same
  simp only [seatLine, List.cons.injEq, true_and, and_true] at same
  obtain ⟨seats, scores, keys, rfl⟩ := same
  have seats := UInt16.toNat_inj.mp (decimal_injective seats)
  have scores := UInt8.toNat_inj.mp (decimal_injective scores)
  have keys : key = key' := Subtype.ext (hexText_injective keys)
  rw [seats, scores, keys]

/-- The lines with this directive. -/
def under (directive : Word) (lines : Multiset (List Word)) : Multiset (List Word) :=
  lines.filter fun line => line.headD "" = directive

theorem under_members (directive : Word) (members : List Member) :
    under directive ↑(members.map seatLine) =
      if directive = "member" then ↑(members.map seatLine) else 0 := by
  split
  · rename_i here
    rw [under, Multiset.filter_eq_self]
    intro line mem
    obtain ⟨m, -, rfl⟩ := List.mem_map.mp (Multiset.mem_coe.mp mem)
    exact here.symm
  · rename_i other
    rw [under, Multiset.filter_eq_nil]
    intro line mem here
    obtain ⟨m, -, rfl⟩ := List.mem_map.mp (Multiset.mem_coe.mp mem)
    exact other here.symm

/-- Members in the order of their seats. -/
def Seated (members : List Member) : Prop :=
  ∀ (i : Nat) (member : Member), members[i]? = some member → member.index.toNat = i

theorem Seated.ascending {members : List Member} (seated : Seated members) :
    members.Pairwise fun m n => m.index.toNat < n.index.toNat := by
  rw [List.pairwise_iff_getElem]
  intro i j hi hj lt
  have first := seated i _ (List.getElem?_eq_getElem hi)
  have second := seated j _ (List.getElem?_eq_getElem hj)
  omega

theorem seated_perm {members others : List Member} (seated : Seated members)
    (seated' : Seated others) (same : members.Perm others) : members = others := by
  refine List.Perm.eq_of_pairwise ?_ seated.ascending seated'.ascending same
  intro m n _ _ lt gt
  omega

theorem under_one (directive first : Word) (rest : List Word) :
    under directive {first :: rest} = if first = directive then {first :: rest} else 0 :=
  Multiset.filter_singleton _

theorem under_add (directive : Word) (ls ls' : Multiset (List Word)) :
    under directive (ls + ls') = under directive ls + under directive ls' :=
  Multiset.filter_add _ _ _

theorem bytes_determined {m m' : Manifest} (formed : WellFormed m) (formed' : WellFormed m')
    (same : statement m = statement m') : m.canonicalBytes = m'.canonicalBytes := by
  have part (directive : Word) : under directive (statement m) = under directive (statement m') := by
    rw [same]
  have epoch := part "epoch"
  have validFrom := part "valid-from"
  have validUntil := part "valid-until"
  have groupKey := part "group-key"
  have bps := part "byzantine-bps"
  have ratio := part "max-competence-ratio"
  have members := part "member"
  simp only [statement, under_add, under_one, under_members, String.reduceEq, if_true, if_false,
    zero_add, add_zero, Multiset.singleton_inj, List.cons.injEq, true_and, and_true]
    at epoch validFrom validUntil groupKey bps ratio members
  have epoch := UInt16.toNat_inj.mp (decimal_injective epoch)
  have validFrom := UInt64.toNat_inj.mp (decimal_injective validFrom)
  have validUntil := UInt64.toNat_inj.mp (decimal_injective validUntil)
  have groupKey := hexText_injective groupKey
  have bps := UInt32.toNat_inj.mp (decimal_injective bps)
  have ratio := UInt32.toNat_inj.mp (decimal_injective ratio)
  have seats : m.members.Perm m'.members :=
    Multiset.coe_eq_coe.mp (Multiset.map_injective seatLine_injective members)
  have members := seated_perm formed.seated formed'.seated seats
  rw [Manifest.canonicalBytes, Manifest.canonicalBytes, canonical, canonical, epoch, validFrom,
    validUntil, groupKey, bps, ratio, members, formed.phyProfile, formed'.phyProfile,
    formed.heardCapacity, formed'.heardCapacity]

/-! ## The bytes determine the statement -/

theorem pushText_append {word other : Word} (short : (asBytes word).length < 256)
    (short' : (asBytes other).length < 256) {rest rest' : Bytes}
    (same : pushText word ++ rest = pushText other ++ rest') : word = other ∧ rest = rest' := by
  obtain ⟨size, text⟩ := List.cons_eq_cons.mp same
  have size : (asBytes word).length = (asBytes other).length := by
    have sizes := congrArg UInt8.toNat size
    rw [UInt8.toNat_ofNat', UInt8.toNat_ofNat'] at sizes
    omega
  obtain ⟨bytes, rest⟩ := List.append_inj text size
  exact ⟨asBytes_injective bytes, rest⟩

theorem pushMember_append {m m' : Member} (labelled : Labelled m.id) (labelled' : Labelled m'.id)
    {rest rest' : Bytes} (same : pushMember m ++ rest = pushMember m' ++ rest') :
    m = m' ∧ rest = rest' := by
  have short (id : Word) (l : Labelled id) : (asBytes id).length < 256 :=
    Nat.lt_of_le_of_lt l.2.1 (by decide)
  simp only [pushMember, List.append_assoc] at same
  obtain ⟨index, same⟩ := List.append_inj same (by simp only [be_length])
  obtain ⟨competence, same⟩ := List.append_inj same rfl
  obtain ⟨key, same⟩ := List.append_inj same (m.key.2.trans m'.key.2.symm)
  obtain ⟨id, rest⟩ := pushText_append (short _ labelled) (short _ labelled') same
  have index := UInt16.toNat_inj.mp (be_injective m.index.toNat_lt m'.index.toNat_lt index)
  have competence := List.singleton_inj.mp competence
  have key : m.key = m'.key := Subtype.ext key
  refine ⟨?_, rest⟩
  cases m
  cases m'
  simp_all

theorem members_injective {members others : List Member}
    (labelled : ∀ m ∈ members, Labelled m.id) (labelled' : ∀ m ∈ others, Labelled m.id)
    (same : members.flatMap pushMember = others.flatMap pushMember) : members = others := by
  have some (m : Member) (rest : Bytes) : pushMember m ++ rest ≠ [] := by
    simp [pushMember, pushText]
  induction members generalizing others with
  | nil =>
    cases others with
    | nil => rfl
    | cons m' others => exact absurd same.symm (some m' _)
  | cons m members ih =>
    cases others with
    | nil => exact absurd same (some m _)
    | cons m' others =>
      obtain ⟨rfl, rest⟩ := pushMember_append (labelled m List.mem_cons_self)
        (labelled' m' List.mem_cons_self) same
      rw [ih (fun n mem => labelled n (List.mem_cons_of_mem _ mem))
        (fun n mem => labelled' n (List.mem_cons_of_mem _ mem)) rest]

theorem statement_determined {m m' : Manifest} (formed : WellFormed m) (formed' : WellFormed m')
    (same : m.canonicalBytes = m'.canonicalBytes) : statement m = statement m' := by
  rw [Manifest.canonicalBytes, Manifest.canonicalBytes, canonical, canonical, formed.phyProfile,
    formed'.phyProfile, formed.heardCapacity, formed'.heardCapacity] at same
  simp only [List.append_assoc, List.append_cancel_left_eq] at same
  obtain ⟨epoch, same⟩ := List.append_inj same (by simp only [be_length])
  obtain ⟨validFrom, same⟩ := List.append_inj same (by simp only [be_length])
  obtain ⟨validUntil, same⟩ := List.append_inj same (by simp only [be_length])
  obtain ⟨groupKey, same⟩ := List.append_inj same (m.groupKeyId.2.trans m'.groupKeyId.2.symm)
  obtain ⟨bps, same⟩ := List.append_inj same (by simp only [be_length])
  obtain ⟨ratio, same⟩ := List.append_inj same (by simp only [be_length])
  rw [List.append_cancel_left_eq, List.append_cancel_left_eq] at same
  obtain ⟨-, members⟩ := List.append_inj same (by simp only [be_length])
  have epoch := UInt16.toNat_inj.mp (be_injective m.epoch.toNat_lt m'.epoch.toNat_lt epoch)
  have validFrom := UInt64.toNat_inj.mp
    (be_injective m.validFrom.toNat_lt m'.validFrom.toNat_lt validFrom)
  have validUntil := UInt64.toNat_inj.mp
    (be_injective m.validUntil.toNat_lt m'.validUntil.toNat_lt validUntil)
  have bps := UInt32.toNat_inj.mp
    (be_injective m.byzantineBps.toNat_lt m'.byzantineBps.toNat_lt bps)
  have ratio := UInt32.toNat_inj.mp
    (be_injective m.maxCompetenceRatio.toNat_lt m'.maxCompetenceRatio.toNat_lt ratio)
  have groupKey : m.groupKeyId = m'.groupKeyId := Subtype.ext groupKey
  have members := members_injective formed.labels formed'.labels members
  rw [statement, statement, epoch, validFrom, validUntil, groupKey, bps, ratio, members,
    formed.phyProfile, formed'.phyProfile, formed.heardCapacity, formed'.heardCapacity]

/-- Two accepted texts have the same canonical bytes exactly if they say the same lines of
words, the issuer's and the signature's apart, in whatever order. -/
theorem canonical_faithful (isKey : Hash → Bool) (text other : String) (m m' : Manifest)
    (parses : Manifest.parse isKey text = .ok m) (parses' : Manifest.parse isKey other = .ok m') :
    m.canonicalBytes = m'.canonicalBytes ↔
      (fleetLines text : Multiset (List Word)) = (fleetLines other : Multiset (List Word)) := by
  obtain ⟨said, formed⟩ := parse_states parses
  obtain ⟨said', formed'⟩ := parse_states parses'
  rw [said, said']
  constructor
  · exact statement_determined formed formed'
  · exact bytes_determined formed formed'

/-- A fleet of one, signed with zeros. -/
def manned (header : List Char) : List Char :=
  header ++ "group-key ".toList ++ List.replicate 62 '0' ++ "a1\nbyzantine-bps 0\n".toList
    ++ "max-competence-ratio 3\n".toList ++ "phy-profile eu868-sf10-v1\n".toList
    ++ "heard-capacity 64\nmember 0 100 ".toList ++ List.replicate 62 '0' ++ "ff ship-a\n".toList
    ++ "signature ".toList ++ List.replicate 128 '0'

def header : List Char := "version 2\nepoch 7\n".toList ++ "valid-from 5\nvalid-until 9\n".toList

/-- The same header in another order and another spacing. -/
def reordered : List Char :=
  "version 2 # the form\n\nvalid-until 9\n".toList ++ "  epoch\t7\r\nvalid-from 5\n".toList

theorem canonical_faithful_reordered : ∃ m m',
    Manifest.parse (fun _ => true) (.ofList (manned header)) = .ok m ∧
    Manifest.parse (fun _ => true) (.ofList (manned reordered)) = .ok m' ∧
    m.canonicalBytes = m'.canonicalBytes := by
  have ok : (Manifest.parse (fun _ => true) (.ofList (manned header))).isOk = true ∧
      (Manifest.parse (fun _ => true) (.ofList (manned reordered))).isOk = true := by
    simp only [Manifest.parse, Parts.read, String.toList_ofList]
    decide +kernel
  have said : (fleetLines (.ofList (manned header))).Perm
      (fleetLines (.ofList (manned reordered))) := by
    simp only [fleetLines, contentLines, String.toList_ofList]
    decide +kernel
  cases parses : Manifest.parse (fun _ => true) (.ofList (manned header)) with
  | error e =>
    rw [parses] at ok
    cases ok.1
  | ok m =>
    cases parses' : Manifest.parse (fun _ => true) (.ofList (manned reordered)) with
    | error e =>
      rw [parses'] at ok
      cases ok.2
    | ok m' => exact ⟨m, m', rfl, rfl, (canonical_faithful _ _ _ m m' parses parses').mpr
        (Multiset.coe_eq_coe.mpr said)⟩

end CanonicalForm
