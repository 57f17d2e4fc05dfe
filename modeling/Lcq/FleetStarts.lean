import Lcq.Issuing

/-!
# One fleet from many files

Every member of a fleet reads files of its own. What each shows of its manifest
when it starts is one line, and members that show the same line run one fleet:
the same names in the same seats, the same policy, and the same keys.
-/

namespace FleetStarts

open Admission Approvals ByteFormat CanonicalForm Contracts EvaluationLaws FleetFile FleetReading
  FleetSafety LawfulFleets ManifestSigning Provisioning Quorum Spelling Utterances Wire

/-! ## The line -/

theorem hexText_digits (bytes : Bytes) : ∀ c ∈ (hexText bytes).toList, c ∈ hexDigits := by
  intro c mem
  have zero : '0' ∈ hexDigits := by decide
  rw [hexText, String.toList_ofList] at mem
  obtain ⟨byte, -, mem⟩ := List.mem_flatMap.mp mem
  rcases List.mem_cons.mp mem with rfl | mem
  · exact getD_mem zero _
  · rw [List.mem_singleton.mp mem]
    exact getD_mem zero _

theorem hexText_size (bytes : Bytes) : (hexText bytes).toList.length = 2 * bytes.length := by
  rw [hexText, String.toList_ofList, List.length_flatMap]
  have two : bytes.map (fun byte => (hexPair byte).length) = bytes.map fun _ => 2 := rfl
  rw [two, List.map_const', List.sum_replicate_nat, Nat.mul_comm]

variable {C : Primitives}

/-- The line ends with the digest, in 64 characters, or it shows none. -/
theorem trust_ends (start : Start C) :
    (∃ digest front, start.manifestDigest = some digest ∧
      (trust start).toList = front ++ ((hexText digest.1).toList ++ ['"'])) ∨
    ((start.admin = none ∨ start.manifestDigest = none) ∧
      ∃ front, (trust start).toList = front ++ ",\"provisioning\":\"harness\"".toList) := by
  obtain ⟨station, admin, manifestDigest⟩ := start
  cases admin with
  | none =>
    right
    exact ⟨Or.inl rfl, (",\"epoch\":" ++ decimal station.fleet.missionEpoch.toNat).toList,
      String.toList_append⟩
  | some fingerprint =>
    cases manifestDigest with
    | none =>
      right
      exact ⟨Or.inr rfl, (",\"epoch\":" ++ decimal station.fleet.missionEpoch.toNat).toList,
        String.toList_append⟩
    | some digest =>
      left
      refine ⟨digest, (",\"epoch\":" ++ decimal station.fleet.missionEpoch.toNat ++
        ",\"admin\":\"" ++ fingerprint ++ "\",\"manifest\":\"").toList, rfl, ?_⟩
      rw [trust]
      simp only [String.toList_append, List.append_assoc]
      rfl

/-- Starts that show the same line show the same digest, if one of them shows any. -/
theorem trust_digest {start other : Start C} (same : trust start = trust other) {digest : Hash}
    (admin : start.admin ≠ none) (shown : start.manifestDigest = some digest) :
    other.manifestDigest = some digest := by
  rcases trust_ends start with ⟨digest', front, shown', line⟩ | ⟨none, -⟩
  · cases shown.symm.trans shown'
    rw [same] at line
    rcases trust_ends other with ⟨digest', front', shown', line'⟩ | ⟨-, front', line'⟩
    · obtain ⟨-, ends⟩ := List.append_inj' (line.symm.trans line') (by
        simp only [List.length_append, hexText_size, digest.2, digest'.2])
      have text := String.toList_inj.mp (List.append_cancel_right ends)
      rw [shown', Subtype.ext (hexText_injective text)]
    · -- a digest is longer than what a harness shows, and has no comma in it
      have short : ",\"provisioning\":\"harness\"".toList.length ≤
          ((hexText digest.1).toList ++ ['"']).length := by
        rw [List.length_append, hexText_size, digest.2]
        decide
      have within := List.suffix_of_suffix_length_le ⟨front', line'.symm⟩ ⟨front, line.symm⟩ short
      have comma : ',' ∈ (hexText digest.1).toList ++ ['"'] := within.subset (by decide)
      rcases List.mem_append.mp comma with mem | mem
      · exact absurd (hexText_digits _ _ mem) (by decide)
      · cases List.mem_singleton.mp mem
  · rcases none with none | none
    · exact absurd none admin
    · rw [none] at shown
      cases shown

/-! ## The bytes -/

/-- The same fleet, under one policy, in one epoch with one group key. -/
structure OneFleet (m m' : Manifest) : Prop where
  epoch : m.epoch = m'.epoch
  groupKeyId : m.groupKeyId = m'.groupKeyId
  byzantineBps : m.byzantineBps = m'.byzantineBps
  maxCompetenceRatio : m.maxCompetenceRatio = m'.maxCompetenceRatio
  members : m.members = m'.members

theorem fleet_determined {m m' : Manifest} (formed : WellFormed m) (formed' : WellFormed m')
    (same : m.canonicalBytes = m'.canonicalBytes) : OneFleet m m' := by
  rw [Manifest.canonicalBytes, Manifest.canonicalBytes, canonical, canonical, formed.phyProfile,
    formed'.phyProfile, formed.heardCapacity, formed'.heardCapacity] at same
  simp only [List.append_assoc, List.append_cancel_left_eq] at same
  obtain ⟨epoch, same⟩ := List.append_inj same (by simp only [be_length])
  obtain ⟨-, same⟩ := List.append_inj same (by simp only [be_length])
  obtain ⟨-, same⟩ := List.append_inj same (by simp only [be_length])
  obtain ⟨groupKey, same⟩ := List.append_inj same (m.groupKeyId.2.trans m'.groupKeyId.2.symm)
  obtain ⟨bps, same⟩ := List.append_inj same (by simp only [be_length])
  obtain ⟨ratio, same⟩ := List.append_inj same (by simp only [be_length])
  rw [List.append_cancel_left_eq, List.append_cancel_left_eq] at same
  obtain ⟨-, members⟩ := List.append_inj same (by simp only [be_length])
  constructor
  · exact UInt16.toNat_inj.mp (be_injective m.epoch.toNat_lt m'.epoch.toNat_lt epoch)
  · exact Subtype.ext groupKey
  · exact UInt32.toNat_inj.mp
      (be_injective m.byzantineBps.toNat_lt m'.byzantineBps.toNat_lt bps)
  · exact UInt32.toNat_inj.mp
      (be_injective m.maxCompetenceRatio.toNat_lt m'.maxCompetenceRatio.toNat_lt ratio)
  · exact members_injective formed.labels formed'.labels members

theorem OneFleet.policy {m m' : Manifest} (one : OneFleet m m') : m.policy = m'.policy := by
  rw [Manifest.policy, Manifest.policy, one.members, one.byzantineBps, one.maxCompetenceRatio]

/-! ## The members of a fleet -/

section members

variable {isKey : Hash → Bool} {files : Nat → Files} {now : Nat → UInt64}
  {commands : Nat → Commands} {starts : Nat → Start C} {honest : Nat → Prop}

/-- The manifest that a member finds in its file. -/
def Filed (isKey : Hash → Bool) (files : Nat → Files) (commands : Nat → Commands) (i : Nat)
    (m : Manifest) : Prop :=
  ∃ path text, (commands i).manifest = some path ∧ (files i).text path = .ok text ∧
    Manifest.parse isKey text = .ok m

/-- Two members have found manifests that are told apart by what is signed, and not by its
digest. -/
def Collision (isKey : Hash → Bool) (C : Primitives) (files : Nat → Files)
    (commands : Nat → Commands) (honest : Nat → Prop) : Prop :=
  ∃ i j m m', honest i ∧ honest j ∧ Filed isKey files commands i m ∧
    Filed isKey files commands j m' ∧ m.canonicalBytes ≠ m'.canonicalBytes ∧
    digest C m = digest C m'

/-- What a member has of its manifest. -/
structure Runs (start : Start C) (m : Manifest) : Prop where
  formed : WellFormed m
  epoch : start.station.fleet.missionEpoch = m.epoch
  ids : start.station.fleet.ids = m.members.map Member.id
  policy : m.policy = .ok start.station.policy
  keyring : start.station.keys.keyring = m.members.map Member.key
  group : start.station.keys.group = fixtureForEpoch C m.groupKeyId m.epoch

/-- Two starts of one fleet have the same of it. -/
structure Alike (start other : Start C) : Prop where
  fleet : start.station.fleet = other.station.fleet
  policy : start.station.policy = other.station.policy
  keyring : start.station.keys.keyring = other.station.keys.keyring
  group : start.station.keys.group = other.station.keys.group

theorem runs_alike {start other : Start C} {m m' : Manifest} (runs : Runs start m)
    (runs' : Runs other m') (one : OneFleet m m') : Alike start other := by
  have epochs : start.station.fleet.missionEpoch = other.station.fleet.missionEpoch := by
    rw [runs.epoch, runs'.epoch, one.epoch]
  have names : start.station.fleet.ids = other.station.fleet.ids := by
    rw [runs.ids, runs'.ids, one.members]
  constructor
  · cases fleet : start.station.fleet
    cases fleet' : other.station.fleet
    rw [fleet, fleet'] at epochs names
    cases epochs
    cases names
    rfl
  · exact Except.ok.inj (runs.policy.symm.trans (one.policy.trans runs'.policy))
  · rw [runs.keyring, runs'.keyring, one.members]
  · rw [runs.group, runs'.group, one.groupKeyId, one.epoch]

/-- The policy of a start is made of its fleet's members. -/
theorem runs_chartered {start : Start C} {m : Manifest} (runs : Runs start m) :
    ∃ members bps ratio, members.map Prod.fst = start.station.fleet.ids ∧
      Policy.withSettings members bps ratio = .ok start.station.policy := by
  refine ⟨FleetFile.standing m.members, m.byzantineBps, m.maxCompetenceRatio, ?_, runs.policy⟩
  rw [runs.ids, FleetFile.standing, List.map_map]
  rfl

theorem launch_runs {i : Nat} (launched : launch isKey C (files i) (now i) (commands i) =
      .ok (starts i)) (given : (commands i).manifest ≠ none) :
    ∃ m, Filed isKey files commands i m ∧ (starts i).manifestDigest = some (digest C m) ∧
      Runs (starts i) m := by
  obtain ⟨-, -, -, shows⟩ := launch_shows launched
  obtain ⟨admin, m, signing, read, epoch, ids, policy, keys, -, shown⟩ := shows given
  obtain ⟨path, text, here, filed, parsed⟩ := read.filed
  refine ⟨m, ⟨path, text, here, filed, parsed⟩, shown, (parse_states parsed).2, epoch, ids,
    policy, ?_, ?_⟩
  · rw [keys]
  · rw [keys]

/-- Whoever shows the line of a member with a manifest has a manifest that says the same. -/
theorem line_alike {i j : Nat} (hi : honest i) (hj : honest j)
    (launched : launch isKey C (files i) (now i) (commands i) = .ok (starts i))
    (launched' : launch isKey C (files j) (now j) (commands j) = .ok (starts j))
    (line : trust (starts i) = trust (starts j)) (given : (commands i).manifest ≠ none)
    (collision : ¬ Collision isKey C files commands honest) :
    Alike (starts j) (starts i) ∧ ∃ m, Runs (starts j) m := by
  obtain ⟨m, filed, shown, runs⟩ := launch_runs launched given
  have admin : (starts i).admin ≠ none := by
    obtain ⟨-, -, -, shows⟩ := launch_shows launched
    obtain ⟨_, _, _, -, -, -, -, -, admin, -⟩ := shows given
    rw [admin]
    rintro ⟨⟩
  have shown' := trust_digest line admin shown
  have given' : (commands j).manifest ≠ none := by
    intro none
    obtain ⟨-, -, without, -⟩ := launch_shows launched'
    rw [(without none).2] at shown'
    cases shown'
  obtain ⟨m', filed', shown'', runs'⟩ := launch_runs launched' given'
  have digests : digest C m = digest C m' := Option.some.inj (shown'.symm.trans shown'')
  have bytes : m.canonicalBytes = m'.canonicalBytes := by
    by_contra apart
    exact collision ⟨i, j, m, m', hi, hj, filed, filed', apart, digests⟩
  exact ⟨runs_alike runs' runs (fleet_determined runs'.formed runs.formed bytes.symm), m', runs'⟩

/-- Members that start with the same line in their logs, one of them with a manifest, run one
fleet in which each has its own place, unless two of their manifests collide. -/
theorem launched_together
    (launched : ∀ i, honest i → launch isKey C (files i) (now i) (commands i) = .ok (starts i))
    (own : ∀ i, honest i → (commands i).index = i)
    (hour : ∀ i j, honest i → honest j → (commands i).clockEpoch = (commands j).clockEpoch)
    (line : ∀ i j, honest i → honest j → trust (starts i) = trust (starts j))
    (given : ∃ i, honest i ∧ (commands i).manifest ≠ none) :
    Collision isKey C files commands honest ∨
      Manned (fun i => (starts i).station) honest ∧
        Chartered (fun i => (starts i).station) honest := by
  by_cases collision : Collision isKey C files commands honest
  · exact Or.inl collision
  right
  obtain ⟨leader, hl, manifested⟩ := given
  have member (i : Nat) (hi : honest i) : Alike (starts i) (starts leader) ∧
      ∃ m, Runs (starts i) m :=
    line_alike hl hi (launched leader hl) (launched i hi) (line leader i hl hi) manifested collision
  constructor
  · constructor
    · intro i hi
      obtain ⟨options, -⟩ := launch_shows (launched i hi)
      rw [options, own i hi]
    · intro i j hi hj
      exact (member i hi).1.fleet.trans (member j hj).1.fleet.symm
    · intro i j hi hj
      obtain ⟨-, subject, -⟩ := launch_shows (launched i hi)
      obtain ⟨-, subject', -⟩ := launch_shows (launched j hj)
      rw [subject, subject', hour i j hi hj]
    · intro i j hi hj
      exact (member i hi).1.keyring.trans (member j hj).1.keyring.symm
    · intro i j hi hj
      exact (member i hi).1.group.trans (member j hj).1.group.symm
  · constructor
    · intro i j hi hj
      exact (member i hi).1.policy.trans (member j hj).1.policy.symm
    · intro i hi
      obtain ⟨m', runs'⟩ := (member i hi).2
      exact runs_chartered runs'

end members

/-! ## Two vessels with different files -/

/-- What is signed of one fleet is the same, however its lines are ordered. -/
theorem pair_bytes {out out' : String} {m m' : Manifest}
    (signs : Manifest.signText Issuing.anyKey plain (.ofList (Issuing.pair header)) Issuing.admin =
      .ok out)
    (signs' : Manifest.signText Issuing.anyKey plain (.ofList (Issuing.pair reordered))
      Issuing.admin = .ok out')
    (parses : Manifest.parse Issuing.anyKey out = .ok m)
    (parses' : Manifest.parse Issuing.anyKey out' = .ok m') :
    m.canonicalBytes = m'.canonicalBytes := by
  obtain ⟨_, _, -, -, rfl⟩ := signText_ok.mp signs
  obtain ⟨_, _, -, -, rfl⟩ := signText_ok.mp signs'
  obtain ⟨said, formed⟩ := parse_states parses
  obtain ⟨said', formed'⟩ := parse_states parses'
  have same : (fleetLines (.ofList (Issuing.pair header))).Perm
      (fleetLines (.ofList (Issuing.pair reordered))) := by
    simp only [fleetLines, contentLines, String.toList_ofList]
    decide +kernel
  rw [fleetLines_finished _ (fingerprint_plain plain _)] at said said'
  exact bytes_determined formed formed'
    (said.symm.trans ((Multiset.coe_eq_coe.mpr same).trans said'))

/-- Starts with manifests of the same bytes under the same key show the same line. -/
theorem launch_trust {isKey : Hash → Bool} {files files' : Files} {now now' : UInt64}
    {options options' : Commands} {start start' : Start C}
    (launched : launch isKey C files now options = .ok start)
    (launched' : launch isKey C files' now' options' = .ok start')
    (given : options.manifest ≠ none) (given' : options'.manifest ≠ none)
    (admins : ∀ admin admin' manifest manifest' signing signing',
      Read isKey C files now options admin manifest signing →
      Read isKey C files' now' options' admin' manifest' signing' →
      admin = admin' ∧ manifest.canonicalBytes = manifest'.canonicalBytes) :
    trust start = trust start' := by
  obtain ⟨-, -, -, shows⟩ := launch_shows launched
  obtain ⟨-, -, -, shows'⟩ := launch_shows launched'
  obtain ⟨admin, m, signing, read, epoch, -, -, -, shown, shown'⟩ := shows given
  obtain ⟨admin', m', signing', read', epoch', -, -, -, other, other'⟩ := shows' given'
  obtain ⟨rfl, bytes⟩ := admins _ _ _ _ _ _ read read'
  obtain ⟨_, _, -, -, parsed⟩ := read.filed
  obtain ⟨_, _, -, -, parsed'⟩ := read'.filed
  have one := fleet_determined (parse_states parsed).2 (parse_states parsed').2 bytes
  rw [trust, trust, shown, shown', other, other', epoch, epoch', one.epoch, digest, digest, bytes]

/-- Two vessels, one with the manifest's lines in another order, start a second apart with the same
line, and they run one fleet. -/
theorem launched_together_pair : ∃ (texts : Nat → String) (starts : Nat → Start plain),
    (∀ i, i < 2 → launch Issuing.anyKey plain (Issuing.aboard (texts i)) (6 + .ofNat i)
      (Issuing.started i) = .ok (starts i)) ∧
    (∀ i j, i < 2 → j < 2 → trust (starts i) = trust (starts j)) ∧
    Manned (fun i => (starts i).station) (· < 2) ∧
    Chartered (fun i => (starts i).station) (· < 2) := by
  obtain ⟨out, signs⟩ := Issuing.pair_signs header (Or.inl rfl)
  obtain ⟨out', signs'⟩ := Issuing.pair_signs reordered (Or.inr rfl)
  obtain ⟨start, launched⟩ := Issuing.pair_runs (Or.inl rfl) signs
    (Or.inl rfl : 0 = 0 ∨ 0 = 1) (by decide : (5 : UInt64) ≤ 6) (by decide)
  obtain ⟨start', launched'⟩ := Issuing.pair_runs (Or.inr rfl) signs'
    (Or.inr rfl : 1 = 0 ∨ 1 = 1) (by decide : (5 : UInt64) ≤ 7) (by decide)
  obtain ⟨m, sound⟩ := Issuing.pair_sound signs
  obtain ⟨m', sound'⟩ := Issuing.pair_sound signs'
  have bytes := pair_bytes signs signs' sound.parses sound'.parses
  have shown : trust start = trust start' := by
    refine launch_trust launched launched' (by rintro ⟨⟩) (by rintro ⟨⟩) ?_
    intro _ _ _ _ _ _ read read'
    obtain ⟨rfl, rfl, -⟩ :=
      (Issuing.delivered_read sound (Issuing.delivered_two out 0)).mp read
    obtain ⟨rfl, rfl, -⟩ :=
      (Issuing.delivered_read sound' (Issuing.delivered_two out' 1)).mp read'
    exact ⟨rfl, bytes⟩
  have two {i : Nat} (hi : i < 2) : i = 0 ∨ i = 1 := by omega
  have begun : ∀ i, i < 2 → launch Issuing.anyKey plain
      (Issuing.aboard (if i = 0 then out else out')) (6 + .ofNat i) (Issuing.started i) =
        .ok (if i = 0 then start else start') := by
    intro i hi
    rcases two hi with rfl | rfl
    · exact launched
    · exact launched'
  have line : ∀ i j, i < 2 → j < 2 →
      trust (if i = 0 then start else start') = trust (if j = 0 then start else start') := by
    intro i j hi hj
    rcases two hi with rfl | rfl
    · rcases two hj with rfl | rfl
      · rfl
      · exact shown
    · rcases two hj with rfl | rfl
      · exact shown.symm
      · rfl
  refine ⟨fun i => if i = 0 then out else out', fun i => if i = 0 then start else start', begun,
    line, ?_⟩
  refine (launched_together begun (fun _ _ => rfl) (fun _ _ _ _ => rfl) line
    ⟨0, by decide, by rintro ⟨⟩⟩).resolve_left ?_
  -- both manifests are of the bytes that were signed
  have filed {i : Nat} (hi : i < 2) {n : Manifest} (filed : Filed Issuing.anyKey
      (fun i => Issuing.aboard (if i = 0 then out else out')) Issuing.started i n) :
      n.canonicalBytes = m.canonicalBytes := by
    obtain ⟨path, text, here, read, parsed⟩ := filed
    cases here
    rcases two hi with rfl | rfl
    · cases read
      cases sound.parses.symm.trans parsed
      rfl
    · cases read
      cases sound'.parses.symm.trans parsed
      exact bytes.symm
  rintro ⟨i, j, n, n', hi, hj, first, second, apart, -⟩
  exact apart ((filed hi first).trans (filed hj second).symm)

end FleetStarts
