import Lcq.ByteFormat

/-!
# What is said, and about exactly which claim

Protocol time, the subject of an endorsement, and an utterance about it. Time
is whole seconds; a deadline is certainly past or certainly ahead only by more
than two honest clocks can differ, and in between neither is.
-/

namespace Contracts

open ByteFormat

/-! ## Machine arithmetic -/

def saturatingAdd (a b : UInt64) : UInt64 :=
  if a.toNat + b.toNat < 2 ^ 64 then a + b else 18446744073709551615

theorem saturatingAdd_toNat (a b : UInt64) :
    (saturatingAdd a b).toNat = min (a.toNat + b.toNat) (2 ^ 64 - 1) := by
  unfold saturatingAdd
  split
  · rename_i fits
    rw [UInt64.toNat_add, Nat.mod_eq_of_lt fits]
    omega
  · rename_i above
    have top : (18446744073709551615 : UInt64).toNat = 2 ^ 64 - 1 := rfl
    rw [top]
    omega

def saturatingSub (a b : UInt64) : UInt64 :=
  if b ≤ a then a - b else 0

theorem saturatingSub_toNat (a b : UInt64) :
    (saturatingSub a b).toNat = a.toNat - b.toNat := by
  unfold saturatingSub
  split
  · rename_i le
    exact UInt64.toNat_sub_of_le a b le
  · rename_i lt
    rw [UInt64.le_iff_toNat_le] at lt
    have zero : (0 : UInt64).toNat = 0 := rfl
    omega

theorem max64_toNat (a b : UInt64) : (max a b).toNat = max a.toNat b.toNat := by
  rw [show max a b = if a ≤ b then b else a from rfl]
  split
  · rename_i le
    rw [UInt64.le_iff_toNat_le] at le
    omega
  · rename_i gt
    rw [UInt64.le_iff_toNat_le] at gt
    omega

theorem max16_toNat (a b : UInt16) : (max a b).toNat = max a.toNat b.toNat := by
  rw [show max a b = if a ≤ b then b else a from rfl]
  split
  · rename_i le
    rw [UInt16.le_iff_toNat_le] at le
    omega
  · rename_i gt
    rw [UInt16.le_iff_toNat_le] at gt
    omega

/-! ## Time -/

/-- The largest difference between any two honest clocks, in seconds. -/
def maxClockSkewSeconds : UInt64 := 30

/-- Whole seconds since the mission epoch. -/
structure Timestamp where
  secs : UInt64
  deriving DecidableEq, Repr

namespace Timestamp

def plusSecs (t : Timestamp) (seconds : UInt64) : Timestamp :=
  ⟨saturatingAdd t.secs seconds⟩

def secsUntil (t later : Timestamp) : UInt64 :=
  saturatingSub later.secs t.secs

end Timestamp

def certainlyAfter (now deadline : Timestamp) : Bool :=
  decide (saturatingAdd deadline.secs maxClockSkewSeconds < now.secs)

def certainlyBefore (now deadline : Timestamp) : Bool :=
  decide (saturatingAdd now.secs maxClockSkewSeconds < deadline.secs)

def uncertainAbout (now deadline : Timestamp) : Bool :=
  !certainlyAfter now deadline && !certainlyBefore now deadline

/-- A clock that only moves forward never takes back that a deadline is past. -/
theorem certainlyAfter_mono {early late deadline : Timestamp} (le : early.secs ≤ late.secs)
    (past : certainlyAfter early deadline = true) : certainlyAfter late deadline = true := by
  simp only [certainlyAfter, decide_eq_true_eq] at past ⊢
  exact UInt64.lt_of_lt_of_le past le

/-! ## The claim -/

def consultationCutoffSeconds : UInt64 := 300
def endorsementTargetSeconds : UInt64 := 600
def phaseSettleSeconds : UInt64 := 2
def bindingStageOpensSeconds : UInt64 :=
  consultationCutoffSeconds + 2 * maxClockSkewSeconds + phaseSettleSeconds
def defaultValiditySeconds : UInt64 := 1800

abbrev Hash := {bytes : Bytes // bytes.length = 32}

/-- The thing being endorsed. Neither identifier is blank. -/
structure Subject where
  mission : String
  event : String
  revision : UInt32
  contentHash : Hash
  startedAt : Timestamp
  named : mission ≠ "" ∧ event ≠ ""
  deriving DecidableEq

namespace Subject

inductive SubjectError where
  | blankIdentifier
  deriving DecidableEq, Repr

def new (mission event : String) (revision : UInt32) (contentHash : Hash)
    (startedAt : Timestamp) : Except SubjectError Subject :=
  if blank : mission = "" ∨ event = "" then .error .blankIdentifier
  else .ok ⟨mission, event, revision, contentHash, startedAt, not_or.mp blank⟩

def consultationCutoff (s : Subject) : Timestamp :=
  s.startedAt.plusSecs consultationCutoffSeconds

def defaultExpiry (s : Subject) : Timestamp :=
  s.startedAt.plusSecs defaultValiditySeconds

def sameLogicalCaseAndRevision (s other : Subject) : Bool := decide (s = other)

end Subject

/-! ## The utterance -/

inductive Verdict where
  | support
  | dispute
  | insufficientData
  deriving DecidableEq, Repr

def Verdict.canSupportApproval : Verdict → Bool
  | .support => true
  | _ => false

theorem Verdict.canSupportApproval_iff (v : Verdict) :
    v.canSupportApproval = true ↔ v = .support := by
  cases v <;> simp [canSupportApproval]

inductive Stage where
  | independent
  | consultation
  | bindingSupport
  deriving DecidableEq, Repr

def Stage.isBinding : Stage → Bool
  | .bindingSupport => true
  | _ => false

structure Opinion where
  author : String
  subject : Subject
  stage : Stage
  verdict : Verdict
  deriving DecidableEq

def Opinion.isBinding (o : Opinion) : Bool := o.stage.isBinding

end Contracts
