import Lcq.BridgeProtocol
import Mathlib.Algebra.Order.BigOperators.Group.List
import Mathlib.Algebra.Order.Ring.Nat

/-!
# The driver's bus

What a driver asks of an SPI bus in one transaction, and the two buses that
carry it out: the virtual one, wired to the chip model, and the bridged one,
which encodes the transaction as records and scatters the reply back into the
caller's buffers.
-/

namespace SpiBus

open ByteFormat KissFrames BridgeProtocol

/-- An operation of a transaction; a buffer is what lies in it. -/
inductive Operation where
  | write (bytes : Bytes)
  | read (buffer : Bytes)
  | transfer (buffer bytes : Bytes)
  | transferInPlace (buffer : Bytes)
  | delayNs (ns : UInt32)
  deriving DecidableEq

/-- One record of a request. The length has sixteen bits. -/
def push (kind : UInt8) (length : Nat) (bytes : Bytes) : Bytes :=
  let length := min length 65535
  kind :: .ofNat (length % 256) :: .ofNat (length / 256) :: bytes

namespace Operation

/-- What is clocked out over the bridge: the write side, then zeros for a longer read side. -/
def padded : Operation → Bytes
  | .write bytes => bytes
  | .transfer buffer bytes => bytes ++ List.replicate (buffer.length - bytes.length) 0
  | .transferInPlace buffer => buffer
  | _ => []

def record : Operation → Bytes
  | .write bytes => push opWrite bytes.length bytes
  | .read buffer => push opRead buffer.length []
  | .transfer buffer bytes =>
    push opTransfer (max buffer.length bytes.length) (padded (.transfer buffer bytes))
  | .transferInPlace buffer => push opTransfer buffer.length buffer
  | .delayNs ns => push opDelay ((ns.toNat + 999) / 1000) []

/-- What is clocked out on the virtual bus. -/
def clocked : Operation → Bytes
  | .write bytes => bytes
  | .transfer _ bytes => bytes
  | .transferInPlace buffer => buffer
  | _ => []

/-- How long the read buffer is. -/
def room : Operation → Nat
  | .read buffer => buffer.length
  | .transfer buffer _ => buffer.length
  | .transferInPlace buffer => buffer.length
  | _ => 0

/-- Bytes of a bridged reply past the read buffer. -/
def skip : Operation → Nat
  | .transfer buffer bytes => bytes.length - buffer.length
  | _ => 0

def filled (came : Bytes) : Operation → Operation
  | .read _ => .read came
  | .transfer _ bytes => .transfer came bytes
  | .transferInPlace _ => .transferInPlace came
  | op => op

/-- What the reference device makes of the record. -/
def sent : Operation → Op
  | .write bytes => ⟨opWrite, bytes.length, bytes⟩
  | .read buffer => ⟨opRead, buffer.length, []⟩
  | .transfer buffer bytes =>
    ⟨opTransfer, max buffer.length bytes.length, padded (.transfer buffer bytes)⟩
  | .transferInPlace buffer => ⟨opTransfer, buffer.length, buffer⟩
  | .delayNs ns => ⟨opDelay, min ((ns.toNat + 999) / 1000) 65535, []⟩

end Operation

/-- A driver's transaction as the payload of an `SPI` request. -/
def encodeOperations (operations : List Operation) : Bytes :=
  operations.flatMap Operation.record

/-- What a transaction left: the chip, and the operations with their buffers. -/
structure Ran (S : Type) where
  chip : S
  operations : List Operation

variable {S : Type} (chip : Chip S)

namespace VirtualSpi

/-- Every read buffer filled from the reply, in order. -/
def fill : Bytes → List Operation → List Operation
  | _, [] => []
  | reply, op :: operations =>
    op.filled (supply reply op.room) :: fill (reply.drop op.room) operations

def transaction (s : S) (operations : List Operation) : Ran S :=
  let replied := chip.command s (operations.flatMap Operation.clocked)
  ⟨replied.2, fill replied.1 operations⟩

end VirtualSpi

namespace BridgeSpi

def shortReply (missing : Nat) : String := s!"SPI reply short by {missing} bytes"

/-- Scatter the bytes of a reply into the read buffers. -/
def scatter : Bytes → List Operation → Except String (List Operation)
  | _, [] => .ok []
  | bytes, op :: operations =>
    let wanted := op.room + op.skip
    if bytes.length < wanted then .error (shortReply (wanted - bytes.length))
    else
      match scatter (bytes.drop wanted) operations with
      | .error missing => .error missing
      | .ok rest => .ok (op.filled (bytes.take op.room) :: rest)

/-- What scattering a reply of the reference device comes to. -/
def fill : Bytes → List Operation → List Operation
  | _, [] => []
  | answer, op :: operations =>
    op.filled (supply answer op.room) :: fill (answer.drop (op.room + op.skip)) operations

end BridgeSpi

/-! ## Records are read back -/

/-- Request and reply fit their frames. -/
def Fits (operations : List Operation) : Prop :=
  (encodeOperations operations).length + 1 ≤ frameLimit ∧
    (operations.map fun op => op.room + op.skip).sum + 2 ≤ frameLimit

theorem wordOf_le (n : Nat) (small : n ≤ 65535) :
    wordOf (.ofNat (n % 256)) (.ofNat (n / 256)) = n := by
  have low : (UInt8.ofNat (n % 256)).toNat = n % 256 := by
    rw [UInt8.toNat_ofNat']
    omega
  have high : (UInt8.ofNat (n / 256)).toNat = n / 256 := by
    rw [UInt8.toNat_ofNat']
    omega
  rw [wordOf, low, high]
  omega

/-- A record of bytes to clock out is read off the front. -/
theorem decode_bytes {kind : UInt8} (clocks : kind = opWrite ∨ kind = opTransfer) (fuel : Nat)
    {bytes : Bytes} (small : bytes.length ≤ 65535) (rest : Bytes) :
    decodeFrom (fuel + 1) (push kind bytes.length bytes ++ rest) =
      (decodeFrom fuel rest).map (⟨kind, bytes.length, bytes⟩ :: ·) := by
  have word := wordOf_le bytes.length small
  simp only [push, Nat.min_eq_left small, List.cons_append, decodeFrom, if_pos clocks, word]
  rw [if_neg (by simp), List.drop_left, List.take_left]

/-- A record without bytes is read off the front. -/
theorem decode_plain {kind : UInt8} (plain : kind = opRead ∨ kind = opDelay) (fuel : Nat)
    (length : Nat) (rest : Bytes) :
    decodeFrom (fuel + 1) (push kind length [] ++ rest) =
      (decodeFrom fuel rest).map (⟨kind, min length 65535, []⟩ :: ·) := by
  have clocks : ¬ (kind = opWrite ∨ kind = opTransfer) := by
    rcases plain with rfl | rfl
    · decide
    · decide
  have word := wordOf_le (min length 65535) (Nat.min_le_right _ _)
  simp only [push, List.cons_append, List.nil_append, decodeFrom, if_neg clocks, if_pos plain,
    word]

theorem record_length_pos (op : Operation) : 0 < op.record.length := by
  cases op <;> exact Nat.succ_pos _

theorem padded_length (buffer bytes : Bytes) :
    (Operation.transfer buffer bytes).padded.length = max buffer.length bytes.length := by
  simp only [Operation.padded, List.length_append, List.length_replicate]
  omega

/-- The lengths of an operation have room in its record. -/
def Narrow (op : Operation) : Prop := op.padded.length ≤ 65535 ∧ op.room ≤ 65535

theorem decode_record {op : Operation} (narrow : Narrow op) (fuel : Nat) (rest : Bytes) :
    decodeFrom (fuel + 1) (op.record ++ rest) = (decodeFrom fuel rest).map (op.sent :: ·) := by
  obtain ⟨clocks, reads⟩ := narrow
  cases op with
  | write bytes => exact decode_bytes (Or.inl rfl) fuel clocks rest
  | read buffer =>
    have whole : min buffer.length 65535 = buffer.length := Nat.min_eq_left reads
    have decoded := decode_plain (Or.inl rfl) fuel buffer.length rest
    rwa [whole] at decoded
  | transfer buffer bytes =>
    have length := padded_length buffer bytes
    have decoded := decode_bytes (Or.inr rfl) fuel clocks rest
    rwa [length] at decoded
  | transferInPlace buffer => exact decode_bytes (Or.inr rfl) fuel clocks rest
  | delayNs ns => exact decode_plain (Or.inr rfl) fuel _ rest

/-- The device reads back the operations the driver asked for. -/
theorem decode_narrow {operations : List Operation} (narrow : ∀ op ∈ operations, Narrow op) :
    decodeOperations (encodeOperations operations) =
      some (operations.map Operation.sent) := by
  suffices read : ∀ fuel, (encodeOperations operations).length ≤ fuel →
      decodeFrom fuel (encodeOperations operations) = some (operations.map Operation.sent) from
    read _ (Nat.le_refl _)
  induction operations with
  | nil => exact fun fuel _ => by cases fuel <;> rfl
  | cons op operations ih =>
    intro fuel enough
    rw [encodeOperations, List.flatMap_cons, List.length_append] at enough
    have holds := record_length_pos op
    obtain ⟨fuel, rfl⟩ : ∃ less, fuel = less + 1 := ⟨fuel - 1, by omega⟩
    have rest := ih (fun later mem => narrow later (List.mem_cons_of_mem _ mem)) fuel
      (by rw [encodeOperations]; omega)
    rw [encodeOperations, List.flatMap_cons, decode_record (narrow op List.mem_cons_self),
      ← encodeOperations, rest]
    rfl

/-- A record that fits a frame leaves room for its lengths. -/
theorem narrow_record {op : Operation} (small : op.record.length ≤ frameLimit)
    (reads : op.room ≤ 65535) : Narrow op := by
  have limit : frameLimit = 1100 := rfl
  have short : op.padded.length ≤ op.record.length := by
    cases op with
    | delayNs => exact Nat.zero_le _
    | _ => simp only [Operation.padded, Operation.record, push, List.length_cons]; omega
  exact ⟨by omega, reads⟩

theorem decode_encode {operations : List Operation} (fits : Fits operations) :
    decodeOperations (encodeOperations operations) =
      some (operations.map Operation.sent) := by
  have limit : frameLimit = 1100 := rfl
  obtain ⟨request, reply⟩ := fits
  apply decode_narrow
  intro op mem
  have record : op.record.length ≤ (encodeOperations operations).length := by
    rw [encodeOperations, List.length_flatMap]
    exact List.single_le_sum (fun _ _ => Nat.zero_le _) _ (List.mem_map.mpr ⟨op, mem, rfl⟩)
  have room : op.room + op.skip ≤ (operations.map fun op => op.room + op.skip).sum :=
    List.single_le_sum (fun _ _ => Nat.zero_le _) _ (List.mem_map.mpr ⟨op, mem, rfl⟩)
  exact narrow_record (by omega) (by omega)

/-! ## Where the buffers agree -/

theorem returns_sent (op : Operation) : op.sent.returns = op.room + op.skip := by
  cases op with
  | transfer buffer bytes =>
    show max buffer.length bytes.length = buffer.length + (bytes.length - buffer.length)
    omega
  | _ => rfl

theorem wanted_sent (operations : List Operation) :
    wanted (operations.map Operation.sent) =
      (operations.map fun op => op.room + op.skip).sum := by
  rw [wanted, List.map_map]
  congr 1
  exact List.map_congr_left fun op _ => returns_sent op

theorem supply_take {short long : Nat} (le : short ≤ long) (answer : Bytes) :
    (supply answer long).take short = supply answer short := by
  rw [supply, supply, List.take_append, List.take_take, List.take_replicate, List.length_take,
    Nat.min_eq_left le]
  congr 2
  omega

/-- The reply of the reference device fills every buffer. -/
theorem scatter_answers (answer : Bytes) (operations : List Operation) :
    BridgeSpi.scatter (answers answer (operations.map Operation.sent)) operations =
      .ok (BridgeSpi.fill answer operations) := by
  induction operations generalizing answer with
  | nil => rfl
  | cons op operations ih =>
    have head : (supply answer (op.room + op.skip)).length = op.room + op.skip :=
      supply_length _ _
    rw [List.map_cons, answers, returns_sent, BridgeSpi.scatter,
      if_neg (by simp only [List.length_append, head]; omega), List.drop_left' head, ih]
    show Except.ok (_ :: _) = _
    rw [List.take_append_of_le_length (by omega), supply_take (Nat.le_add_right _ _)]
    rfl

/-- No transfer reads more than it writes, and after one that writes more nothing is read. -/
def Even (operations : List Operation) : Prop :=
  (∀ buffer bytes, .transfer buffer bytes ∈ operations → buffer.length ≤ bytes.length) ∧
    operations.Pairwise fun op later => op.skip = 0 ∨ later.room = 0

theorem filled_injective {op : Operation} {came other : Bytes} (room : 0 < op.room)
    (same : op.filled came = op.filled other) : came = other := by
  cases op with
  | read => exact Operation.read.inj same
  | transfer => exact (Operation.transfer.inj same).1
  | transferInPlace => exact Operation.transferInPlace.inj same
  | _ => exact absurd room (Nat.lt_irrefl 0)

/-- An answer that differs at one place and at no later one. -/
def marked (place : Nat) : Bytes := List.replicate place 0 ++ [1]

theorem supply_marked {place later room : Nat} (behind : place < later) (some_ : 0 < room) :
    supply ((marked place).drop place) room ≠ supply ((marked place).drop later) room := by
  have here : (marked place).drop place = [1] := by simp [marked]
  have gone : (marked place).drop later = [] := by
    rw [List.drop_eq_nil_iff, marked]
    simp only [List.length_append, List.length_replicate, List.length_singleton]
    omega
  rw [here, gone]
  obtain ⟨less, rfl⟩ : ∃ less, room = less + 1 := ⟨room - 1, by omega⟩
  intro same
  have first := congrArg List.head? same
  simp [supply, List.replicate_succ] at first

/-- Two readings of every answer, the second one further on, fill the same buffers only where
they are at the same place or nothing is left to fill. -/
theorem fill_agree_iff {place later : Nat} (le : place ≤ later) (operations : List Operation) :
    (∀ answer : Bytes, VirtualSpi.fill (answer.drop place) operations =
        BridgeSpi.fill (answer.drop later) operations) ↔
      (place = later ∨ ∀ op ∈ operations, op.room = 0) ∧
        operations.Pairwise fun op after => op.skip = 0 ∨ after.room = 0 := by
  induction operations generalizing place later with
  | nil => simp [VirtualSpi.fill, BridgeSpi.fill]
  | cons op operations ih =>
    have next : place + op.room ≤ later + (op.room + op.skip) := by omega
    simp only [VirtualSpi.fill, BridgeSpi.fill, List.cons.injEq, List.drop_drop, forall_and,
      ih next, List.pairwise_cons, List.mem_cons, forall_eq_or_imp]
    constructor
    · rintro ⟨heads, level | roomless, pairs⟩
      · exact ⟨Or.inl (by omega), fun _ _ => Or.inl (by omega), pairs⟩
      · refine ⟨?_, fun after mem => Or.inr (roomless after mem), pairs⟩
        by_cases same : place = later
        · exact Or.inl same
        · refine Or.inr ⟨?_, roomless⟩
          by_contra room
          have some_ : 0 < op.room := Nat.pos_of_ne_zero room
          exact supply_marked (by omega) some_ (filled_injective some_ (heads (marked place)))
    · rintro ⟨rfl | ⟨none, roomless⟩, after, pairs⟩
      · refine ⟨fun _ => rfl, ?_, pairs⟩
        by_cases level : op.skip = 0
        · exact Or.inl (by omega)
        · exact Or.inr fun last mem => (after last mem).resolve_left level
      · refine ⟨fun answer => ?_, Or.inr roomless, pairs⟩
        rw [none]
        simp [supply]

theorem clocked_le_padded (op : Operation) : op.clocked.length ≤ op.padded.length := by
  cases op <;> simp [Operation.clocked, Operation.padded]

theorem flatMap_clocked_le (operations : List Operation) :
    (operations.flatMap Operation.clocked).length ≤
      (operations.flatMap Operation.padded).length := by
  induction operations with
  | nil => exact Nat.le_refl _
  | cons op operations ih =>
    have := clocked_le_padded op
    simp only [List.flatMap_cons, List.length_append]
    omega

/-- Bytes that are as many were not padded anywhere. -/
theorem unpadded {operations : List Operation}
    (same : (operations.flatMap Operation.padded).length =
      (operations.flatMap Operation.clocked).length) {buffer bytes : Bytes}
    (mem : .transfer buffer bytes ∈ operations) : buffer.length ≤ bytes.length := by
  induction operations with
  | nil => exact absurd mem List.not_mem_nil
  | cons op operations ih =>
    have here := clocked_le_padded op
    have later := flatMap_clocked_le operations
    simp only [List.flatMap_cons, List.length_append] at same
    rcases List.mem_cons.mp mem with rfl | mem
    · have padded := padded_length buffer bytes
      have clocked : (Operation.transfer buffer bytes).clocked.length = bytes.length := rfl
      omega
    · exact ih (by omega) mem

/-- Zeros are added only where a transfer reads more than it writes. -/
theorem padded_eq_iff (operations : List Operation) :
    operations.flatMap Operation.padded = operations.flatMap Operation.clocked ↔
      ∀ buffer bytes, .transfer buffer bytes ∈ operations → buffer.length ≤ bytes.length := by
  constructor
  · intro same buffer bytes mem
    exact unpadded (congrArg List.length same) mem
  · intro even
    have each (op : Operation) (mem : op ∈ operations) : op.padded = op.clocked := by
      cases op with
      | transfer buffer bytes =>
        have none : buffer.length - bytes.length = 0 := by
          have := even buffer bytes mem
          omega
        simp [Operation.padded, Operation.clocked, none]
      | _ => rfl
    exact List.flatMap_congr each

end SpiBus
