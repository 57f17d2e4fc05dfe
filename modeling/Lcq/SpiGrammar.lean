import Lcq.SpiBus

/-!
# The grammar of an `SPI` request

A request is a row of records, and the reference device and the firmware accept
the same requests. The firmware checks a request in one walk and carries it out
in a second, unchecked one, which stays inside its buffers.
-/

namespace SpiGrammar

open ByteFormat KissFrames BridgeProtocol SpiBus

/-! ## Records -/

/-- What a record may be: bytes to clock out stand in a write or a transfer and nowhere else. -/
inductive Legal : Op → Prop
  | clocks {kind : UInt8} {bytes : Bytes} (clocks : kind = opWrite ∨ kind = opTransfer)
      (narrow : bytes.length < 2 ^ 16) : Legal ⟨kind, bytes.length, bytes⟩
  | plain {kind : UInt8} {length : Nat} (plain : kind = opRead ∨ kind = opDelay)
      (narrow : length < 2 ^ 16) : Legal ⟨kind, length, []⟩

def serial (op : Op) : Bytes := push op.kind op.length op.bytes

theorem wordOf_lt (low high : UInt8) : wordOf low high < 2 ^ 16 := by
  have small := low.toNat_lt
  have small' := high.toNat_lt
  rw [wordOf]
  omega

theorem serial_wordOf (kind low high : UInt8) (bytes : Bytes) :
    serial ⟨kind, wordOf low high, bytes⟩ = kind :: low :: high :: bytes := by
  have word := wordOf_lt low high
  have small := low.toNat_lt
  have lower : wordOf low high % 256 = low.toNat := by
    rw [wordOf]
    omega
  have upper : wordOf low high / 256 = high.toNat := by
    rw [wordOf]
    omega
  have whole : min (wordOf low high) 65535 = wordOf low high := by omega
  simp only [serial, push, whole, lower, upper, UInt8.ofNat_toNat]

/-- What is read is legal and was written as it stands. -/
theorem decodeFrom_sound {fuel : Nat} {payload : Bytes} {ops : List Op}
    (decoded : decodeFrom fuel payload = some ops) :
    (∀ op ∈ ops, Legal op) ∧ ops.flatMap serial = payload := by
  induction fuel generalizing payload ops with
  | zero =>
    rcases payload with _ | ⟨_, _ | ⟨_, _ | _⟩⟩
    · cases decoded
      exact ⟨by simp, rfl⟩
    all_goals cases decoded
  | succ fuel ih =>
    rcases payload with _ | ⟨kind, _ | ⟨low, _ | ⟨high, after⟩⟩⟩
    · cases decoded
      exact ⟨by simp, rfl⟩
    · cases decoded
    · cases decoded
    · simp only [decodeFrom] at decoded
      have narrow := wordOf_lt low high
      split at decoded
      · rename_i clocks
        split at decoded
        · cases decoded
        · rename_i enough
          obtain ⟨rest, later, rfl⟩ := Option.map_eq_some_iff.mp decoded
          obtain ⟨legal, spelled⟩ := ih later
          have length : (after.take (wordOf low high)).length = wordOf low high := by
            rw [List.length_take]
            omega
          refine ⟨List.forall_mem_cons.mpr ⟨?_, legal⟩, ?_⟩
          · have here := Legal.clocks clocks (length.symm ▸ narrow)
            rwa [length] at here
          · rw [List.flatMap_cons, serial_wordOf, spelled]
            simp
      · split at decoded
        · rename_i plain
          obtain ⟨rest, later, rfl⟩ := Option.map_eq_some_iff.mp decoded
          obtain ⟨legal, spelled⟩ := ih later
          refine ⟨List.forall_mem_cons.mpr ⟨.plain plain narrow, legal⟩, ?_⟩
          rw [List.flatMap_cons, serial_wordOf, spelled]
          rfl
        · cases decoded

theorem decode_serial {op : Op} (legal : Legal op) (fuel : Nat) (rest : Bytes) :
    decodeFrom (fuel + 1) (serial op ++ rest) = (decodeFrom fuel rest).map (op :: ·) := by
  cases legal with
  | clocks clocks narrow => exact decode_bytes clocks fuel (Nat.le_of_lt_succ narrow) rest
  | @plain kind length plain narrow =>
    have decoded := decode_plain plain fuel length rest
    rwa [Nat.min_eq_left (Nat.le_of_lt_succ narrow)] at decoded

/-- Every row of legal records is read, given fuel for each byte. -/
theorem decodeFrom_complete {ops : List Op} (legal : ∀ op ∈ ops, Legal op) {fuel : Nat}
    (enough : (ops.flatMap serial).length ≤ fuel) :
    decodeFrom fuel (ops.flatMap serial) = some ops := by
  induction ops generalizing fuel with
  | nil => cases fuel <;> rfl
  | cons op ops ih =>
    obtain ⟨here, later⟩ := List.forall_mem_cons.mp legal
    have header : (serial op).length = op.bytes.length + 3 := rfl
    rw [List.flatMap_cons, List.length_append, header] at enough
    obtain ⟨fuel, rfl⟩ : ∃ less, fuel = less + 1 := ⟨fuel - 1, by omega⟩
    rw [List.flatMap_cons, decode_serial here, ih later (by omega)]
    rfl

/-- A request is accepted exactly if it is a row of legal records, and these are what is read. -/
theorem decodeOperations_iff (payload : Bytes) (ops : List Op) :
    decodeOperations payload = some ops ↔
      (∀ op ∈ ops, Legal op) ∧ payload = ops.flatMap serial := by
  constructor
  · intro decoded
    obtain ⟨legal, spelled⟩ := decodeFrom_sound decoded
    exact ⟨legal, spelled.symm⟩
  · rintro ⟨legal, rfl⟩
    exact decodeFrom_complete legal (Nat.le_refl _)

/-! ## The driver's operations -/

/-- What an operation asks to have paused, in nanoseconds. -/
def asksPause : Operation → Nat
  | .delayNs ns => ns.toNat
  | _ => 0

/-- What a record pauses, in nanoseconds. -/
def pauses (op : Op) : Nat := if op.kind = opDelay then 1000 * op.length else 0

def longestPause : Nat := 65535000

def buffers : Operation → List Bytes
  | .write bytes => [bytes]
  | .read buffer => [buffer]
  | .transfer buffer bytes => [buffer, bytes]
  | .transferInPlace buffer => [buffer]
  | .delayNs _ => []

theorem narrow_buffers {op : Operation} (small : ∀ buffer ∈ buffers op, buffer.length ≤ 65535) :
    Narrow op := by
  cases op with
  | transfer buffer bytes =>
    have reads := small buffer (by simp [buffers])
    have clocks := small bytes (by simp [buffers])
    refine ⟨?_, reads⟩
    rw [padded_length]
    omega
  | write bytes => exact ⟨small bytes (by simp [buffers]), Nat.zero_le _⟩
  | read buffer => exact ⟨Nat.zero_le _, small buffer (by simp [buffers])⟩
  | transferInPlace buffer =>
    exact ⟨small buffer (by simp [buffers]), small buffer (by simp [buffers])⟩
  | delayNs ns => exact ⟨Nat.zero_le _, Nat.zero_le _⟩

/-- A record does what the operation asks, pauses past the longest one apart. -/
structure Does (op : Operation) (record : Op) : Prop where
  clocks : record.bytes = op.padded
  reads : op.room ≤ record.returns
  waits : min (asksPause op) longestPause ≤ pauses record

theorem sent_does (op : Operation) : Does op op.sent := by
  refine ⟨?_, ?_, ?_⟩
  · cases op <;> rfl
  · rw [returns_sent]
    omega
  · cases op with
    | delayNs ns =>
      have whole : pauses (Operation.delayNs ns).sent =
          1000 * min ((ns.toNat + 999) / 1000) 65535 := rfl
      rw [whole, asksPause, longestPause]
      omega
    | _ => simp [asksPause]

/-- Each operation becomes one record, in order, which clocks out the same bytes, reads back
what is wanted, and pauses as long as asked or as long as a record can. -/
theorem encoding_faithful (operations : List Operation)
    (small : ∀ op ∈ operations, ∀ buffer ∈ buffers op, buffer.length ≤ 65535) :
    ∃ records, decodeOperations (encodeOperations operations) = some records ∧
      List.Forall₂ Does operations records := by
  refine ⟨operations.map Operation.sent, decode_narrow fun op mem => narrow_buffers (small op mem),
    ?_⟩
  rw [List.forall₂_map_right_iff, List.forall₂_same]
  exact fun op _ => sent_does op

theorem encoding_faithful_transfer : ∃ records,
    decodeOperations (encodeOperations [.transfer [0, 0, 0] [7], .delayNs 2500]) = some records ∧
      List.Forall₂ Does [.transfer [0, 0, 0] [7], .delayNs 2500] records :=
  encoding_faithful [.transfer [0, 0, 0] [7], .delayNs 2500] (by decide)

/-- A pause of more than 65535 microseconds is cut short. -/
theorem encoding_clamps : ∃ records,
    decodeOperations (encodeOperations [.delayNs 65535001]) = some records ∧
      ¬ List.Forall₂ (fun op record => asksPause op ≤ pauses record) [.delayNs 65535001] records := by
  refine ⟨[⟨opDelay, 65535, []⟩], by decide, ?_⟩
  rintro (_ | ⟨short, _⟩)
  revert short
  decide

end SpiGrammar
