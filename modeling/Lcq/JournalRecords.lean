import Lcq.JournalState
import Lcq.RecordLog

/-!
# Records on disk

How one entry becomes a checksummed record, how a file is replayed into a
state, and the key a vote lock is stored under. The serialiser is a parameter:
all that is relied on is that it decodes exactly what it encoded.
-/

namespace JournalRecords

open ByteFormat Contracts JournalState

/-! ## The checksum -/

def polynomial : UInt32 := 0xEDB88320

/-- The entry the lookup table holds at an index: eight shifts of it. -/
def tableEntry (index : UInt32) : UInt32 :=
  (List.range 8).foldl
    (fun value _ => if value &&& 1 = 1 then (value >>> 1) ^^^ polynomial else value >>> 1) index

def crc32 (bytes : Bytes) : UInt32 :=
  ~~~ bytes.foldl
    (fun crc byte => (crc >>> 8) ^^^ tableEntry ((crc ^^^ byte.toUInt32) &&& 0xFF)) 0xFFFFFFFF

example : crc32 [49, 50, 51, 52, 53, 54, 55, 56, 57] = 0xCBF43926 := by decide

/-! ## The serialiser -/

/-- What a journal needs of its serialiser. An error carries its own text. -/
structure Postcard where
  toAllocvec : Entry → Except String Bytes
  fromBytes : Bytes → Option Entry
  fromBytes_toAllocvec : ∀ e p, toAllocvec e = .ok p → fromBytes p = some e

/-- The variant number of an entry, in the order of its declaration. -/
def variant : Entry → UInt32
  | .vote .. => 0
  | .sequence .. => 1
  | .seen .. => 2
  | .epoch .. => 3
  | .retired .. => 4
  | .witnessed .. => 5
  | .lock .. => 6
  | .frame .. => 7

open Coder in
/-- The fields of each variant, one after the other. -/
def variantFields : UInt32 → Coder Entry
  | 0 => (pair text (pair varint64 (pair lengthed (opt varint64)))).along
      (fun | .vote key sequence bytes expiresAt => some (key, sequence, bytes, expiresAt)
           | _ => none)
      (fun r => some (.vote r.1 r.2.1 r.2.2.1 r.2.2.2))
      (by intro e _ h; cases e <;> cases h; rfl)
  | 1 => varint64.along (fun | .sequence next => some next | _ => none)
      (fun r => some (.sequence r)) (by intro e _ h; cases e <;> cases h; rfl)
  | 2 => (pair varint16 varint64).along
      (fun | .seen sender sequence => some (sender, sequence) | _ => none)
      (fun r => some (.seen r.1 r.2)) (by intro e _ h; cases e <;> cases h; rfl)
  | 3 => varint16.along (fun | .epoch epoch => some epoch | _ => none)
      (fun r => some (.epoch r)) (by intro e _ h; cases e <;> cases h; rfl)
  | 4 => varint64.along (fun | .retired sequence => some sequence | _ => none)
      (fun r => some (.retired r)) (by intro e _ h; cases e <;> cases h; rfl)
  | 5 => (pair text lengthed).along
      (fun | .witnessed author bytes => some (author, bytes) | _ => none)
      (fun r => some (.witnessed r.1 r.2)) (by intro e _ h; cases e <;> cases h; rfl)
  | 6 => text.along (fun | .lock key => some key | _ => none)
      (fun r => some (.lock r)) (by intro e _ h; cases e <;> cases h; rfl)
  | 7 => (pair varint64 (pair lengthed (opt varint64))).along
      (fun | .frame sequence bytes expiresAt => some (sequence, bytes, expiresAt) | _ => none)
      (fun r => some (.frame r.1 r.2.1 r.2.2)) (by intro e _ h; cases e <;> cases h; rfl)
  | _ => never

def entryCoder : Coder Entry := Coder.tagged variant variantFields

/-- The serialiser's documented format: variant number, then fields, numbers in base 128. -/
def postcard : Postcard where
  toAllocvec e := match entryCoder.write e with
    | none => .error "The serialize buffer is full"
    | some p => .ok p
  fromBytes bytes := (entryCoder.read bytes).map Prod.fst
  fromBytes_toAllocvec e p h := by
    split at h
    · cases h
    · rename_i w written
      cases h
      have back := entryCoder.read_write e p [] written
      rw [List.append_nil] at back
      simp [back]

/-! ## Records -/

inductive IoError where
  | invalidData (message : String)
  /-- Whatever the operating system said. -/
  | os
  deriving DecidableEq

def maxRecordBytes : Nat := 64 * 1024

variable (P : Postcard)

/-- Frame one entry as length, payload, checksum. A payload within the limit has a
length that fits its four bytes. -/
def encode (e : Entry) : Except IoError Bytes :=
  match P.toAllocvec e with
  | .error error => .error (.invalidData error)
  | .ok payload =>
    if maxRecordBytes < payload.length then
      .error (.invalidData "journal record exceeds the maximum readable size")
    else
      .ok (RecordLog.le32 payload.length ++ payload ++ RecordLog.le32 (crc32 payload).toNat)

def replayFrom (bytes : Bytes) : Nat → State → Nat → State × Nat
  | 0, state, offset => (state, offset)
  | fuel + 1, state, offset =>
    if offset + 4 ≤ bytes.length then
      let length := RecordLog.ofLe32 (bytes.drop offset)
      if maxRecordBytes < length then (state, offset)
      else
        let payloadAt := offset + 4
        let crcAt := payloadAt + length
        if bytes.length < crcAt + 4 then (state, offset)
        else
          let payload := (bytes.drop payloadAt).take length
          let stored := RecordLog.ofLe32 (bytes.drop crcAt)
          if stored ≠ (crc32 payload).toNat then (state, offset)
          else match P.fromBytes payload with
            | none => (state, offset)
            | some entry => replayFrom bytes fuel (state.apply entry) (crcAt + 4)
    else (state, offset)

/-- Replay every whole record: the state, and how many bytes were good. Each record is
eight bytes or more, so the loop ends within the length of the file. -/
def replay (bytes : Bytes) : State × Nat := replayFrom P bytes bytes.length State.initial 0

/-- The journal's log as a log of checksummed records. -/
def Postcard.format : RecordLog.Format Entry where
  payload e := match P.toAllocvec e with
    | .error _ => none
    | .ok p => some p
  entry := P.fromBytes
  checksum := crc32
  limit := maxRecordBytes
  entry_payload e p h := by
    split at h
    · cases h
    · rename_i q made
      cases h
      exact P.fromBytes_toAllocvec e p made
  limit_fits := by decide

theorem encode_format (e : Entry) (r : Bytes) :
    encode P e = .ok r ↔ P.format.encode e = some r := by
  unfold encode RecordLog.Format.encode Postcard.format
  cases made : P.toAllocvec e with
  | error error => simp [made]
  | ok payload =>
    by_cases long : maxRecordBytes < payload.length
    · simp [made, if_pos long, if_neg (Nat.not_le.mpr long)]
    · simp [made, if_neg long, if_pos (Nat.not_lt.mp long)]

theorem replayFrom_scan (bytes : Bytes) (fuel : Nat) (state : State) (offset : Nat)
    (enough : bytes.length ≤ offset + fuel) :
    replayFrom P bytes fuel state offset =
      (state.applyAll (P.format.scan (bytes.drop offset)).1,
        offset + (P.format.scan (bytes.drop offset)).2) := by
  induction fuel generalizing state offset with
  | zero =>
    have past : bytes.drop offset = [] := List.drop_of_length_le (by omega)
    simp [replayFrom, past, P.format.scan_of_stop P.format.head_nil]
  | succ fuel ih =>
    have stop (none : P.format.head (bytes.drop offset) = none) :
        (state, offset) = (state.applyAll (P.format.scan (bytes.drop offset)).1,
          offset + (P.format.scan (bytes.drop offset)).2) := by
      simp [P.format.scan_of_stop none]
    have head : P.format.head (bytes.drop offset) =
        (let length := RecordLog.ofLe32 (bytes.drop offset)
         let payload := (bytes.drop (offset + 4)).take length
         if bytes.length - offset < 4 ∨ maxRecordBytes < length ∨
            bytes.length - offset < length + 8 then none
         else if RecordLog.ofLe32 (bytes.drop (offset + 4 + length)) ≠ (crc32 payload).toNat
           then none
         else (P.fromBytes payload).map fun e => (e, length + 8)) := by
      simp only [RecordLog.Format.head, Postcard.format, List.drop_drop, List.length_drop]
      rw [show offset + 4 + RecordLog.ofLe32 (bytes.drop offset) =
        offset + (RecordLog.ofLe32 (bytes.drop offset) + 4) by omega]
    simp only [replayFrom]
    by_cases room : offset + 4 ≤ bytes.length
    · rw [if_pos room]
      by_cases long : maxRecordBytes < RecordLog.ofLe32 (bytes.drop offset)
      · rw [if_pos long]
        exact stop (by rw [head]; exact if_pos (Or.inr (Or.inl long)))
      · rw [if_neg long]
        by_cases short : bytes.length <
            offset + 4 + RecordLog.ofLe32 (bytes.drop offset) + 4
        · rw [if_pos short]
          exact stop (by rw [head]; exact if_pos (Or.inr (Or.inr (by omega))))
        · rw [if_neg short]
          rw [if_neg (by omega)] at head
          split
          · rename_i bad
            exact stop (by rw [head]; exact if_pos bad)
          · rename_i good
            rw [if_neg good] at head
            split
            · rename_i undecodable
              exact stop (by rw [head, undecodable]; rfl)
            · rename_i entry decoded
              rw [decoded] at head
              have rest := ih (state.apply entry)
                (offset + 4 + RecordLog.ofLe32 (bytes.drop offset) + 4) (by omega)
              have size : offset + 4 + RecordLog.ofLe32 (bytes.drop offset) + 4 =
                  offset + (RecordLog.ofLe32 (bytes.drop offset) + 8) := by omega
              rw [rest, P.format.scan_of_head head, List.drop_drop, size, State.applyAll_cons,
                Nat.add_assoc]
    · rw [if_neg room]
      exact stop (by rw [head]; exact if_pos (Or.inl (by omega)))

/-- Replaying a file is folding the whole records at its front over the empty state. -/
theorem replay_scan (bytes : Bytes) :
    replay P bytes = (State.initial.applyAll (P.format.scan bytes).1, (P.format.scan bytes).2) := by
  rw [replay, replayFrom_scan P bytes _ _ _ (by omega)]
  simp

theorem filed_replay (bytes : Bytes) : Filed (replay P bytes).1 := by
  rw [replay_scan]
  exact filed_applyAll filed_initial _

/-! ## The key of a vote lock -/

def hexDigit (n : Nat) : Char := "0123456789abcdef".toList.getD n '0'

/-- Decimal digits, the last one first into `digits`, as many as there is room for. -/
def decimal : Nat → Nat → List Char → List Char
  | 0, _, digits => digits
  | room + 1, n, digits =>
    let digits := Char.ofNat (48 + n % 10) :: digits
    if n / 10 = 0 then digits else decimal room (n / 10) digits

/-- The full subject and the voter, unit separators between them. -/
def lockKey (subject : Subject) (voter : String) : String :=
  String.ofList
    (subject.mission.toList ++ ['\x1f'] ++ subject.event.toList ++ ['\x1f']
      ++ subject.contentHash.1.flatMap (fun byte =>
          [hexDigit (byte.toNat / 16), hexDigit (byte.toNat % 16)])
      ++ ['\x1f'] ++ decimal 20 subject.revision.toNat [] ++ ['\x1f'] ++ voter.toList)

end JournalRecords
