import Lcq.SpiGrammar

/-!
# The firmware stays inside its buffers

`handle_spi` on a request in memory, with every place it reads or writes. The
second walk checks nothing, and reads and writes where the first one allowed.
-/

namespace FirmwareBounds

open ByteFormat KissFrames BridgeProtocol SpiGrammar

/-! ## Memory -/

/-- A run of bytes read from the request, or written to the reply. -/
inductive Access where
  | request (start count : Nat)
  | reply (start count : Nat)
  deriving DecidableEq

/-- The access ends inside a request of this length, or a reply buffer of this size. -/
def Access.Inside (len size : Nat) : Access → Prop
  | request start count => start + count ≤ len
  | reply start count => start + count ≤ size

/-- What the firmware did: where it read and wrote, and what came of it. -/
structure Did (α : Type) where
  accesses : List Access
  result : α

namespace Did

variable {α : Type}

/-- Some accesses before. -/
def after (accesses : List Access) (did : Did α) : Did α :=
  ⟨accesses ++ did.accesses, did.result⟩

end Did

-- memory from `p` on, whatever lies behind the request
variable (p : Nat → UInt8)

def slice (start count : Nat) : Bytes := (List.range count).map fun k => p (start + k)

@[simp] theorem slice_length (start count : Nat) : (slice p start count).length = count := by
  simp [slice]

theorem slice_succ (start count : Nat) :
    slice p start (count + 1) = p start :: slice p (start + 1) count := by
  simp only [slice, List.range_succ_eq_map, List.map_cons, List.map_map, Nat.add_zero]
  congr 1
  apply List.map_congr_left
  intro k _
  simp only [Function.comp_apply, Nat.succ_eq_add_one]
  congr 1
  omega

theorem slice_drop (start count n : Nat) :
    (slice p start count).drop n = slice p (start + n) (count - n) := by
  induction n generalizing start count with
  | zero => rfl
  | succ n ih =>
    cases count with
    | zero => simp [slice]
    | succ count =>
      rw [slice_succ, List.drop_succ_cons, ih]
      congr 1
      · omega
      · omega

theorem slice_take (start : Nat) {count n : Nat} (le : n ≤ count) :
    (slice p start count).take n = slice p start n := by
  rw [slice, ← List.map_take, List.take_range, Nat.min_eq_left le, slice]

/-- Three bytes of header and what is behind them. -/
theorem slice_header {i len : Nat} (enough : ¬ len - i < 3) (inside : i < len) :
    slice p i (len - i) =
      p i :: p (i + 1) :: p (i + 2) :: slice p (i + 3) (len - (i + 3)) := by
  obtain ⟨rest, length⟩ : ∃ rest, len - i = rest + 1 + 1 + 1 := ⟨len - i - 3, by omega⟩
  have behind : len - (i + 3) = rest := by omega
  rw [length, behind, slice_succ, slice_succ, slice_succ]

/-! ## The two walks -/

variable (len : Nat)

/-- `spi_read_total`: check the operation list and add up what it reads back. -/
def readTotalAt : Nat → Nat → Nat → Did (Option Nat)
  | 0, i, total => ⟨[], if i < len then none else some total⟩
  | fuel + 1, i, total =>
    if i < len then
      if len - i < 3 then ⟨[], none⟩
      else
        let kind := p i
        let n := wordOf (p (i + 1)) (p (i + 2))
        let header := Access.request i 3
        let i := i + 3
        if kind = opWrite then
          if len - i < n then ⟨[header], none⟩
          else (readTotalAt fuel (i + n) total).after [header]
        else if kind = opRead then (readTotalAt fuel i (total + n)).after [header]
        else if kind = opTransfer then
          if len - i < n then ⟨[header], none⟩
          else (readTotalAt fuel (i + n) (total + n)).after [header]
        else if kind = opDelay then (readTotalAt fuel i total).after [header]
        else ⟨[header], none⟩
    else ⟨[], some total⟩

variable {W : Type} (board : Board W)

/-- How far the reply has been written, what was written to it, and the board. -/
structure Clocked (W : Type) where
  out : Nat
  came : Bytes
  board : W

/-- Some bytes written before. -/
def Clocked.behind (came : Bytes) (clocked : Clocked W) : Clocked W :=
  { clocked with came := came ++ clocked.came }

/-- The second walk of `handle_spi`. -/
def clockAt : Nat → Nat → Nat → W → Did (Clocked W)
  | 0, _, out, w => ⟨[], ⟨out, [], w⟩⟩
  | fuel + 1, i, out, w =>
    if i < len then
      let kind := p i
      let n := wordOf (p (i + 1)) (p (i + 2))
      let header := Access.request i 3
      let i := i + 3
      if kind = opWrite then
        (clockAt fuel (i + n) out (board.transferBytes w (slice p i n)).2).after
          [header, .request i n]
      else if kind = opRead then
        -- the chip clocks its answer out against zeros
        let came := board.transferBytes w (List.replicate n 0)
        let rest := clockAt fuel i (out + n) came.2
        (Did.mk rest.accesses (rest.result.behind came.1)).after [header, .reply out n]
      else if kind = opTransfer then
        let came := board.transferBytes w (slice p i n)
        let rest := clockAt fuel (i + n) (out + n) came.2
        (Did.mk rest.accesses (rest.result.behind came.1)).after
          [header, .request i n, .reply out n]
      else if kind = opDelay then
        (clockAt fuel i out (board.delayMicroseconds w n)).after [header]
      else (clockAt fuel i out w).after [header]
    else ⟨[], ⟨out, [], w⟩⟩

/-- `handle_spi`; the reply starts with its status. -/
def handleSpiAt (w : W) : Did (Message × W) :=
  let checked := readTotalAt p len len 0 0
  match checked.result with
  | none => ⟨checked.accesses, status Command.spi statusBadRequest, w⟩
  | some total =>
    if frameLimit < total + 1 then ⟨checked.accesses, status Command.spi statusTooLong, w⟩
    else
      match board.waitBusyLow w busyLimitMs with
      | (false, w) => ⟨checked.accesses, status Command.spi statusTimeout, w⟩
      | (true, w) =>
        let clocked := clockAt p len board len 0 1 (board.select w)
        ⟨checked.accesses ++ .reply 0 1 :: clocked.accesses,
          ⟨Command.spi ||| reply, statusOk :: clocked.result.came⟩,
          board.deselect clocked.result.board⟩

/-! ## The first walk -/

/-- The check on memory is the check on the bytes of the request. -/
theorem readTotalAt_eq (fuel i total : Nat) : (readTotalAt p len fuel i total).result =
    Firmware.spiReadTotal fuel (slice p i (len - i)) total := by
  induction fuel generalizing i total with
  | zero =>
    by_cases inside : i < len
    · obtain ⟨rest, length⟩ : ∃ rest, len - i = rest + 1 := ⟨len - i - 1, by omega⟩
      rw [readTotalAt, if_pos inside, length, slice_succ]
      rcases slice p (i + 1) rest with _ | ⟨_, _ | _⟩ <;> rfl
    · have none : len - i = 0 := by omega
      rw [readTotalAt, if_neg inside, none]
      rfl
  | succ fuel ih =>
    by_cases inside : i < len
    · by_cases short : len - i < 3
      · rw [readTotalAt, if_pos inside, if_pos short]
        obtain length | length : len - i = 1 ∨ len - i = 2 := by omega
        · rw [length]
          rfl
        · rw [length]
          rfl
      · have behind (n : Nat) : len - (i + 3) - n = len - (i + 3 + n) := by omega
        rw [readTotalAt, if_pos inside, if_neg short, slice_header p short inside,
          Firmware.spiReadTotal]
        simp only [slice_length, slice_drop, behind]
        split
        · split
          · rfl
          · exact ih _ _
        · split
          · exact ih _ _
          · split
            · split
              · rfl
              · exact ih _ _
            · split
              · exact ih _ _
              · rfl
    · have none : len - i = 0 := by omega
      rw [readTotalAt, if_neg inside, none]
      rfl

theorem after_inside {α : Type} {len size : Nat} {before : List Access} {did : Did α}
    (first : ∀ access ∈ before, access.Inside len size)
    (rest : ∀ access ∈ did.accesses, access.Inside len size) :
    ∀ access ∈ (did.after before).accesses, access.Inside len size :=
  fun access mem => (List.mem_append.mp mem).elim (first access) (rest access)

/-- The check reads inside the request, whatever the request says. -/
theorem readTotalAt_inside (fuel i total size : Nat) :
    ∀ access ∈ (readTotalAt p len fuel i total).accesses, access.Inside len size := by
  induction fuel generalizing i total with
  | zero => simp [readTotalAt]
  | succ fuel ih =>
    rw [readTotalAt]
    split
    · split
      · simp
      · rename_i enough
        have header : ∀ access ∈ [Access.request i 3], access.Inside len size := by
          intro access mem
          rw [List.mem_singleton.mp mem, Access.Inside]
          omega
        dsimp only
        split
        · split
          · exact header
          · exact after_inside header (ih _ _)
        · split
          · exact after_inside header (ih _ _)
          · split
            · split
              · exact header
              · exact after_inside header (ih _ _)
            · split
              · exact after_inside header (ih _ _)
              · exact header
    · simp

/-- What a check that passes found at the next record. -/
theorem readTotalAt_step {fuel i total back : Nat} (inside : i < len)
    (checked : (readTotalAt p len (fuel + 1) i total).result = some back) :
    i + 3 ≤ len ∧
      ((p i = opWrite ∧ i + 3 + wordOf (p (i + 1)) (p (i + 2)) ≤ len ∧
          (readTotalAt p len fuel (i + 3 + wordOf (p (i + 1)) (p (i + 2))) total).result =
            some back) ∨
        (p i = opRead ∧ (readTotalAt p len fuel (i + 3)
          (total + wordOf (p (i + 1)) (p (i + 2)))).result = some back) ∨
        (p i = opTransfer ∧ i + 3 + wordOf (p (i + 1)) (p (i + 2)) ≤ len ∧
          (readTotalAt p len fuel (i + 3 + wordOf (p (i + 1)) (p (i + 2)))
            (total + wordOf (p (i + 1)) (p (i + 2)))).result = some back) ∨
        (p i = opDelay ∧ (readTotalAt p len fuel (i + 3) total).result = some back)) := by
  rw [readTotalAt, if_pos inside] at checked
  split at checked
  · cases checked
  · rename_i enough
    refine ⟨by omega, ?_⟩
    dsimp only at checked
    split at checked
    · rename_i write
      split at checked
      · cases checked
      · exact Or.inl ⟨write, by omega, checked⟩
    · split at checked
      · rename_i read
        exact Or.inr (Or.inl ⟨read, checked⟩)
      · split at checked
        · rename_i transfer
          split at checked
          · cases checked
          · exact Or.inr (Or.inr (Or.inl ⟨transfer, by omega, checked⟩))
        · split at checked
          · rename_i delay
            exact Or.inr (Or.inr (Or.inr ⟨delay, checked⟩))
          · cases checked

theorem readTotalAt_end {fuel i total back : Nat} (past : ¬ i < len)
    (checked : (readTotalAt p len fuel i total).result = some back) : total = back := by
  cases fuel with
  | zero =>
    rw [readTotalAt, if_neg past] at checked
    exact Option.some.inj checked
  | succ fuel =>
    rw [readTotalAt, if_neg past] at checked
    exact Option.some.inj checked

/-- A request no longer than a frame asks for less than a machine word holds. -/
theorem readTotalAt_bounds {fuel i total back : Nat}
    (checked : (readTotalAt p len fuel i total).result = some back) :
    total ≤ back ∧ back ≤ total + 65535 * (len - i) := by
  induction fuel generalizing i total with
  | zero =>
    rw [readTotalAt] at checked
    split at checked
    · cases checked
    · have := Option.some.inj checked
      omega
  | succ fuel ih =>
    by_cases inside : i < len
    · have word := wordOf_lt (p (i + 1)) (p (i + 2))
      obtain ⟨enough, ⟨-, fits, rest⟩ | ⟨-, rest⟩ | ⟨-, fits, rest⟩ | ⟨-, rest⟩⟩ :=
        readTotalAt_step p len inside checked
      all_goals
        have bounds := ih rest
        omega
    · have := readTotalAt_end p len inside checked
      omega

/-! ## The second walk -/

variable {p len}

/-- Behind a check that passed the second walk reads inside the request and writes as much as
was added up. -/
theorem clockAt_inside {fuel i total back out size : Nat} (w : W)
    (checked : (readTotalAt p len fuel i total).result = some back)
    (room : out + (back - total) ≤ size) :
    (∀ access ∈ (clockAt p len board fuel i out w).accesses, access.Inside len size) ∧
      (clockAt p len board fuel i out w).result.out = out + (back - total) := by
  induction fuel generalizing i total out w with
  | zero =>
    rw [readTotalAt] at checked
    split at checked
    · cases checked
    · have same := Option.some.inj checked
      exact ⟨by simp [clockAt], by simp [clockAt, same]⟩
  | succ fuel ih =>
    by_cases inside : i < len
    · rw [clockAt, if_pos inside]
      dsimp only
      obtain ⟨enough, ⟨write, fits, rest⟩ | ⟨read, rest⟩ | ⟨transfer, fits, rest⟩ | ⟨delay, rest⟩⟩ :=
        readTotalAt_step p len inside checked
      · obtain ⟨bounded, out⟩ := ih (board.transferBytes w _).2 rest room
        rw [if_pos write]
        refine ⟨after_inside ?_ bounded, out⟩
        simp only [List.forall_mem_cons, Access.Inside]
        exact ⟨enough, fits, by simp⟩
      · have le := (readTotalAt_bounds p len rest).1
        obtain ⟨bounded, out⟩ := ih (board.transferBytes w (List.replicate _ 0)).2 rest
          (show out + wordOf (p (i + 1)) (p (i + 2)) + _ ≤ size by omega)
        rw [if_neg (by rw [read]; decide), if_pos read]
        refine ⟨after_inside ?_ bounded, out.trans (by omega)⟩
        simp only [List.forall_mem_cons, Access.Inside]
        exact ⟨enough, by omega, by simp⟩
      · have le := (readTotalAt_bounds p len rest).1
        obtain ⟨bounded, out⟩ := ih (board.transferBytes w _).2 rest
          (show out + wordOf (p (i + 1)) (p (i + 2)) + _ ≤ size by omega)
        rw [if_neg (by rw [transfer]; decide), if_neg (by rw [transfer]; decide), if_pos transfer]
        refine ⟨after_inside ?_ bounded, out.trans (by omega)⟩
        simp only [List.forall_mem_cons, Access.Inside]
        exact ⟨enough, fits, by omega, by simp⟩
      · obtain ⟨bounded, out⟩ := ih (board.delayMicroseconds w _) rest room
        rw [if_neg (by rw [delay]; decide), if_neg (by rw [delay]; decide),
          if_neg (by rw [delay]; decide), if_pos delay]
        refine ⟨after_inside ?_ bounded, out⟩
        simp only [List.forall_mem_cons, Access.Inside]
        exact ⟨enough, by simp⟩
    · have same := readTotalAt_end p len inside checked
      rw [clockAt, if_neg inside]
      exact ⟨by simp, by simp [same]⟩

/-- It clocks out the bytes of the request, and what came back is what was written. -/
theorem clockAt_eq {fuel i total back : Nat} (out : Nat) (w : W)
    (checked : (readTotalAt p len fuel i total).result = some back) :
    ((clockAt p len board fuel i out w).result.came, (clockAt p len board fuel i out w).result.board) =
      Firmware.clockOut board fuel (slice p i (len - i)) w := by
  induction fuel generalizing i total out w with
  | zero =>
    rw [clockAt]
    rcases slice p i (len - i) with _ | ⟨_, _ | ⟨_, _ | _⟩⟩ <;> rfl
  | succ fuel ih =>
    by_cases inside : i < len
    · have step := readTotalAt_step p len inside checked
      have short : ¬ len - i < 3 := by
        have enough := step.1
        omega
      have behind (n : Nat) : len - (i + 3) - n = len - (i + 3 + n) := by omega
      rw [clockAt, if_pos inside, slice_header p short inside, Firmware.clockOut]
      simp only [slice_drop, behind]
      obtain ⟨enough, ⟨write, fits, rest⟩ | ⟨read, rest⟩ | ⟨transfer, fits, rest⟩ | ⟨delay, rest⟩⟩ :=
        step
      · have next := ih out
          (board.transferBytes w (slice p (i + 3) (wordOf (p (i + 1)) (p (i + 2))))).2 rest
        rw [if_pos write, if_pos write, slice_take p _ (by omega)]
        exact next
      · have next := ih (out + wordOf (p (i + 1)) (p (i + 2)))
          (board.transferBytes w (List.replicate (wordOf (p (i + 1)) (p (i + 2))) 0)).2 rest
        rw [if_neg (by rw [read]; decide), if_pos read, if_neg (by rw [read]; decide), if_pos read,
          ← next]
        rfl
      · have next := ih (out + wordOf (p (i + 1)) (p (i + 2)))
          (board.transferBytes w (slice p (i + 3) (wordOf (p (i + 1)) (p (i + 2))))).2 rest
        rw [if_neg (by rw [transfer]; decide), if_neg (by rw [transfer]; decide), if_pos transfer,
          if_neg (by rw [transfer]; decide), if_neg (by rw [transfer]; decide), if_pos transfer,
          slice_take p _ (by omega), ← next]
        rfl
      · have next := ih out
          (board.delayMicroseconds w (wordOf (p (i + 1)) (p (i + 2)))) rest
        rw [if_neg (by rw [delay]; decide), if_neg (by rw [delay]; decide),
          if_neg (by rw [delay]; decide), if_pos delay, if_neg (by rw [delay]; decide),
          if_neg (by rw [delay]; decide), if_neg (by rw [delay]; decide), if_pos delay]
        exact next
    · have none : len - i = 0 := by omega
      rw [clockAt, if_neg inside, none]
      rfl

/-! ## A request handled -/

theorem checked_eq (p : Nat → UInt8) (len : Nat) : (readTotalAt p len len 0 0).result =
    (decodeOperations (slice p 0 len)).map wanted := by
  have asked := spiReadTotal_asked (slice p 0 len)
  rw [slice_length] at asked
  rw [readTotalAt_eq, Nat.sub_zero, asked, askedBack]

/-- The firmware on memory is the firmware on bytes, and every access is inside. -/
theorem handleSpiAt_eq (p : Nat → UInt8) (len : Nat) (w : W) :
    (handleSpiAt p len board w).result = Firmware.handleSpi board w (slice p 0 len) ∧
      ∀ access ∈ (handleSpiAt p len board w).accesses, access.Inside len frameLimit := by
  have own := readTotalAt_inside p len len 0 0 frameLimit
  have same := readTotalAt_eq p len len 0 0
  rw [Nat.sub_zero] at same
  rw [handleSpiAt, Firmware.handleSpi, slice_length, ← same]
  cases checked : (readTotalAt p len len 0 0).result with
  | none => exact ⟨rfl, own⟩
  | some total =>
    dsimp only
    split
    · exact ⟨rfl, own⟩
    · rename_i fits
      rcases board.waitBusyLow w busyLimitMs with ⟨_ | _, waited⟩
      · exact ⟨rfl, own⟩
      · have walked := clockAt_eq board 1 (board.select waited) checked
        obtain ⟨inside, -⟩ := clockAt_inside board (board.select waited) checked
          (show 1 + (total - 0) ≤ frameLimit by omega)
        rw [Nat.sub_zero] at walked
        refine ⟨?_, ?_⟩
        · dsimp only
          rw [← walked]
        · intro access mem
          rcases List.mem_append.mp mem with first | second
          · exact own access first
          · rcases List.mem_cons.mp second with rfl | later
            · exact Nat.le_trans (by decide) (show 1 ≤ frameLimit by decide)
            · exact inside access later

/-! ## The buffer of a reply -/

def encodedSize : Nat := 2 * frameLimit + 4

theorem escape_length (byte : UInt8) : (escape byte).length ≤ 2 := by
  unfold escape
  split
  · exact Nat.le_refl 2
  · split <;> simp

theorem sendFrame_length (command : UInt8) (payload : Bytes) :
    (Firmware.sendFrame command payload).length ≤ 2 * payload.length + 3 := by
  have escaped : (payload.flatMap escape).length ≤ 2 * payload.length := by
    induction payload with
    | nil => exact Nat.le_refl 0
    | cons byte payload ih =>
      have here := escape_length byte
      rw [List.flatMap_cons, List.length_append, List.length_cons]
      omega
  rw [sendFrame_eq, encode]
  simp only [List.length_append, List.length_cons, List.length_nil]
  omega

theorem handleSpi_length (w : W) (payload : Bytes) :
    (Firmware.handleSpi board w payload).1.payload.length ≤ frameLimit := by
  have one : 1 ≤ frameLimit := by decide
  rw [Firmware.handleSpi]
  cases checked : Firmware.spiReadTotal payload.length payload 0 with
  | none => exact one
  | some total =>
    dsimp only
    split
    · exact one
    · rcases board.waitBusyLow w busyLimitMs with ⟨_ | _, waited⟩
      · exact one
      · have length := clockOut_length board (board.select waited) checked
        dsimp only
        rw [List.length_cons]
        omega

/-! ## Both sides -/

variable {S : Type} (chip : Chip S)

/-- The firmware gives the status and the length the reference device gives, once BUSY is low;
while it is not it refuses the same requests and times out on the others. -/
structure SameAnswer (ready : Bool) (ours theirs : Message) : Prop where
  command : ours.command = theirs.command
  answered : ready = true → ours.payload.head? = theirs.payload.head? ∧
    ours.payload.length = theirs.payload.length
  busy : ready = false → ours = theirs ∨
    ours = status Command.spi statusTimeout ∧ theirs.payload.head? = some statusOk

theorem same_refusal (ready : Bool) (code : UInt8) :
    SameAnswer ready (status Command.spi code) (status Command.spi code) :=
  ⟨rfl, fun _ => ⟨rfl, rfl⟩, fun _ => Or.inl rfl⟩

theorem same_answer (w : W) (s : S) (payload : Bytes) :
    SameAnswer (board.waitBusyLow w busyLimitMs).1 (Firmware.handleSpi board w payload).1
      (Device.spi chip s payload).1 := by
  have asked := spiReadTotal_asked payload
  rw [askedBack] at asked
  rw [Firmware.handleSpi, Device.spi, asked]
  cases decoded : decodeOperations payload with
  | none => exact same_refusal _ _
  | some ops =>
    rw [decoded] at asked
    simp only [Option.map_some]
    by_cases long : frameLimit < wanted ops + 1
    · rw [if_pos long, if_pos long]
      exact same_refusal _ _
    · rw [if_neg long, if_neg long]
      rcases board.waitBusyLow w busyLimitMs with ⟨_ | _, waited⟩
      · exact ⟨rfl, by rintro ⟨⟩, fun _ => Or.inr ⟨rfl, rfl⟩⟩
      · have length := clockOut_length board (board.select waited) asked
        refine ⟨rfl, fun _ => ⟨rfl, ?_⟩, by rintro ⟨⟩⟩
        dsimp only
        rw [List.length_cons, List.length_cons, answers_length]
        omega

/-- A payload that fits a frame, wherever it lies in memory: its grammar, what it asks back, the
answers on both sides, and the bounds of everything the firmware does with it. -/
theorem request_grammar (payload : Bytes) (p : Nat → UInt8)
    (held : slice p 0 payload.length = payload) (fits : payload.length + 1 ≤ frameLimit)
    (w : W) (s : S) :
    (∀ ops, decodeOperations payload = some ops ↔
      (∀ op ∈ ops, Legal op) ∧ payload = ops.flatMap serial) ∧
    (readTotalAt p payload.length payload.length 0 0).result =
      (decodeOperations payload).map wanted ∧
    (∀ total, (readTotalAt p payload.length payload.length 0 0).result = some total →
      total < 2 ^ 31) ∧
    SameAnswer (board.waitBusyLow w busyLimitMs).1
      (handleSpiAt p payload.length board w).result.1 (Device.spi chip s payload).1 ∧
    (∀ access ∈ (handleSpiAt p payload.length board w).accesses,
      access.Inside payload.length frameLimit) ∧
    (Firmware.sendFrame (handleSpiAt p payload.length board w).result.1.command
      (handleSpiAt p payload.length board w).result.1.payload).length ≤ encodedSize := by
  obtain ⟨same, inside⟩ := handleSpiAt_eq board p payload.length w
  have total := checked_eq p payload.length
  rw [held] at same total
  rw [same]
  refine ⟨decodeOperations_iff payload, total, fun back found => ?_, same_answer board chip w s
    payload, inside, ?_⟩
  · have bounds := (readTotalAt_bounds p payload.length found).2
    have limit : frameLimit = 1100 := rfl
    omega
  · have reply := handleSpi_length board w payload
    have encoded := sendFrame_length (Firmware.handleSpi board w payload).1.command
      (Firmware.handleSpi board w payload).1.payload
    rw [encodedSize]
    omega

/-- A read of three bytes with noise behind it in memory. -/
theorem request_grammar_read :
    let p (i : Nat) : UInt8 := [opRead, 3, 0].getD i 0xFF
    (∀ access ∈ (handleSpiAt p 3 bareBoard ()).accesses, access.Inside 3 frameLimit) ∧
      (readTotalAt p 3 3 0 0).result = some 3 := by
  intro p
  obtain ⟨-, total, -, -, inside, -⟩ := request_grammar bareBoard mute [opRead, 3, 0] p (by decide)
    (by decide) () ()
  exact ⟨inside, total.trans (by decide)⟩

end FirmwareBounds
