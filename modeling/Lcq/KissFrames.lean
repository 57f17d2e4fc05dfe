import Lcq.ByteFormat
import Lcq.Transducers

/-!
# Frames on the serial line

A frame is delimited by `FEND`; `FEND` and `FESC` are escaped inside it. The
host and the reference device take frames off the line with a `Deframer`, the
firmware with its own `feed` over a static buffer.
-/

namespace KissFrames

open ByteFormat Transducers

def fend : UInt8 := 0xC0
def fesc : UInt8 := 0xDB
def tfend : UInt8 := 0xDC
def tfesc : UInt8 := 0xDD

/-- The most a decoded frame may hold, either way. -/
def frameLimit : Nat := 1100

/-- What stands for one byte of the payload on the line. -/
def escape (byte : UInt8) : Bytes :=
  if byte = fend then [fesc, tfend] else if byte = fesc then [fesc, tfesc] else [byte]

/-- One frame: the command byte, then the payload, escaped and delimited. -/
def encode (command : UInt8) (payload : Bytes) : Bytes :=
  [fend, command] ++ payload.flatMap escape ++ [fend]

/-- What an escaped byte stands for. -/
def unescape (byte : UInt8) : UInt8 :=
  if byte = tfend then fend else if byte = tfesc then fesc else byte

/-! ## The host's side -/

structure Deframer where
  frame : Bytes
  inFrame : Bool
  escaped : Bool
  /-- The most bytes a frame may hold before it is discarded as noise. -/
  limit : Nat

namespace Deframer

def new (limit : Nat) : Deframer where
  frame := []
  inFrame := false
  escaped := false
  limit

variable (d : Deframer)

def keep (decoded : UInt8) : Deframer :=
  if d.limit ≤ d.frame.length then { d with frame := [], inFrame := false, escaped := false }
  else { d with frame := d.frame ++ [decoded], escaped := false }

def pushByte (byte : UInt8) : Deframer × List Bytes :=
  if byte = fend then
    ({ d with frame := [], inFrame := true, escaped := false },
      if d.inFrame = true ∧ d.frame ≠ [] then [d.frame] else [])
  else if d.inFrame = false then (d, [])
  else if d.escaped = true then (d.keep (unescape byte), [])
  else if byte = fesc then ({ d with escaped := true }, [])
  else (d.keep byte, [])

/-- Feed bytes; every completed frame comes out, the command byte first. -/
def push (bytes : Bytes) : Deframer × List Bytes := feed pushByte d bytes

/-! ### What was encoded -/

/-- Between frames: nothing of a frame has been read. -/
def Ready : Prop := d.frame = []

variable {d}

theorem push_append (xs ys : Bytes) :
    d.push (xs ++ ys) =
      (((d.push xs).1.push ys).1, (d.push xs).2 ++ ((d.push xs).1.push ys).2) :=
  feed_append _ _ _ _

/-- Inside a frame the bytes of one escape are one byte kept. -/
theorem push_escape (inside : d.inFrame = true) (plain : d.escaped = false) (byte : UInt8) :
    d.push (escape byte) = (d.keep byte, []) := by
  rw [escape]
  split
  · next same =>
    subst same
    simp [push, pushByte, inside, plain, fend, fesc, tfend, unescape, keep]
  · split
    · next same =>
      subst same
      simp [push, pushByte, inside, plain, fend, fesc, tfend, tfesc, unescape, keep]
    · next notEnd notEscape =>
      simp [push, pushByte, inside, plain, notEnd, notEscape]

/-- Outside a frame nothing escaped matters. -/
theorem push_escape_outside (outside : d.inFrame = false) (byte : UInt8) :
    d.push (escape byte) = (d, []) := by
  rw [escape]
  split
  · simp [push, pushByte, outside, fend, fesc, tfend]
  · split
    · simp [push, pushByte, outside, fend, fesc, tfesc]
    · next notEnd _ => simp [push, pushByte, outside, notEnd]

theorem push_payload_outside (outside : d.inFrame = false) (payload : Bytes) :
    d.push (payload.flatMap escape) = (d, []) := by
  induction payload with
  | nil => rfl
  | cons byte payload ih =>
    simp only [List.flatMap_cons, push_append, push_escape_outside outside, ih, List.append_nil]

/-- A payload that fits is kept whole. -/
theorem push_payload (inside : d.inFrame = true) (plain : d.escaped = false) {payload : Bytes}
    (fits : d.frame.length + payload.length ≤ d.limit) :
    d.push (payload.flatMap escape) = ({ d with frame := d.frame ++ payload }, []) := by
  induction payload generalizing d with
  | nil => simp [push]
  | cons byte payload ih =>
    rw [List.length_cons] at fits
    have room : ¬ d.limit ≤ d.frame.length := by omega
    have rest := @ih { d with frame := d.frame ++ [byte], escaped := false } inside rfl (by
      simp only [List.length_append, List.length_singleton]
      omega)
    rw [List.flatMap_cons, push_append, push_escape inside plain, keep, if_neg room, rest]
    simp [plain]

/-- A payload that does not fit is lost, and with it what follows to the delimiter. -/
theorem push_payload_long (inside : d.inFrame = true) (plain : d.escaped = false)
    {payload : Bytes} (room : d.frame.length ≤ d.limit)
    (long : d.limit < d.frame.length + payload.length) :
    d.push (payload.flatMap escape) = ({ d with frame := [], inFrame := false }, []) := by
  induction payload generalizing d with
  | nil => simp at long; omega
  | cons byte payload ih =>
    rw [List.length_cons] at long
    rw [List.flatMap_cons, push_append, push_escape inside plain, keep]
    by_cases full : d.limit ≤ d.frame.length
    · have rest := @push_payload_outside { d with frame := [], inFrame := false, escaped := false }
        rfl payload
      rw [if_pos full, rest]
      simp [plain]
    · have rest := @ih { d with frame := d.frame ++ [byte], escaped := false } inside rfl (by
        simp only [List.length_append, List.length_singleton]
        omega) (by
        simp only [List.length_append, List.length_singleton]
        omega)
      rw [if_neg full, rest]
      simp [plain]

/-- Between frames again, whatever was made of the last one. -/
def delimited (d : Deframer) : Deframer := { d with frame := [], inFrame := true, escaped := false }

/-- A whole frame off the line, if it is no longer than the limit; nothing of it, if it is. -/
theorem push_encode (ready : d.Ready) {command : UInt8} (notEnd : command ≠ fend)
    (notEscape : command ≠ fesc) (payload : Bytes) :
    d.push (encode command payload) =
      (d.delimited, if payload.length + 1 ≤ d.limit then [command :: payload] else []) := by
  have empty : d.frame = [] := ready
  rw [encode, List.append_assoc, push_append, push_append]
  by_cases limited : 0 < d.limit
  · have opened : d.push [fend, command] =
        ({ d with frame := [command], inFrame := true, escaped := false }, []) := by
      simp only [push, feed_cons, feed_nil, pushByte, if_neg notEnd, if_neg notEscape, keep]
      simp [empty]
      omega
    rw [opened]
    by_cases fits : payload.length + 1 ≤ d.limit
    · have kept := @push_payload { d with frame := [command], inFrame := true, escaped := false }
        rfl rfl payload (by
          simp only [List.length_singleton]
          omega)
      rw [kept, if_pos fits]
      simp [push, pushByte, delimited]
    · have lost := @push_payload_long
        { d with frame := [command], inFrame := true, escaped := false } rfl rfl payload (by
          simp only [List.length_singleton]
          omega) (by
          simp only [List.length_singleton]
          omega)
      rw [lost, if_neg fits]
      simp [push, pushByte, delimited]
  · have nothing : d.limit = 0 := by omega
    have refused : d.push [fend, command] =
        ({ d with frame := [], inFrame := false, escaped := false }, []) := by
      simp [push, pushByte, notEnd, notEscape, keep, nothing, empty]
    have passed := @push_payload_outside { d with frame := [], inFrame := false, escaped := false }
      rfl payload
    rw [refused, passed, nothing]
    simp [push, pushByte, delimited, nothing]

theorem delimited_ready (d : Deframer) : d.delimited.Ready := rfl

end Deframer

/-! ## The firmware's side -/

/-- What the firmware does at a byte: a store into the request buffer, a frame handled, an
over-long frame reported. -/
inductive Act where
  | stored (index : Nat) (byte : UInt8)
  | handled (frame : Bytes)
  | reported (code command : UInt8)
  deriving DecidableEq

def Act.frame? : Act → Option Bytes
  | .handled frame => some frame
  | _ => none

def statusTooLong : UInt8 := 3

/-- The firmware's statics. The request buffer is memory, whatever its length. -/
structure Firmware where
  request : Nat → UInt8
  requestLen : Nat
  inFrame : Bool
  escaped : Bool
  overflow : Bool

namespace Firmware

def booted : Firmware where
  request _ := 0
  requestLen := 0
  inFrame := false
  escaped := false
  overflow := false

variable (f : Firmware)

/-- What lies in the buffer up to the length. -/
def frame : Bytes := (List.range f.requestLen).map f.request

def store (decoded : UInt8) : Firmware × List Act :=
  if frameLimit ≤ f.requestLen then ({ f with overflow := true, escaped := false }, [])
  else
    ({ f with
        request := Function.update f.request f.requestLen decoded
        requestLen := f.requestLen + 1
        escaped := false }, [.stored f.requestLen decoded])

def feedByte (byte : UInt8) : Firmware × List Act :=
  if byte = fend then
    ({ f with requestLen := 0, inFrame := true, escaped := false, overflow := false },
      if f.inFrame = true ∧ f.overflow = true then
        [.reported statusTooLong (if 0 < f.requestLen then f.request 0 else 0)]
      else if f.inFrame = true ∧ 0 < f.requestLen then [.handled f.frame]
      else [])
  else if f.inFrame = false then (f, [])
  else if f.escaped = true then f.store (unescape byte)
  else if byte = fesc then ({ f with escaped := true }, [])
  else f.store byte

end Firmware

/-! ## Both deframe alike -/

/-- Inside a frame that fits, both hold the same bytes; past an over-long one the firmware
waits for the delimiter inside the frame and the host outside. -/
structure Alike (f : Firmware) (d : Deframer) : Prop where
  limit : d.limit = frameLimit
  inside : d.inFrame = true ↔ f.inFrame = true ∧ f.overflow = false
  frame : d.inFrame = true → d.frame = f.frame ∧ d.escaped = f.escaped
  bounded : f.requestLen ≤ frameLimit

theorem alike_initially : Alike .booted (.new frameLimit) where
  limit := rfl
  inside := by simp [Firmware.booted, Deframer.new]
  frame inside := absurd inside (by simp [Deframer.new])
  bounded := Nat.zero_le _

@[simp] theorem frame_length (f : Firmware) : f.frame.length = f.requestLen := by
  simp [Firmware.frame]

/-- A byte stored at the end is the last of the frame. -/
theorem frame_stored (f : Firmware) (decoded : UInt8) :
    (List.range (f.requestLen + 1)).map (Function.update f.request f.requestLen decoded) =
      f.frame ++ [decoded] := by
  rw [List.range_succ, List.map_append, List.map_singleton, Function.update_self]
  congr 1
  apply List.map_congr_left
  intro i mem
  have apart : i ≠ f.requestLen := by
    have := List.mem_range.mp mem
    omega
  exact Function.update_of_ne apart _ _

/-- A decoded byte: kept on both sides, or too many on both. -/
theorem alike_store {f : Firmware} {d : Deframer} (alike : Alike f d) (inside : d.inFrame = true)
    (decoded : UInt8) :
    Alike (f.store decoded).1 (d.keep decoded) ∧
      (f.store decoded).2.filterMap Act.frame? = [] := by
  obtain ⟨limit, iff, frame, bounded⟩ := alike
  obtain ⟨same, -⟩ := frame inside
  obtain ⟨within, calm⟩ := iff.mp inside
  by_cases full : frameLimit ≤ f.requestLen
  · have too : d.limit ≤ d.frame.length := by
      rw [limit, same, frame_length]
      exact full
    rw [Firmware.store, if_pos full, Deframer.keep, if_pos too]
    refine ⟨⟨limit, ?_, fun inside => absurd inside Bool.false_ne_true, bounded⟩, rfl⟩
    simp
  · have fits : ¬ d.limit ≤ d.frame.length := by
      rw [limit, same, frame_length]
      exact full
    rw [Firmware.store, if_neg full, Deframer.keep, if_neg fits]
    refine ⟨⟨limit, iff, fun _ => ⟨?_, rfl⟩, ?_⟩, rfl⟩
    · show d.frame ++ [decoded] = _
      rw [same]
      exact (frame_stored f decoded).symm
    · show f.requestLen + 1 ≤ frameLimit
      omega

/-- Outside a frame, or past an over-long one, nothing but a delimiter matters. -/
theorem alike_outside {f : Firmware} {d : Deframer} (alike : Alike f d)
    (outside : d.inFrame = false) {byte : UInt8} (other : byte ≠ fend) :
    Alike (f.feedByte byte).1 d ∧ (f.feedByte byte).2.filterMap Act.frame? = [] := by
  obtain ⟨limit, iff, frame, bounded⟩ := alike
  have lost : ¬ (f.inFrame = true ∧ f.overflow = false) := by
    rw [← iff, outside]
    exact Bool.false_ne_true
  have stays (g : Firmware) (within : g.inFrame = f.inFrame)
      (over' : g.overflow = f.overflow ∨ g.overflow = true) (fits : g.requestLen ≤ frameLimit) :
      Alike g d := by
    refine ⟨limit, ?_, fun inside => absurd inside (by simp [outside]), fits⟩
    rw [outside, within]
    constructor
    · intro absurdity
      exact absurd absurdity Bool.false_ne_true
    · rintro ⟨inside, calm⟩
      rcases over' with same | high
      · exact absurd ⟨inside, same ▸ calm⟩ lost
      · exact absurd (high.symm.trans calm) (by decide)
  have stored (decoded : UInt8) :
      Alike (f.store decoded).1 d ∧ (f.store decoded).2.filterMap Act.frame? = [] := by
    by_cases full : frameLimit ≤ f.requestLen
    · rw [Firmware.store, if_pos full]
      exact ⟨stays _ rfl (Or.inr rfl) bounded, rfl⟩
    · rw [Firmware.store, if_neg full]
      exact ⟨stays _ rfl (Or.inl rfl) (by show f.requestLen + 1 ≤ frameLimit; omega), rfl⟩
  rw [Firmware.feedByte, if_neg other]
  split
  · exact ⟨stays f rfl (Or.inl rfl) bounded, rfl⟩
  · split
    · exact stored _
    · split
      · exact ⟨stays _ rfl (Or.inl rfl) bounded, rfl⟩
      · exact stored _

/-- A delimiter: a frame that was whole comes out on both sides. -/
theorem alike_delimiter {f : Firmware} {d : Deframer} (alike : Alike f d) :
    Alike (f.feedByte fend).1 (d.pushByte fend).1 ∧
      (f.feedByte fend).2.filterMap Act.frame? = (d.pushByte fend).2 := by
  obtain ⟨limit, iff, frame, bounded⟩ := alike
  rw [Firmware.feedByte, if_pos rfl, Deframer.pushByte, if_pos rfl]
  refine ⟨⟨limit, by simp, fun _ => ⟨rfl, rfl⟩, Nat.zero_le _⟩, ?_⟩
  by_cases inside : d.inFrame = true
  · obtain ⟨within, calm⟩ := iff.mp inside
    have same := (frame inside).1
    by_cases holds : 0 < f.requestLen
    · have nonempty : f.frame ≠ [] := by
        rw [← List.length_pos_iff, frame_length]
        exact holds
      simp [inside, within, calm, holds, same, nonempty, Act.frame?]
    · have empty : f.frame = [] := by
        rw [← List.length_eq_zero_iff, frame_length]
        omega
      simp [within, calm, holds, same, empty]
  · have outside : ¬ (f.inFrame = true ∧ f.overflow = false) := fun h => inside (iff.mpr h)
    by_cases within : f.inFrame = true
    · have lost : f.overflow = true := by
        by_contra calm
        exact outside ⟨within, by simpa using calm⟩
      simp [inside, within, lost, Act.frame?]
    · simp [inside, within]

/-- One byte: the same frame comes out, if any. -/
theorem alike_step (f : Firmware) (d : Deframer) (byte : UInt8) (alike : Alike f d) :
    Alike (f.feedByte byte).1 (d.pushByte byte).1 ∧
      (f.feedByte byte).2.filterMap Act.frame? = (d.pushByte byte).2 := by
  by_cases delimiter : byte = fend
  · rw [delimiter]
    exact alike_delimiter alike
  · by_cases inside : d.inFrame = true
    · obtain ⟨within, calm⟩ := alike.inside.mp inside
      have escaped := (alike.frame inside).2
      have running : ¬ f.inFrame = false := by simp [within]
      have reading : ¬ d.inFrame = false := by simp [inside]
      rw [Firmware.feedByte, if_neg delimiter, if_neg running, ← escaped, Deframer.pushByte,
        if_neg delimiter, if_neg reading]
      by_cases escape : d.escaped = true
      · rw [if_pos escape, if_pos escape]
        exact alike_store alike inside _
      · rw [if_neg escape, if_neg escape]
        by_cases opens : byte = fesc
        · rw [if_pos opens, if_pos opens]
          obtain ⟨limit, iff, frame, bounded⟩ := alike
          exact ⟨⟨limit, iff, fun inside => ⟨(frame inside).1, rfl⟩, bounded⟩, rfl⟩
        · rw [if_neg opens, if_neg opens]
          exact alike_store alike inside _
    · have outside : d.inFrame = false := by simpa using inside
      obtain ⟨stays, silent⟩ := alike_outside alike outside delimiter
      rw [Deframer.pushByte, if_neg delimiter, if_pos outside]
      exact ⟨stays, silent⟩

/-- What the firmware stores it stores inside the buffer. -/
theorem stored_inside (f : Firmware) (byte : UInt8) :
    ∀ act ∈ (f.feedByte byte).2, ∀ index decoded, act = .stored index decoded →
      index < frameLimit := by
  have stored (decoded : UInt8) : ∀ act ∈ (f.store decoded).2, ∀ index kept,
      act = .stored index kept → index < frameLimit := by
    intro act mem index kept same
    by_cases full : frameLimit ≤ f.requestLen
    · rw [Firmware.store, if_pos full] at mem
      exact absurd mem List.not_mem_nil
    · rw [Firmware.store, if_neg full] at mem
      obtain ⟨rfl, -⟩ := Act.stored.inj ((List.mem_singleton.mp mem).symm.trans same)
      omega
  intro act mem index decoded same
  rw [Firmware.feedByte] at mem
  split at mem
  · split at mem
    · exact absurd ((List.mem_singleton.mp mem).symm.trans same) (by simp)
    · split at mem
      · exact absurd ((List.mem_singleton.mp mem).symm.trans same) (by simp)
      · exact absurd mem List.not_mem_nil
  · split at mem
    · exact absurd mem List.not_mem_nil
    · split at mem
      · exact stored _ act mem index decoded same
      · split at mem
        · exact absurd mem List.not_mem_nil
        · exact stored _ act mem index decoded same

/-- However a stream is cut on either side, the firmware handles the frames the host's
deframer gives, and stores nothing past its buffer. -/
theorem deframe_alike (chunks reads : List Bytes) (same : chunks.flatten = reads.flatten) :
    (feedChunks Firmware.feedByte .booted chunks).2.filterMap Act.frame? =
        (feedChunks Deframer.pushByte (.new frameLimit) reads).2 ∧
      ∀ index byte, Act.stored index byte ∈ (feedChunks Firmware.feedByte .booted chunks).2 →
        index < frameLimit := by
  rw [feedChunks_eq, feedChunks_eq, ← same]
  constructor
  · exact (feed_simulated _ (fun f d byte => alike_step f d byte) alike_initially _).2
  · intro index byte mem
    obtain ⟨-, all⟩ := feed_keeps Firmware.feedByte (s := .booted) (I := fun _ => True)
      (G := fun act => ∀ index decoded, act = .stored index decoded → index < frameLimit)
      (fun f byte _ => ⟨trivial, stored_inside f byte⟩) trivial chunks.flatten
    exact all _ mem index byte rfl

/-- A frame cut inside an escape. -/
theorem deframe_alike_cut :
    (feedChunks Firmware.feedByte .booted [[7, fend, 1, fesc], [tfend, fend]]).2.filterMap
        Act.frame? =
      (feedChunks Deframer.pushByte (.new frameLimit) [[7], [fend, 1, fesc, tfend, fend]]).2 ∧
    ∀ index byte,
      Act.stored index byte ∈
        (feedChunks Firmware.feedByte .booted [[7, fend, 1, fesc], [tfend, fend]]).2 →
      index < frameLimit :=
  deframe_alike [[7, fend, 1, fesc], [tfend, fend]] [[7], [fend, 1, fesc, tfend, fend]] (by decide)

end KissFrames
