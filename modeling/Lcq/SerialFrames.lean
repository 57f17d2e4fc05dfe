import Lcq.KissFrames

/-!
# The deframer finds its feet

Whatever was on the line before, from the first delimiter on every frame that
fits comes out as it was put in, a longer one is lost alone, and nothing empty
or too long ever comes out.
-/

namespace SerialFrames

open ByteFormat KissFrames KissFrames.Deframer Transducers

/-- A command byte and its payload. -/
structure Frame where
  command : UInt8
  payload : Bytes
  notEnd : command ≠ fend
  notEscape : command ≠ fesc

namespace Frame

def line (frame : Frame) : Bytes := encode frame.command frame.payload

def bytes (frame : Frame) : Bytes := frame.command :: frame.payload

end Frame

/-- The frames a limit lets through. -/
def within (limit : Nat) (frames : List Frame) : List Bytes :=
  (frames.filter fun frame => decide (frame.payload.length + 1 ≤ limit)).map Frame.bytes

theorem within_cons (limit : Nat) (frame : Frame) (frames : List Frame) :
    within limit (frame :: frames) =
      (if frame.payload.length + 1 ≤ limit then [frame.bytes] else []) ++ within limit frames := by
  unfold within
  by_cases fits : frame.payload.length + 1 ≤ limit
  · rw [List.filter_cons, if_pos (decide_eq_true fits), if_pos fits]
    rfl
  · have longer : ¬ decide (frame.payload.length + 1 ≤ limit) = true := by simpa using fits
    rw [List.filter_cons, if_neg longer, if_neg fits]
    rfl

/-! ## From a delimiter on -/

/-- Between frames a row of frames comes out, and the deframer is between frames again. -/
theorem push_frames (frames : List Frame) {d : Deframer} (ready : d.Ready) :
    (d.push (frames.flatMap Frame.line)).2 = within d.limit frames := by
  induction frames generalizing d with
  | nil => rfl
  | cons frame frames ih =>
    have first := push_encode ready frame.notEnd frame.notEscape frame.payload
    have later := ih (delimited_ready d)
    rw [List.flatMap_cons, push_append, Frame.line, first, within_cons, later]
    rfl

/-- The first delimiter ends whatever there was, and nothing of it is left. -/
theorem push_delimiter (d : Deframer) (bytes : Bytes) :
    (d.push (fend :: bytes)).2 = (d.pushByte fend).2 ++ (d.delimited.push (fend :: bytes)).2 := by
  have cleared : (d.pushByte fend).1 = d.delimited := rfl
  have silent : (d.delimited.pushByte fend).2 = [] := rfl
  have again : (d.delimited.pushByte fend).1 = d.delimited := rfl
  rw [push, push, feed_cons, feed_cons, cleared, silent, again, List.nil_append]

/-! ## Nothing else comes out -/

/-- No more than the limit is held, whatever was read. -/
def Bounded (limit : Nat) (d : Deframer) : Prop := d.limit = limit ∧ d.frame.length ≤ limit

def Sound (limit : Nat) (frame : Bytes) : Prop := frame ≠ [] ∧ frame.length ≤ limit

theorem keep_bounded {limit : Nat} {d : Deframer} (bounded : Bounded limit d) (byte : UInt8) :
    Bounded limit (d.keep byte) := by
  obtain ⟨own, le⟩ := bounded
  unfold keep
  split
  · exact ⟨own, Nat.zero_le _⟩
  · rename_i room
    refine ⟨own, ?_⟩
    rw [List.length_append, List.length_singleton]
    omega

theorem pushByte_bounded (limit : Nat) (d : Deframer) (byte : UInt8) (bounded : Bounded limit d) :
    Bounded limit (d.pushByte byte).1 ∧ ∀ frame ∈ (d.pushByte byte).2, Sound limit frame := by
  have silent : ∀ frame ∈ ([] : List Bytes), Sound limit frame := by simp
  unfold pushByte
  split
  · refine ⟨⟨bounded.1, Nat.zero_le _⟩, ?_⟩
    intro frame mem
    split at mem
    · rename_i held
      rw [List.mem_singleton.mp mem]
      exact ⟨held.2, bounded.2⟩
    · cases mem
  · split
    · exact ⟨bounded, silent⟩
    · split
      · exact ⟨keep_bounded bounded _, silent⟩
      · split
        · exact ⟨bounded, silent⟩
        · exact ⟨keep_bounded bounded _, silent⟩

theorem new_bounded (limit : Nat) : Bounded limit (.new limit) := ⟨rfl, Nat.zero_le _⟩

/-- What is left of any earlier bytes. -/
def after (limit : Nat) (earlier : Bytes) : Deframer := ((new limit).push earlier).1

theorem after_bounded (limit : Nat) (earlier : Bytes) : Bounded limit (after limit earlier) :=
  (feed_keeps pushByte (pushByte_bounded limit) (new_bounded limit) earlier).1

/-- Behind any bytes, and however their encodings are cut, the frames within the limit come
out in order, behind no more than one left over that the first delimiter ends; the longer ones
are missing and nothing else is; and no input whatever brings out an empty or too long one. -/
theorem resynchronised (limit : Nat) (earlier : Bytes) (frames : List Frame) (chunks : List Bytes)
    (cut : chunks.flatten = frames.flatMap Frame.line) :
    (∃ junk, junk.length ≤ 1 ∧
      (frames ≠ [] → junk = ((after limit earlier).pushByte fend).2) ∧
      (feedChunks pushByte (after limit earlier) chunks).2 = junk ++ within limit frames) ∧
    ∀ input : List Bytes, ∀ frame ∈ (feedChunks pushByte (.new limit) input).2,
      Sound limit frame := by
  constructor
  · rw [feedChunks_eq, cut]
    cases frames with
    | nil => exact ⟨[], Nat.zero_le _, fun some => absurd rfl some, rfl⟩
    | cons frame frames =>
      refine ⟨((after limit earlier).pushByte fend).2, ?_, fun _ => rfl, ?_⟩
      · rw [pushByte, if_pos rfl]
        split <;> simp
      · have opens : ∃ rest, (frame :: frames).flatMap Frame.line = fend :: rest := ⟨_, rfl⟩
        obtain ⟨rest, opens⟩ := opens
        have found := push_frames (frame :: frames) (delimited_ready (after limit earlier))
        have own : (after limit earlier).delimited.limit = limit := (after_bounded limit earlier).1
        rw [opens, own] at found
        rw [opens, ← found]
        exact push_delimiter (after limit earlier) rest
  · intro input
    rw [feedChunks_eq]
    exact (feed_keeps pushByte (pushByte_bounded limit) (new_bounded limit) input.flatten).2

def seventh (payload : Bytes) : Frame := ⟨7, payload, by decide, by decide⟩

/-- Garbage that ends inside an escape, then a frame of two, one of three and one of one byte
under a limit of two, cut inside the second. -/
theorem resynchronised_escape : ∃ junk, junk.length ≤ 1 ∧
    (feedChunks pushByte (after 2 [fend, 9, fesc])
      [[fend, 7, 1, fend, fend, 7], [2, 3, fend, fend, 7, fend]]).2 = junk ++ [[7, 1], [7]] := by
  obtain ⟨junk, one, -, out⟩ := (resynchronised 2 [fend, 9, fesc]
    [seventh [1], seventh [2, 3], seventh []] [[fend, 7, 1, fend, fend, 7],
      [2, 3, fend, fend, 7, fend]] (by decide)).1
  exact ⟨junk, one, out⟩

end SerialFrames
