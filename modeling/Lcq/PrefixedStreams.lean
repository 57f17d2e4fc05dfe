import Lcq.RecordLog
import Lcq.Transducers

/-!
# Messages behind their lengths

A stream of messages, each behind its length in four little-endian bytes. The
reader stops for good at a length of nothing or past its limit, and at a
message it does not accept; whoever writes to it afterwards writes to nobody.

The library is about any limit and any test of a message.
-/

namespace PrefixedStreams

open ByteFormat RecordLog Transducers

/-- A message behind its length; a length that does not fit is written as none. -/
def prefixed (message : Bytes) : Bytes :=
  le32 (if message.length < 2 ^ 32 then message.length else 0) ++ message

/-- How far a reader is: in a length, in a message of a size, or gone for good. -/
inductive Phase where
  | length (got : Bytes)
  | body (size : Nat) (got : Bytes)
  | gone
  deriving DecidableEq

/-- Between two messages. -/
abbrev Phase.between : Phase := .length []

section reader

variable {α : Type} (limit : Nat) (accept : Bytes → Option α)

/-- One more byte arrives; a message that is whole is handed on. -/
def take : Phase → UInt8 → Phase × List α
  | .length got, byte =>
    let got := got ++ [byte]
    if got.length < 4 then (.length got, [])
    else if ofLe32 got = 0 ∨ limit < ofLe32 got then (.gone, [])
    else (.body (ofLe32 got) [], [])
  | .body size got, byte =>
    let got := got ++ [byte]
    if got.length < size then (.body size got, [])
    else
      match accept got with
      | none => (.gone, [])
      | some a => (.between, [a])
  | .gone, _ => (.gone, [])

def reads : Phase → Bytes → Phase × List α := feed (take limit accept)

variable {limit accept}

theorem reads_append (phase : Phase) (xs ys : Bytes) :
    reads limit accept phase (xs ++ ys) =
      ((reads limit accept (reads limit accept phase xs).1 ys).1,
        (reads limit accept phase xs).2 ++
          (reads limit accept (reads limit accept phase xs).1 ys).2) :=
  feed_append _ _ _ _

/-- A reader that is gone reads nothing more. -/
theorem reads_gone (stream : Bytes) : reads limit accept .gone stream = (.gone, []) := by
  induction stream with
  | nil => rfl
  | cons byte stream ih =>
    rw [reads, feed_cons]
    exact congrArg (fun rest => (rest.1, [] ++ rest.2)) ih

/-- It was there all along if it is at the end. -/
theorem listening_before {phase : Phase} {xs ys : Bytes}
    (listening : (reads limit accept phase (xs ++ ys)).1 ≠ .gone) :
    (reads limit accept phase xs).1 ≠ .gone := by
  intro stopped
  rw [reads_append, stopped, reads_gone] at listening
  exact listening rfl

/-- What has been read of a stream is the beginning of what is read of it all. -/
theorem reads_prefix (phase : Phase) (xs ys : Bytes) :
    (reads limit accept phase xs).2 <+: (reads limit accept phase (xs ++ ys)).2 := by
  rw [reads_append]
  exact List.prefix_append _ _

/-! ## One message -/

variable (limit accept) in
theorem reads_four (a b c d : UInt8) :
    reads limit accept .between [a, b, c, d] =
      if ofLe32 [a, b, c, d] = 0 ∨ limit < ofLe32 [a, b, c, d] then (.gone, [])
      else (.body (ofLe32 [a, b, c, d]) [], []) := by
  have more {got : Bytes} (few : got.length < 3) (byte : UInt8) :
      take limit accept (.length got) byte = (.length (got ++ [byte]), []) := by
    rw [take, if_pos (by rw [List.length_append, List.length_singleton]; omega)]
  have last : take limit accept (.length [a, b, c]) d =
      if ofLe32 [a, b, c, d] = 0 ∨ limit < ofLe32 [a, b, c, d] then (.gone, [])
      else (.body (ofLe32 [a, b, c, d]) [], []) := by
    rw [take]
    exact if_neg (Nat.lt_irrefl 4)
  have one : take limit accept (.length []) a = (.length [a], []) := more (by simp) a
  have two : take limit accept (.length [a]) b = (.length [a, b], []) := more (by simp) b
  have three : take limit accept (.length [a, b]) c = (.length [a, b, c], []) := more (by simp) c
  simp only [reads, feed_cons, feed_nil, one, two, three, last, List.nil_append, List.append_nil]

theorem reads_length {n : Nat} (fits : n < 2 ^ 32) (rest : Bytes) :
    reads limit accept .between (le32 n ++ rest) =
      if n = 0 ∨ limit < n then (.gone, []) else reads limit accept (.body n []) rest := by
  have size : ofLe32 (le32 n) = n := by
    have whole := ofLe32_le32 n fits []
    rwa [List.append_nil] at whole
  have first : reads limit accept .between (le32 n) =
      if n = 0 ∨ limit < n then (.gone, []) else (.body n [], []) := by
    have read := reads_four limit accept (UInt8.ofNat n)
      (UInt8.ofNat (n / 256)) (UInt8.ofNat (n / 65536)) (UInt8.ofNat (n / 16777216))
    rwa [show [UInt8.ofNat n, UInt8.ofNat (n / 256), UInt8.ofNat (n / 65536),
      UInt8.ofNat (n / 16777216)] = le32 n from rfl, size] at read
  rw [reads_append, first]
  split
  · rw [reads_gone]
    rfl
  · rfl

theorem reads_body {size : Nat} {got message : Bytes} (whole : got.length + message.length = size)
    (more : message ≠ []) :
    reads limit accept (.body size got) message =
      ((accept (got ++ message)).elim (.gone, []) fun a => (.between, [a])) := by
  induction message generalizing got with
  | nil => exact absurd rfl more
  | cons byte message ih =>
    have shape : got ++ byte :: message = (got ++ [byte]) ++ message := by simp
    rw [List.length_cons] at whole
    cases message with
    | nil =>
      have last : ¬ (got ++ [byte]).length < size := by
        rw [List.length_append, List.length_singleton]
        rw [List.length_nil] at whole
        omega
      rw [reads, feed_cons, take, if_neg last, feed_nil]
      cases accept (got ++ [byte]) <;> rfl
    | cons next message =>
      have before : (got ++ [byte]).length < size := by
        rw [List.length_append, List.length_singleton]
        rw [List.length_cons] at whole
        omega
      rw [shape, ← ih (by rw [List.length_append, List.length_singleton]; omega)
        (List.cons_ne_nil next message), reads, feed_cons, take, if_pos before]
      rfl

/-- What becomes of a reader that one message is written to. -/
theorem reads_prefixed (small : limit < 2 ^ 32) (message rest : Bytes) :
    reads limit accept .between (prefixed message ++ rest) =
      if message = [] ∨ limit < message.length then (.gone, [])
      else (accept message).elim (.gone, []) fun a =>
        ((reads limit accept .between rest).1, a :: (reads limit accept .between rest).2) := by
  rw [prefixed, List.append_assoc]
  by_cases fits : message.length < 2 ^ 32
  · rw [if_pos fits, reads_length fits]
    simp only [List.length_eq_zero_iff]
    split
    · rfl
    · rename_i within
      rw [reads_append, reads_body (Nat.zero_add _) (not_or.mp within).1, List.nil_append]
      cases accept message with
      | none =>
        dsimp only [Option.elim]
        rw [reads_gone]
        rfl
      | some a => rfl
  · rw [if_neg fits, reads_length (by omega), if_pos (Or.inl rfl), if_pos (Or.inr (by omega))]

/-- A message that is read as the value it was written for. -/
def Passes (limit : Nat) (accept : Bytes → Option α) (message : Bytes) (value : α) : Prop :=
  message ≠ [] ∧ message.length ≤ limit ∧ accept message = some value

/-- In the middle of a message there is room for it. -/
def Phase.Under (limit : Nat) : Phase → Prop
  | .length _ => True
  | .body size got => got.length < size ∧ size ≤ limit
  | .gone => True

theorem take_under {phase : Phase} (under : phase.Under limit) (byte : UInt8) :
    (take limit accept phase byte).1.Under limit ∧
      ∀ a ∈ (take limit accept phase byte).2, ∃ message, Passes limit accept message a := by
  cases phase with
  | length got =>
    rw [take]
    generalize ofLe32 (got ++ [byte]) = size
    split
    · exact ⟨trivial, fun _ none => absurd none List.not_mem_nil⟩
    · split
      · exact ⟨trivial, fun _ none => absurd none List.not_mem_nil⟩
      · rename_i within
        obtain ⟨some, short⟩ := not_or.mp within
        refine ⟨⟨?_, Nat.le_of_not_lt short⟩, fun _ none => absurd none List.not_mem_nil⟩
        exact Nat.pos_of_ne_zero some
  | body size got =>
    obtain ⟨more, short⟩ := under
    have grown : (got ++ [byte]).length = got.length + 1 := by simp
    rw [take]
    split
    · rename_i room
      exact ⟨⟨room, short⟩, fun _ none => absurd none List.not_mem_nil⟩
    · split
      · exact ⟨trivial, fun _ none => absurd none List.not_mem_nil⟩
      · rename_i a known
        refine ⟨trivial, fun b mem => ⟨got ++ [byte], by simp, by omega, ?_⟩⟩
        rw [List.mem_singleton.mp mem]
        exact known
  | gone => exact ⟨trivial, fun _ none => absurd none List.not_mem_nil⟩

variable (accept) in
/-- Whatever is read was a message that passes. -/
theorem reads_passing {phase : Phase} (under : phase.Under limit) (stream : Bytes) :
    (reads limit accept phase stream).1.Under limit ∧
      ∀ a ∈ (reads limit accept phase stream).2, ∃ message, Passes limit accept message a :=
  feed_keeps (I := Phase.Under limit) (G := fun a => ∃ message, Passes limit accept message a)
    (take limit accept) (fun _ byte under => take_under under byte) under stream

/-! ## Many messages -/

variable {μ : Type} {encode : μ → Bytes} {value : μ → α}

variable (accept encode value) in
/-- Whatever is written is read in order, and the reader goes on listening, if and only if each
message passes. -/
theorem reads_all_iff (small : limit < 2 ^ 32) (messages : List μ) :
    reads limit accept .between (messages.flatMap fun m => prefixed (encode m)) =
        (.between, messages.map value) ↔
      ∀ m ∈ messages, Passes limit accept (encode m) (value m) := by
  induction messages with
  | nil => simp [reads]
  | cons m messages ih =>
    rw [List.flatMap_cons, reads_prefixed small, List.map_cons, List.forall_mem_cons, ← ih]
    constructor
    · intro read
      split at read
      · cases read
      · rename_i within
        obtain ⟨some, short⟩ := not_or.mp within
        cases known : accept (encode m) with
        | none =>
          rw [known] at read
          cases read
        | some a =>
          rw [known, Option.elim_some, Prod.mk.injEq, List.cons.injEq] at read
          obtain ⟨phase, rfl, rest⟩ := read
          exact ⟨⟨some, Nat.le_of_not_lt short, known⟩, Prod.ext phase rest⟩
    · rintro ⟨⟨some, short, known⟩, rest⟩
      rw [if_neg (not_or.mpr ⟨some, Nat.not_lt.mpr short⟩), known, Option.elim_some, rest]

variable (accept encode) in
/-- Behind whole messages a reader is between two, or gone. -/
theorem reads_settled (small : limit < 2 ^ 32) (messages : List μ) :
    (reads limit accept .between (messages.flatMap fun m => prefixed (encode m))).1 = .between ∨
      (reads limit accept .between (messages.flatMap fun m => prefixed (encode m))).1 = .gone := by
  induction messages with
  | nil => exact Or.inl rfl
  | cons m messages ih =>
    rw [List.flatMap_cons, reads_prefixed small]
    split
    · exact Or.inr rfl
    · cases accept (encode m) with
      | none => exact Or.inr rfl
      | some a => exact ih

/-- One message past the limit, or of nothing, and the reader is gone whatever came before and
comes after. -/
theorem reads_deaf (small : limit < 2 ^ 32) {messages : List μ} {m : μ} (mem : m ∈ messages)
    (wrong : encode m = [] ∨ limit < (encode m).length) :
    (reads limit accept .between (messages.flatMap fun m => prefixed (encode m))).1 = .gone := by
  obtain ⟨before, after, rfl⟩ := List.append_of_mem mem
  rw [List.flatMap_append, reads_append, List.flatMap_cons]
  rcases reads_settled accept encode small before with between | gone
  · rw [between, reads_prefixed small, if_pos wrong]
  · rw [gone, reads_gone]

end reader

end PrefixedStreams
