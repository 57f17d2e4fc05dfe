import Mathlib.Algebra.Order.Ring.Int
import Mathlib.Data.List.Basic
import Mathlib.Data.List.DropRight

/-!
# Lines, comments and words

A text is split at newlines, a line is cut at its first comment sign, and what
is left is split at whitespace. Lines put one after the other split into the
same words again.
-/

namespace TextLines

/-! ## Lines -/

/-- Without the carriage return in front of a newline; the line is read backwards. -/
def stripReturn : List Char → List Char
  | '\r' :: line => line
  | line => line

def linesFrom : List Char → List Char → List (List Char)
  | line, [] => if line = [] then [] else [line.reverse]
  | line, c :: rest =>
    if c = '\n' then (stripReturn line).reverse :: linesFrom [] rest
    else linesFrom (c :: line) rest

/-- The lines of a text. A newline ends a line, and so does the end of the text. -/
def lines (text : List Char) : List (List Char) := linesFrom [] text

/-- Each line with a newline behind it. -/
def unlines (ls : List (List Char)) : List Char := ls.flatMap fun line => line ++ ['\n']

theorem newline_notMem_stripReturn {line : List Char} (single : '\n' ∉ line) :
    '\n' ∉ stripReturn line := by
  unfold stripReturn
  split
  · exact fun mem => single (List.mem_cons_of_mem _ mem)
  · exact single

theorem newline_notMem_linesFrom (rest line : List Char) (single : '\n' ∉ line) :
    ∀ l ∈ linesFrom line rest, '\n' ∉ l := by
  induction rest generalizing line with
  | nil =>
    simp only [linesFrom]
    split
    · nofun
    · intro l mem
      rw [List.mem_singleton.mp mem, List.mem_reverse]
      exact single
  | cons c rest ih =>
    simp only [linesFrom]
    split
    · intro l mem
      rcases List.mem_cons.mp mem with rfl | mem
      · rw [List.mem_reverse]
        exact newline_notMem_stripReturn single
      · exact ih [] nofun l mem
    · rename_i other
      apply ih
      intro mem
      rcases List.mem_cons.mp mem with here | mem
      · exact other here.symm
      · exact single mem

theorem newline_notMem_lines (text : List Char) : ∀ l ∈ lines text, '\n' ∉ l :=
  newline_notMem_linesFrom text [] nofun

theorem linesFrom_append (l line rest : List Char) (single : '\n' ∉ l) :
    linesFrom line (l ++ '\n' :: rest) =
      (stripReturn (l.reverse ++ line)).reverse :: linesFrom [] rest := by
  induction l generalizing line with
  | nil => simp [linesFrom]
  | cons c l ih =>
    have other : c ≠ '\n' := fun here => single (here ▸ List.mem_cons_self)
    have later : '\n' ∉ l := fun mem => single (List.mem_cons_of_mem _ mem)
    rw [List.cons_append, linesFrom, if_neg other, ih _ later, List.reverse_cons,
      List.append_assoc, List.singleton_append]

/-- A line loses at most a carriage return at its end. -/
theorem lines_cons (l rest : List Char) (single : '\n' ∉ l) :
    lines (l ++ '\n' :: rest) = (stripReturn l.reverse).reverse :: lines rest := by
  rw [lines, linesFrom_append l [] rest single, List.append_nil]
  rfl

theorem lines_unlines (ls : List (List Char)) (single : ∀ l ∈ ls, '\n' ∉ l) (rest : List Char) :
    lines (unlines ls ++ rest) =
      ls.map (fun l => (stripReturn l.reverse).reverse) ++ lines rest := by
  induction ls with
  | nil => rfl
  | cons l ls ih =>
    have here := single l List.mem_cons_self
    have later := ih fun k mem => single k (List.mem_cons_of_mem _ mem)
    rw [unlines, List.flatMap_cons, List.append_assoc, List.append_assoc, List.singleton_append,
      lines_cons _ _ here]
    rw [unlines] at later
    rw [later, List.map_cons, List.cons_append]

/-! ## Words -/

/-- The characters that separate words: the white space of Unicode. -/
def isWhitespace (c : Char) : Bool :=
  decide (9 ≤ c.toNat ∧ c.toNat ≤ 13 ∨ c.toNat = 0x20 ∨ c.toNat = 0x85 ∨ c.toNat = 0xA0 ∨
    c.toNat = 0x1680 ∨ 0x2000 ≤ c.toNat ∧ c.toNat ≤ 0x200A ∨ c.toNat = 0x2028 ∨
    c.toNat = 0x2029 ∨ c.toNat = 0x202F ∨ c.toNat = 0x205F ∨ c.toNat = 0x3000)

def wordsFrom : List Char → List Char → List (List Char)
  | word, [] => if word = [] then [] else [word.reverse]
  | word, c :: rest =>
    if isWhitespace c then
      if word = [] then wordsFrom [] rest else word.reverse :: wordsFrom [] rest
    else wordsFrom (c :: word) rest

/-- The pieces between whitespace, none of them empty. -/
def splitWhitespace (line : List Char) : List (List Char) := wordsFrom [] line

def trim (line : List Char) : List Char :=
  (line.dropWhile isWhitespace).rdropWhile isWhitespace

/-- What stands in front of the first comment sign. -/
def uncommented (line : List Char) : List Char := line.takeWhile (· ≠ '#')

theorem wordsFrom_whitespace (blank word : List Char) (white : ∀ c ∈ blank, isWhitespace c = true) :
    wordsFrom word blank = if word = [] then [] else [word.reverse] := by
  induction blank generalizing word with
  | nil => rfl
  | cons c blank ih =>
    have here := white c List.mem_cons_self
    have later := ih [] fun d mem => white d (List.mem_cons_of_mem _ mem)
    rw [if_pos rfl] at later
    rw [wordsFrom, if_pos here, later]

/-- Whitespace at the end of a line separates nothing. -/
theorem wordsFrom_append_whitespace (line blank word : List Char)
    (white : ∀ c ∈ blank, isWhitespace c = true) :
    wordsFrom word (line ++ blank) = wordsFrom word line := by
  induction line generalizing word with
  | nil => rw [List.nil_append, wordsFrom_whitespace blank word white, wordsFrom]
  | cons c line ih => simp only [List.cons_append, wordsFrom, ih]

theorem splitWhitespace_dropWhile (line : List Char) :
    splitWhitespace (line.dropWhile isWhitespace) = splitWhitespace line := by
  induction line with
  | nil => rfl
  | cons c line ih =>
    by_cases white : isWhitespace c = true
    · rw [List.dropWhile_cons_of_pos white, ih, splitWhitespace, splitWhitespace, wordsFrom,
        if_pos white, if_pos rfl]
    · rw [List.dropWhile_cons_of_neg white]

/-- Trimming a line changes none of its words. -/
theorem splitWhitespace_trim (line : List Char) :
    splitWhitespace (trim line) = splitWhitespace line := by
  rw [← splitWhitespace_dropWhile line, trim]
  generalize line.dropWhile isWhitespace = rest
  have white : ∀ c ∈ rest.rtakeWhile isWhitespace, isWhitespace c = true :=
    fun c mem => List.mem_rtakeWhile_imp mem
  have parts : rest.rdropWhile isWhitespace ++ rest.rtakeWhile isWhitespace = rest := by
    rw [List.rdropWhile, List.rtakeWhile, ← List.reverse_append, List.takeWhile_append_dropWhile,
      List.reverse_reverse]
  have same := wordsFrom_append_whitespace (rest.rdropWhile isWhitespace) _ [] white
  rw [parts] at same
  exact same.symm

theorem wordsFrom_started (rest word : List Char) (started : word ≠ []) :
    wordsFrom word rest ≠ [] := by
  induction rest generalizing word with
  | nil => simp [wordsFrom, started]
  | cons c rest ih =>
    simp only [wordsFrom]
    split
    · exact List.cons_ne_nil _ _
    · exact ih (c :: word) (List.cons_ne_nil _ _)

/-- Nothing is left of a line exactly if it has no word. -/
theorem trim_eq_nil (line : List Char) : trim line = [] ↔ splitWhitespace line = [] := by
  rw [← splitWhitespace_trim]
  constructor
  · intro blank
    rw [blank]
    rfl
  · intro none
    cases left : trim line with
    | nil => rfl
    | cons c rest =>
      exfalso
      -- what trimming leaves starts with something else than whitespace
      have dark : isWhitespace c = false := by
        have prefixed : trim line <+: line.dropWhile isWhitespace := List.rdropWhile_prefix _ _
        rw [left] at prefixed
        obtain ⟨tail, whole⟩ := prefixed
        have head := List.head?_dropWhile_not isWhitespace line
        rw [← whole] at head
        simpa using head
      rw [left, splitWhitespace, wordsFrom, dark] at none
      exact wordsFrom_started rest [c] (List.cons_ne_nil _ _) none

theorem wordsFrom_word (w word rest : List Char) (dark : ∀ c ∈ w, isWhitespace c = false) :
    wordsFrom word (w ++ rest) = wordsFrom (w.reverse ++ word) rest := by
  induction w generalizing word with
  | nil => rfl
  | cons c w ih =>
    have here := dark c List.mem_cons_self
    rw [List.cons_append, wordsFrom, here, if_neg (by simp),
      ih _ fun d mem => dark d (List.mem_cons_of_mem _ mem), List.reverse_cons,
      List.append_assoc, List.singleton_append]

/-- A word and a space in front of a line: the word comes first. -/
theorem splitWhitespace_cons {w : List Char} (some : w ≠ [])
    (dark : ∀ c ∈ w, isWhitespace c = false) (rest : List Char) :
    splitWhitespace (w ++ ' ' :: rest) = w :: splitWhitespace rest := by
  have white : isWhitespace ' ' = true := by decide
  rw [splitWhitespace, wordsFrom_word w [] _ dark, List.append_nil, wordsFrom, if_pos white,
    if_neg (by simpa using some), List.reverse_reverse]
  rfl

theorem splitWhitespace_word {w : List Char} (some : w ≠ [])
    (dark : ∀ c ∈ w, isWhitespace c = false) : splitWhitespace w = [w] := by
  have all := wordsFrom_word w [] [] dark
  rw [List.append_nil, List.append_nil, wordsFrom, if_neg (by simpa using some),
    List.reverse_reverse] at all
  exact all

/-! ## The words of a line -/

def words (line : List Char) : List (List Char) := splitWhitespace (uncommented line)

/-- A carriage return at the end of a line is whitespace, or part of a comment. -/
theorem words_stripReturn (line : List Char) :
    words (stripReturn line.reverse).reverse = words line := by
  cases back : line.reverse with
  | nil =>
    rw [List.reverse_eq_nil_iff.mp back]
    rfl
  | cons c front =>
    have whole : line = front.reverse ++ [c] := by
      rw [← List.reverse_reverse line, back, List.reverse_cons]
    by_cases here : c = '\r'
    · subst here
      rw [whole]
      simp only [stripReturn, words, uncommented, List.takeWhile_append]
      split
      · rename_i uncommented
        have all := (List.takeWhile_prefix fun d => decide (d ≠ '#')).eq_of_length uncommented
        rw [all]
        refine (wordsFrom_append_whitespace _ _ _ ?_).symm
        rintro c mem
        rw [List.mem_singleton.mp mem]
        decide
      · rfl
    · have kept : stripReturn (c :: front) = c :: front := by
        unfold stripReturn
        split
        · rename_i same
          cases same
          exact absurd rfl here
        · rfl
      rw [kept, whole, List.reverse_cons]

end TextLines
