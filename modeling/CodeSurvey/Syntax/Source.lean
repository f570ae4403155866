/-!
# Source text

A source file as an array of characters. Every place in it is an *offset*,
a count of characters from the start; rows and columns are read off an
offset instead of being carried along, so a span cannot disagree with the
text it points into.

The scanner (`Grammar/Lexeme`), the tree (`Syntax/Tree`) and the record
builders all address the text through this module.
-/

namespace CodeSurvey

structure Source where
  chars : Array Char

namespace Source

def ofString (text : String) : Source := ⟨text.toList.toArray⟩

def size (s : Source) : Nat := s.chars.size

/-- The character at `i`, and NUL behind the end: a scanner that looks
ahead never needs a second case, because no token begins with NUL. -/
def peek (s : Source) (i : Nat) : Char :=
  if h : i < s.chars.size then s.chars[i] else '\x00'

/-- The text from offset `start` up to, not including, `stop`. -/
def slice (s : Source) (start stop : Nat) : String :=
  String.ofList (s.chars.extract start stop).toList

/-- The first offset at or after `i` whose character fails `p`. -/
def skipWhile (s : Source) (p : Char → Bool) (i : Nat) : Nat :=
  if h : i < s.chars.size then
    if p s.chars[i] then s.skipWhile p (i + 1) else i
  else i
termination_by s.chars.size - i

theorem le_skipWhile (s : Source) (p : Char → Bool) (i : Nat) : i ≤ s.skipWhile p i := by
  fun_induction skipWhile s p i with
  | case1 _ _ _ ih => omega
  | case2 => exact Nat.le_refl _
  | case3 => exact Nat.le_refl _

theorem skipWhile_le (s : Source) (p : Char → Bool) {i : Nat} (h : i ≤ s.chars.size) :
    s.skipWhile p i ≤ s.chars.size := by
  fun_induction skipWhile s p i with
  | case1 _ _ _ ih => exact ih (by omega)
  | case2 => exact h
  | case3 => exact h

/-- Whether the characters of `text` stand at offset `i`. -/
def startsWith (s : Source) (text : List Char) (i : Nat) : Bool :=
  match text with
  | [] => true
  | c :: rest => i < s.size && s.peek i == c && s.startsWith rest (i + 1)

/-! ## Rows and columns -/

/-- How many line feeds stand before offset `i`: only `\n` ends a row. -/
def row (s : Source) (i : Nat) : Nat :=
  s.chars.foldl (fun n c => if c = '\n' then n + 1 else n) 0 0 i

/-- The offset at which the row of offset `i` begins. -/
def rowStart (s : Source) : Nat → Nat
  | 0 => 0
  | i + 1 => if s.peek i = '\n' then i + 1 else s.rowStart i

/-- UTF-8 bytes between the start of the row and offset `i`. -/
def column (s : Source) (i : Nat) : Nat :=
  s.chars.foldl (fun n c => n + c.utf8Size) 0 (s.rowStart i) i

/-- Rows are counted from one in every record. -/
def line (s : Source) (i : Nat) : Nat := s.row i + 1

/-- A trailing line feed opens a further, empty line. -/
def lineCount (s : Source) : Nat := s.line s.size

end Source

end CodeSurvey
