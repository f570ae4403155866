import CodeSurvey.Syntax.Tree

/-!
# Blanks and comments

What may stand between two tokens. Comments are nodes of the tree, but the
grammar never mentions them: the reader skips them, and `Tree.placeComments`
(module `Grammar/Parse`) puts them back by looking at the gaps between the
tokens. Both sides use the scanner of this module, so they agree on what a
comment is.
-/

namespace CodeSurvey

/-- Separators of words: the ASCII blanks, the Unicode space separators, the
line and paragraph separators, and the invisible joiners a text editor may
leave behind (byte order mark, word joiner, zero width space). -/
def isBlank (c : Char) : Bool :=
  let n := c.toNat
  n = 32 || (9 ≤ n && n ≤ 13) || n = 0xA0 || n = 0x1680 || (0x2000 ≤ n && n ≤ 0x200B)
    || n = 0x2028 || n = 0x2029 || n = 0x202F || n = 0x205F || n = 0x2060 || n = 0x3000
    || n = 0xFEFF

/-- The characters that end a line comment. -/
def isLineEnd (c : Char) : Bool :=
  c = '\n' || c = '\r' || c = '\u2028' || c = '\u2029'

namespace Source

/-- The offset behind the first `*/` at or after `i`. -/
def blockCommentEnd? (s : Source) (i : Nat) : Option Nat :=
  if i + 1 < s.size then
    if s.peek i = '*' && s.peek (i + 1) = '/' then some (i + 2)
    else s.blockCommentEnd? (i + 1)
  else none
termination_by s.size - i

theorem lt_blockCommentEnd {s : Source} {i j : Nat} (h : s.blockCommentEnd? i = some j) :
    i < j := by
  fun_induction blockCommentEnd? s i with
  | case1 i _ _ => cases h; omega
  | case2 i _ _ ih => have := ih h; omega
  | case3 => cases h

/-- The end of the comment that begins exactly at `i`: a line comment runs to
the end of its line, a block comment to the first `*/`. A block comment that
is never closed is no comment. -/
def commentEnd? (s : Source) (i : Nat) : Option Nat :=
  if s.peek i = '/' then
    if s.peek (i + 1) = '/' then some (s.skipWhile (fun c => !isLineEnd c) (i + 2))
    else if s.peek (i + 1) = '*' then s.blockCommentEnd? (i + 2)
    else none
  else none

theorem lt_commentEnd {s : Source} {i j : Nat} (h : s.commentEnd? i = some j) : i < j := by
  unfold commentEnd? at h
  split at h
  · split at h
    · have := s.le_skipWhile (fun c => !isLineEnd c) (i + 2)
      simp only [Option.some.injEq] at h
      omega
    · split at h
      · have := lt_blockCommentEnd h
        omega
      · cases h
  · cases h

/-- The end of the markup comment that begins exactly at `i`. Both of its
delimiters open a comment that runs to the end of the line. -/
def htmlCommentEnd? (s : Source) (i : Nat) : Option Nat :=
  let toLineEnd (j : Nat) := s.skipWhile (fun c => !(c = '\n' || c = '\u2028' || c = '\u2029')) j
  if s.startsWith ['<', '!', '-', '-'] i then some (toLineEnd (i + 4))
  else if s.startsWith ['-', '-', '>'] i then some (toLineEnd (i + 3))
  else none

theorem lt_htmlCommentEnd {s : Source} {i j : Nat} (h : s.htmlCommentEnd? i = some j) :
    i < j := by
  simp only [htmlCommentEnd?] at h
  split at h
  · have := s.le_skipWhile (fun c => !(c = '\n' || c = '\u2028' || c = '\u2029')) (i + 4)
    simp only [Option.some.injEq] at h
    omega
  · split at h
    · have := s.le_skipWhile (fun c => !(c = '\n' || c = '\u2028' || c = '\u2029')) (i + 3)
      simp only [Option.some.injEq] at h
      omega
    · cases h

/-- A comment of either form at `i`, with the kind of its node. Markup
comments are recognised only where `markup` is set: behind an operand `<!--`
is a chain of operators. -/
def anyCommentEnd? (s : Source) (markup : Bool) (i : Nat) : Option (NodeKind × Nat) :=
  match s.commentEnd? i with
  | some j => some (.comment, j)
  | none =>
    if markup then (s.htmlCommentEnd? i).map (Prod.mk .htmlComment) else none

theorem lt_anyCommentEnd {s : Source} {markup : Bool} {i j : Nat} {k : NodeKind}
    (h : s.anyCommentEnd? markup i = some (k, j)) : i < j := by
  unfold anyCommentEnd? at h
  split at h
  · next h' => cases h; exact lt_commentEnd h'
  · split at h
    · cases hc : s.htmlCommentEnd? i with
      | none => simp [hc] at h
      | some e =>
        simp only [hc, Option.map_some, Option.some.injEq, Prod.mk.injEq] at h
        exact h.2 ▸ lt_htmlCommentEnd hc
    · cases h

/-- The offset of the first character at or after `i` that is neither blank
nor part of a comment. -/
def skipTrivia (s : Source) (markup : Bool) (i : Nat) : Nat :=
  if _ : i < s.size then
    if isBlank (s.peek i) then s.skipTrivia markup (i + 1)
    else
      match _ : s.anyCommentEnd? markup i with
      | some (_, j) => s.skipTrivia markup j
      | none => i
  else i
termination_by s.size - i
decreasing_by
  · omega
  · have := lt_anyCommentEnd ‹_›
    omega

/-- The comments between two offsets that enclose blanks and comments only. -/
def commentsBetween (s : Source) (i stop : Nat) : List Tree :=
  if _ : i < stop then
    match _ : s.anyCommentEnd? true i with
    | some (k, j) => Tree.leaf k i j :: s.commentsBetween j stop
    | none => s.commentsBetween (i + 1) stop
  else []
termination_by stop - i
decreasing_by
  · have := lt_anyCommentEnd ‹_›
    omega
  · omega

end Source

end CodeSurvey
