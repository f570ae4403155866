import CodeSurvey.Grammar.Dialect
import CodeSurvey.Grammar.Trivia

/-!
# Virtual semicolons

Where a statement may end without a written semicolon. The decision looks at
the characters behind the statement only: at the end of the text, in front of
a closing brace, or behind a line break unless the next line begins with a
character that continues the statement.

Two things make the rule less plain than that, and both can be seen in the
records. A virtual semicolon has no width, but it may come behind a comment,
which then belongs to the statement that the semicolon ends and does not
document the next one. And the characters that continue a statement depend on
the dialect and on whether the statement so far ends in an operand.
-/

namespace CodeSurvey

/-- The blanks that the end-of-statement rule knows; the others are treated
like the first character of a token. -/
def isAsciiBlank (c : Char) : Bool := c = ' ' || (9 ≤ c.toNat && c.toNat ≤ 13)

def isAsciiLetter (c : Char) : Bool := ('a' ≤ c && c ≤ 'z') || ('A' ≤ c && c ≤ 'Z')

def isAsciiDigit (c : Char) : Bool := '0' ≤ c && c ≤ '9'

/-- The characters that separate statements. -/
def isStatementBreak (c : Char) : Bool := c = '\n' || c = '\u2028' || c = '\u2029'

namespace Source

/-- Offset of the first character at or after `i` that is no ASCII blank and
outside every comment; `none` in front of a lone slash. -/
def skipComments? (s : Source) (i : Nat) : Option Nat :=
  let j := s.skipWhile isAsciiBlank i
  if s.peek j = '/' then
    match _ : s.commentEnd? j with
    | some k => if k < s.size then s.skipComments? k else some s.size
    | none => if s.peek (j + 1) = '*' then some s.size else none
  else some j
termination_by s.size - i
decreasing_by
  have := s.le_skipWhile isAsciiBlank i
  have := lt_commentEnd ‹_›
  omega

/-- Whether the word at `i` is the operator `in` or `instanceof`. Letters
alone decide where the word ends. -/
def atRelationWord (s : Source) (i : Nat) : Bool :=
  let tail := ['s', 't', 'a', 'n', 'c', 'e', 'o', 'f']
  s.startsWith ['i', 'n'] i
    && (!isAsciiLetter (s.peek (i + 2))
      || (s.startsWith tail (i + 2) && !isAsciiLetter (s.peek (i + 10))))

/-- Whether a statement can end on an earlier line than the one on which `i`
is the first character: not in front of what would continue it. The operators
`++`, `--` and a single `!` begin an operand and so do not continue. -/
def startsStatement (s : Source) (d : Dialect) (afterOperand : Bool) (i : Nat) : Bool :=
  match s.peek i with
  | '\x60' | ',' | ':' | ';' | '*' | '%' | '>' | '<' | '=' | '?' | '^' | '|' | '&' | '/' =>
    false
  | '[' | '(' => d.isTyped && !afterOperand
  | '.' => !d.isTyped && isAsciiDigit (s.peek (i + 1))
  | '+' => s.peek (i + 1) = '+'
  | '-' => s.peek (i + 1) = '-'
  | '!' => s.peek (i + 1) ≠ '='
  | 'i' => !s.atRelationWord i
  | _ => true

/-- Behind a line break. -/
def endsBefore (s : Source) (d : Dialect) (afterOperand : Bool) (i : Nat) : Bool :=
  match s.skipComments? i with
  | some j => s.startsStatement d afterOperand j
  | none => false

/-- In front of a closing brace a statement ends, but in a typed text a brace
with a colon behind it closes a pattern or an object of a conditional. -/
def endsAtBrace (s : Source) (d : Dialect) (afterOperand : Bool) (i : Nat) : Bool :=
  !d.isTyped || s.peek (s.skipWhile isAsciiBlank (i + 1)) ≠ ':' || afterOperand

/-- Whether a comment holds a statement break. -/
def breaksWithin (s : Source) (i stop : Nat) : Bool :=
  (s.chars.extract i stop).any isStatementBreak

/-- Whether a virtual semicolon stands exactly at `i`, in a typed text. -/
def typedSemicolonAt (s : Source) (d : Dialect) (afterOperand : Bool) (i : Nat) : Bool :=
  if i < s.size then
    let c := s.peek i
    if c = '\x7d' then s.endsAtBrace d afterOperand i
    else if c = '\n' then s.endsBefore d afterOperand (i + 1)
    else isAsciiBlank c && s.typedSemicolonAt d afterOperand (i + 1)
  else true
termination_by s.size - i

/-- Whether a virtual semicolon stands exactly at `i`, in a JavaScript text.
Comments are looked through: behind a statement that is complete without an
operand a comment that breaks the line is enough, unless a comma or an equals
sign follows. -/
def plainSemicolonAt (s : Source) (afterOperand : Bool) (i : Nat) : Bool :=
  if i < s.size then
    let c := s.peek i
    if c = '/' then
      match _ : s.commentEnd? i with
      | none => false
      | some j =>
        if s.peek (i + 1) = '/' || s.peek j = '/' then
          -- a line comment, or comments in a row: go on to the next token
          match s.skipComments? j with
          | none => false
          | some k =>
            if !afterOperand && s.peek k ≠ ',' && s.peek k ≠ '=' then true
            else s.peek k = '\x7d'
        else if !afterOperand && s.breaksWithin i j && s.peek j ≠ ',' && s.peek j ≠ '=' then true
        else s.plainSemicolonAt afterOperand j
    else if c = '\x7d' then true
    else if isStatementBreak c then s.endsBefore .javascript afterOperand (i + 1)
    else isAsciiBlank c && s.plainSemicolonAt afterOperand (i + 1)
  else true
termination_by s.size - i
decreasing_by
  · have := lt_commentEnd ‹_›
    omega
  · omega

def semicolonAt (s : Source) (d : Dialect) (afterOperand : Bool) (i : Nat) : Bool :=
  if d.isTyped then s.typedSemicolonAt d afterOperand i
  else s.plainSemicolonAt afterOperand i

/-- The place of the virtual semicolon that ends a statement whose last token
ends at `i`: there, or behind the comments that follow. -/
def virtualSemicolon? (s : Source) (d : Dialect) (afterOperand : Bool) (i : Nat) : Option Nat :=
  if s.semicolonAt d afterOperand i then some i
  else
    let j := s.skipWhile isBlank i
    match _ : s.commentEnd? j with
    | some k => if k ≤ s.size then s.virtualSemicolon? d afterOperand k else none
    | none => none
termination_by s.size + 1 - i
decreasing_by
  have := s.le_skipWhile isBlank i
  have := lt_commentEnd ‹_›
  omega

end Source

end CodeSurvey
