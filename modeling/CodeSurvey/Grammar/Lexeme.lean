import CodeSurvey.Grammar.Semicolon

/-!
# Lexemes

The shapes of single tokens: words, numbers, strings, regular expressions,
template pieces, markup text and operators. Each scanner is given the offset
at which the token would begin and answers the offset behind it.

Which of these shapes is tried is up to the grammar. There is no separate
pass that cuts the text into tokens, because the same characters are a
different token in a different place: `/` begins a regular expression where an
operand is due, and any keyword is a name where no keyword is due.
-/

namespace CodeSurvey

/-! ## Character classes -/

/-- Whether `c` can stand inside a word: everything but blanks, controls and
ASCII punctuation, so letters of all scripts and emoji alike. -/
def isWordChar (c : Char) : Bool :=
  if c.toNat < 128 then isAsciiLetter c || isAsciiDigit c || c = '_' || c = '$' || c.toNat = 127
  else !isBlank c

def isWordStart (c : Char) : Bool := isWordChar c && !isAsciiDigit c

def isHexDigit (c : Char) : Bool :=
  isAsciiDigit c || ('a' ≤ c && c ≤ 'f') || ('A' ≤ c && c ≤ 'F')

def isOctalDigit (c : Char) : Bool := '0' ≤ c && c ≤ '7'

def isBinaryDigit (c : Char) : Bool := c = '0' || c = '1'

namespace Source

/-! ## Words -/

/-- The end of the code point escape at `i`: four hexadecimal digits, or any
number of them in braces. -/
def unicodeEscapeEnd? (s : Source) (i : Nat) : Option Nat :=
  if s.peek i = '\\' && s.peek (i + 1) = 'u' then
    if s.peek (i + 2) = '\x7b' then
      let j := s.skipWhile isHexDigit (i + 3)
      if i + 3 < j && s.peek j = '\x7d' then some (j + 1) else none
    else if (List.range 4).all fun k => isHexDigit (s.peek (i + 2 + k)) then some (i + 6)
    else none
  else none

/-- The end of the longest run of word characters and escapes at `i`. -/
def wordTailEnd (s : Source) (i : Nat) : Nat :=
  if i < s.size then
    if isWordChar (s.peek i) then s.wordTailEnd (i + 1)
    else
      match s.unicodeEscapeEnd? i with
      | some j => if i < j then s.wordTailEnd j else i
      | none => i
  else i
termination_by s.size - i

/-- The end of the word at `i`; a word does not begin with a digit. -/
def wordEnd? (s : Source) (i : Nat) : Option Nat :=
  if i < s.size then
    if isWordStart (s.peek i) then some (s.wordTailEnd (i + 1))
    else (s.unicodeEscapeEnd? i).map s.wordTailEnd
  else none

/-- Whether the whole word at `i` is `word`, written without escapes. -/
def atWord (s : Source) (word : List Char) (i : Nat) : Bool :=
  s.startsWith word i && s.wordEnd? i == some (i + word.length)

/-! ## Numbers -/

/-- The end of a run of digits in which single underscores may stand between
two digits; `none` if there is no digit at `i`. -/
def digitsEnd? (s : Source) (isDigit : Char → Bool) (i : Nat) : Option Nat :=
  if i < s.size && isDigit (s.peek i) then
    let next := if s.peek (i + 1) = '_' then i + 2 else i + 1
    match s.digitsEnd? isDigit next with
    | some j => some j
    | none => some (i + 1)
  else none
termination_by s.size - i
decreasing_by
  rename_i h
  have : i < s.size := by simpa using (Bool.and_eq_true_iff.mp h).1
  split <;> omega

/-- The end of an exponent at `i`. -/
def exponentEnd? (s : Source) (i : Nat) : Option Nat :=
  if s.peek i = 'e' || s.peek i = 'E' then
    let j := if s.peek (i + 1) = '+' || s.peek (i + 1) = '-' then i + 2 else i + 1
    s.digitsEnd? isAsciiDigit j
  else none

/-- The end of a decimal integer that may be followed by a point: zero, or
digits of which the first or the second is not zero. -/
def integerEnd? (s : Source) (i : Nat) : Option Nat :=
  let isNonZero (c : Char) := isAsciiDigit c && c ≠ '0'
  if isNonZero (s.peek i) then s.digitsEnd? isAsciiDigit i
  else if s.peek i = '0' then
    if isNonZero (s.peek (i + 1)) then s.digitsEnd? isAsciiDigit (i + 1) else some (i + 1)
  else none

/-- The ends of the number shapes that match at `i`, in no order. -/
def numberEnds (s : Source) (i : Nat) : List Nat :=
  let based (lower upper : Char) (isDigit : Char → Bool) : List Nat :=
    if s.peek i = '0' && (s.peek (i + 1) = lower || s.peek (i + 1) = upper) then
      (s.digitsEnd? isDigit (i + 2)).toList
    else []
  let digits := (s.digitsEnd? isAsciiDigit i).toList
  let integers :=
    based 'x' 'X' isHexDigit ++ based 'b' 'B' isBinaryDigit ++ based 'o' 'O' isOctalDigit ++ digits
  let withExponent (j : Nat) : List Nat := j :: (s.exponentEnd? j).toList
  let pointed :=
    match s.integerEnd? i with
    | none => []
    | some j =>
      (s.exponentEnd? j).toList ++
        if s.peek j = '.' then withExponent ((s.digitsEnd? isAsciiDigit (j + 1)).getD (j + 1))
        else []
  let fraction :=
    if s.peek i = '.' then
      match s.digitsEnd? isAsciiDigit (i + 1) with
      | some j => withExponent j
      | none => []
    else []
  integers ++ (integers.filter fun j => s.peek j = 'n').map (· + 1) ++ pointed ++ fraction

/-- The end of the longest number at `i`. -/
def numberEnd? (s : Source) (i : Nat) : Option Nat := (s.numberEnds i).max?

/-! ## Strings, templates and regular expressions -/

/-- The end of the escape at `i`. A backslash stands in front of any
character, but `\x` and `\u` need their digits. -/
def escapeEnd? (s : Source) (i : Nat) : Option Nat :=
  if s.peek i = '\\' && i + 1 < s.size then
    let c := s.peek (i + 1)
    if c = 'u' then s.unicodeEscapeEnd? i
    else if c = 'x' then
      if isHexDigit (s.peek (i + 2)) && isHexDigit (s.peek (i + 3)) then some (i + 4) else none
    else if isOctalDigit c then
      let digits := ([2, 3].takeWhile fun k => isOctalDigit (s.peek (i + k))).length
      some (i + 2 + digits)
    else if c = '\r' && isStatementBreak (s.peek (i + 2)) then some (i + 3)
    else some (i + 2)
  else none

/-- The end of the string whose inside continues at `i`. A line break ends no
string, unless a backslash stands in front of it. -/
def stringTailEnd? (s : Source) (quote : Char) (i : Nat) : Option Nat :=
  if i < s.size then
    let c := s.peek i
    if c = quote then some (i + 1)
    else if c = '\\' then
      match s.escapeEnd? i with
      | some j => if i < j then s.stringTailEnd? quote j else none
      | none => none
    else if c = '\n' || c = '\r' then none
    else s.stringTailEnd? quote (i + 1)
  else none
termination_by s.size - i

def stringEnd? (s : Source) (i : Nat) : Option Nat :=
  if s.peek i = '\x22' || s.peek i = '\x27' then s.stringTailEnd? (s.peek i) (i + 1) else none

/-- The end of the literal characters of a template at `i`: up to a
substitution, an escape or the closing quote. -/
def templateCharsEnd (s : Source) (i : Nat) : Nat :=
  if i < s.size then
    let c := s.peek i
    if c = '\x60' || c = '\\' || (c = '$' && s.peek (i + 1) = '\x7b') then i
    else s.templateCharsEnd (i + 1)
  else i
termination_by s.size - i

/-- The end of a regular expression's character class whose inside continues
at `i`. -/
def regexClassEnd? (s : Source) (i : Nat) : Option Nat :=
  if i < s.size then
    let c := s.peek i
    if c = ']' then some (i + 1)
    else if c = '\\' then
      if i + 1 < s.size && s.peek (i + 1) ≠ '\n' then s.regexClassEnd? (i + 2) else none
    else if c = '\n' then none
    else s.regexClassEnd? (i + 1)
  else none
termination_by s.size - i

/-- The offset of the slash that closes the regular expression whose inside
continues at `i`. -/
def regexPatternEnd? (s : Source) (i : Nat) : Option Nat :=
  if i < s.size then
    let c := s.peek i
    if c = '/' then some i
    else if c = '\\' then
      if i + 1 < s.size && s.peek (i + 1) ≠ '\n' then s.regexPatternEnd? (i + 2) else none
    else if c = '[' then
      match s.regexClassEnd? (i + 1) with
      | some j => if i < j then s.regexPatternEnd? j else none
      | none => none
    else if c = '\n' then none
    else s.regexPatternEnd? (i + 1)
  else none
termination_by s.size - i

/-- The end of the regular expression at `i`: a pattern of at least one
character between slashes, then flags in small letters. -/
def regexEnd? (s : Source) (i : Nat) : Option Nat :=
  if s.peek i = '/' then
    match s.regexPatternEnd? (i + 1) with
    | some j =>
      if j = i + 1 then none
      else some (s.skipWhile (fun c => 'a' ≤ c && c ≤ 'z') (j + 1))
    | none => none
  else none

/-! ## Markup -/

/-- The end of the markup text at `i`. Text that is a line break and the
indentation behind it does not count. -/
def markupTextEnd? (s : Source) (i : Nat) : Option Nat :=
  let stop := s.skipWhile (fun c => !(c = '<' || c = '>' || c = '\x7b' || c = '\x7d' || c = '&')) i
  let counts := (s.chars.extract i stop).foldl
    (fun (sawText, atBreak) c =>
      if c = '\n' then (sawText, true)
      else if atBreak && isAsciiBlank c then (sawText, true)
      else (true, false))
    (false, false)
  if counts.1 then some stop else none

/-- The end of the character reference at `i`, such as `&amp;` or `&#x1F600;`. -/
def characterReferenceEnd? (s : Source) (i : Nat) : Option Nat :=
  let closed (first limit : Nat) (p : Char → Bool) : Option Nat :=
    let j := s.skipWhile p first
    if first < j && j ≤ first + limit && s.peek j = ';' then some (j + 1) else none
  if s.peek i ≠ '&' then none
  else if s.peek (i + 1) = '#' then
    if s.peek (i + 2) = 'x' || s.peek (i + 2) = 'X' then closed (i + 3) 6 isHexDigit
    else closed (i + 2) 5 isAsciiDigit
  else closed (i + 1) 30 isAsciiLetter

/-- The end of the markup attribute string whose inside continues at `i`. It
has no escapes, and every ampersand in front of a letter or a number sign must
begin a character reference. -/
def markupStringTailEnd? (s : Source) (quote : Char) (i : Nat) : Option Nat :=
  if i < s.size then
    let c := s.peek i
    if c = quote then some (i + 1)
    else if c = '&' && (s.peek (i + 1) = '#' || isAsciiLetter (s.peek (i + 1))) then
      match s.characterReferenceEnd? i with
      | some j => if i < j then s.markupStringTailEnd? quote j else none
      | none => none
    else s.markupStringTailEnd? quote (i + 1)
  else none
termination_by s.size - i

def markupStringEnd? (s : Source) (i : Nat) : Option Nat :=
  if s.peek i = '\x22' || s.peek i = '\x27' then s.markupStringTailEnd? (s.peek i) (i + 1)
  else none

/-- The end of a markup name at `i`: a word, or ASCII letters, digits and
hyphens. -/
def markupNameEnd? (s : Source) (i : Nat) : Option Nat :=
  let isNameStart (c : Char) := isAsciiLetter c || c = '_' || c = '$'
  let isNameChar (c : Char) := isNameStart c || isAsciiDigit c
  let hyphened :=
    if isNameStart (s.peek i) then
      let j := s.skipWhile isNameChar i
      if s.peek j = '-' then [s.skipWhile (fun c => isNameChar c || c = '-') j] else []
    else []
  ((s.wordEnd? i).toList ++ hyphened).max?

/-! ## Operators -/

/-- All operators that can follow an operand, so that the longest one wins. -/
def operators : List String :=
  ["&&", "||", ">>", ">>>", "<<", "&", "^", "|", "+", "-", "*", "/", "%", "**", "<", "<=", "==",
    "===", "!=", "!==", ">=", ">", "??", "++", "--", "=", "+=", "-=", "*=", "/=", "%=", "^=", "&=",
    "|=", ">>=", ">>>=", "<<=", "**=", "&&=", "||=", "??=", "=>", "?.", "?", "!", "~", ".", "...",
    ":", ","]

def isOperatorChar (c : Char) : Bool :=
  match c with
  | '&' | '|' | '>' | '<' | '^' | '+' | '-' | '*' | '/' | '%' | '=' | '!' | '?' | '~' | '.' | ':'
  | ',' => true
  | _ => false

/-- The longest operator at `i`; none is longer than four characters. In front
of a digit `?.` is a question mark and the point of a number. -/
def operatorAt? (s : Source) (i : Nat) : Option String :=
  if isOperatorChar (s.peek i) then
    [4, 3, 2, 1].findSome? fun n =>
      let text := s.slice i (i + n)
      if operators.contains text && !(text == "?." && isAsciiDigit (s.peek (i + 2))) then some text
      else none
  else none

/-- Whether the question mark at `i` begins a conditional: it is not part of
`??`, a chain `?.` (but `?.5` is a question mark and a number), nor the mark of
an optional parameter. -/
def isConditionalMark (s : Source) (i : Nat) : Bool :=
  if s.peek i = '?' && s.peek (i + 1) ≠ '?' then
    let j := s.skipWhile isAsciiBlank (i + 1)
    let c := s.peek j
    if c = ':' || c = ')' || c = ',' then false
    else if c = '.' then isAsciiDigit (s.peek (j + 1))
    else true
  else false

end Source

end CodeSurvey
