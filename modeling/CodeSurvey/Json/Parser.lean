import CodeSurvey.Json.Value

/-!
# Reading JSON

A reader of JSON texts that says what is wrong and where: `JsonFault` lists
what can be wrong, a fault stands at a line and a column of bytes. The place of
a fault is the last byte that was taken, or the byte behind it when the fault
was seen by looking ahead.

Containers nest at most `nestingLimit` deep. The reader is a recursion on the
depth that is left, and within a container a loop over the rest of the text.
-/

namespace CodeSurvey

/-- What can be wrong with a JSON text. -/
inductive JsonFault where
  | endInList
  | endInObject
  | endInString
  | endInValue
  | expectedColon
  | expectedListCommaOrEnd
  | expectedObjectCommaOrEnd
  | expectedWord
  | expectedValue
  | invalidEscape
  | invalidNumber
  | numberOutOfRange
  | controlCharacter
  | keyNotString
  | loneSurrogate
  | endOfHexEscape
  | trailingComma
  | trailingCharacters
  | nestedTooDeeply
  deriving DecidableEq, Repr

namespace JsonFault

def message : JsonFault → String
  | endInList => "EOF while parsing a list"
  | endInObject => "EOF while parsing an object"
  | endInString => "EOF while parsing a string"
  | endInValue => "EOF while parsing a value"
  | expectedColon => "expected `:`"
  | expectedListCommaOrEnd => "expected `,` or `]`"
  | expectedObjectCommaOrEnd => "expected `,` or `\x7d`"
  | expectedWord => "expected ident"
  | expectedValue => "expected value"
  | invalidEscape => "invalid escape"
  | invalidNumber => "invalid number"
  | numberOutOfRange => "number out of range"
  | controlCharacter => "control character (\\u0000-\\u001F) found while parsing a string"
  | keyNotString => "key must be a string"
  | loneSurrogate => "lone leading surrogate in hex escape"
  | endOfHexEscape => "unexpected end of hex escape"
  | trailingComma => "trailing comma"
  | trailingCharacters => "trailing characters"
  | nestedTooDeeply => "recursion limit exceeded"

end JsonFault

structure JsonError where
  fault : JsonFault
  line : Nat
  column : Nat
  deriving DecidableEq, Repr

def JsonError.message (e : JsonError) : String :=
  e.fault.message ++ " at line " ++ toString e.line ++ " column " ++ toString e.column

/-- A place in a JSON text: what is left of it, and how far it has been read. -/
structure JsonText where
  rest : List Char
  line : Nat
  column : Nat

namespace JsonText

def ofString (s : String) : JsonText := ⟨s.toList, 1, 0⟩

/-- The place behind the character `c`. -/
def behind (t : JsonText) (c : Char) (rest : List Char) : JsonText :=
  if c = '\n' then ⟨rest, t.line + 1, 0⟩ else ⟨rest, t.line, t.column + c.utf8Size⟩

/-- The place behind the next character. -/
def advance (t : JsonText) : JsonText :=
  match t.rest with
  | [] => t
  | c :: rest => t.behind c rest

/-- A fault in the last byte that was read. -/
def fault (t : JsonText) (f : JsonFault) : JsonError := ⟨f, t.line, t.column⟩

/-- A fault in the next byte. -/
def faultAhead (t : JsonText) (f : JsonFault) : JsonError :=
  match t.rest with
  | [] => ⟨f, t.line, t.column⟩
  | '\n' :: _ => ⟨f, t.line + 1, 0⟩
  | _ => ⟨f, t.line, t.column + 1⟩

def isBlank (c : Char) : Bool := c = ' ' || c = '\n' || c = '\t' || c = '\r'

def skipFrom (t : JsonText) : List Char → JsonText
  | [] => { t with rest := [] }
  | c :: rest => if isBlank c then (t.behind c rest).skipFrom rest else { t with rest := c :: rest }

/-- The place of the next character that is not blank. -/
def skipBlanks (t : JsonText) : JsonText := t.skipFrom t.rest

/-! ## Words and strings -/

/-- Read the rest of a word of which the first letter has been read. -/
def word (value : Json) : List Char → JsonText → Except JsonError (Json × JsonText)
  | [], t => .ok (value, t)
  | c :: cs, t =>
    match t.rest with
    | [] => .error (t.fault .endInValue)
    | d :: _ => if c = d then word value cs t.advance else .error (t.faultAhead .expectedWord)

def hexValue? (c : Char) : Option Nat :=
  if '0' ≤ c ∧ c ≤ '9' then some (c.toNat - '0'.toNat)
  else if 'a' ≤ c ∧ c ≤ 'f' then some (c.toNat - 'a'.toNat + 10)
  else if 'A' ≤ c ∧ c ≤ 'F' then some (c.toNat - 'A'.toNat + 10)
  else none

/-- Read four hexadecimal digits. The place moves by four bytes also if they
are something else. -/
def hexEscape (t : JsonText) : Except JsonError (Nat × JsonText) :=
  match t.rest with
  | a :: b :: c :: d :: rest =>
    match hexValue? a, hexValue? b, hexValue? c, hexValue? d with
    | some a', some b', some c', some d' =>
      .ok (((a' * 16 + b') * 16 + c') * 16 + d', ⟨rest, t.line, t.column + 4⟩)
    | _, _, _, _ => .error (shifted 4)
  | _ =>
    if t.rest.foldl (fun n c => n + c.utf8Size) 0 < 4 then
      .error ((t.rest.foldl (fun t c => t.behind c []) t).fault .endInString)
    else .error (shifted 4)
where
  /-- The fault of a digit that is none, behind `n` bytes. -/
  shifted (n : Nat) : JsonError :=
    let rec go (t : JsonText) : Nat → List Char → JsonText
      | 0, _ => t
      | _, [] => t
      | n + 1, c :: rest =>
        if c.utf8Size ≤ n + 1 then go (t.behind c rest) (n + 1 - c.utf8Size) rest
        else { t with column := t.column + n + 1 }
    (go t n t.rest).fault .invalidEscape

/-- Read a backslash that begins the second half of a surrogate pair, or the
letter behind it. -/
def expectInPair (c : Char) (t : JsonText) : Except JsonError JsonText :=
  match t.rest with
  | [] => .error (t.fault .endInString)
  | d :: _ =>
    if c = d then .ok t.advance
    else .error (t.faultAhead .endOfHexEscape)

/-- Read the digits of a code point escape, and the second escape of a pair. -/
def unicodeEscape (t : JsonText) : Except JsonError (Char × JsonText) := do
  let (high, t) ← t.hexEscape
  if 0xDC00 ≤ high ∧ high ≤ 0xDFFF then throw (t.fault .loneSurrogate)
  if high < 0xD800 ∨ 0xDBFF < high then return (Char.ofNat high, t)
  let t ← expectInPair '\\' t
  let t ← expectInPair 'u' t
  let (low, t) ← t.hexEscape
  if low < 0xDC00 ∨ 0xDFFF < low then throw (t.fault .loneSurrogate)
  return (Char.ofNat ((high - 0xD800) * 1024 + (low - 0xDC00) + 0x10000), t)

/-- Read an escape of which the backslash has been read. -/
def escape (t : JsonText) : Except JsonError (Char × JsonText) :=
  match t.rest with
  | [] => .error (t.fault .endInString)
  | c :: _ =>
    let next := t.advance
    match c with
    | '\x22' | '\\' | '/' => .ok (c, next)
    | 'b' => .ok ('\x08', next)
    | 'f' => .ok ('\x0c', next)
    | 'n' => .ok ('\n', next)
    | 'r' => .ok ('\r', next)
    | 't' => .ok ('\t', next)
    | 'u' => next.unicodeEscape
    | _ => .error (t.faultAhead .invalidEscape)

/-- Read the rest of a string whose opening quote has been read; `read` holds
its characters so far in reverse. -/
def stringTail : Nat → List Char → JsonText → Except JsonError (String × JsonText)
  | 0, _, t => .error (t.fault .endInString)
  | fuel + 1, read, t =>
    match t.rest with
    | [] => .error (t.fault .endInString)
    | c :: _ =>
      if c = '\x22' then .ok (String.ofList read.reverse, t.advance)
      else if c = '\\' then do
        let (d, t) ← t.advance.escape
        stringTail fuel (d :: read) t
      else if c.toNat < 32 then .error (t.advance.fault .controlCharacter)
      else stringTail fuel (c :: read) t.advance

/-- Read a string from its opening quote. -/
def string (t : JsonText) : Except JsonError (String × JsonText) :=
  stringTail (t.rest.length + 1) [] t.advance

/-! ## Numbers -/

def maxSignificand : Nat := 18446744073709551615

def digit? (t : JsonText) : Option Nat :=
  match t.rest with
  | c :: _ => if '0' ≤ c ∧ c ≤ '9' then some (c.toNat - '0'.toNat) else none
  | [] => none

/-- The place behind the digits that follow, and their count. -/
def skipDigits (t : JsonText) : JsonText × Nat :=
  let n := (t.rest.takeWhile fun c => '0' ≤ c && c ≤ '9').length
  (⟨t.rest.drop n, t.line, t.column + n⟩, n)

/-- Read digits behind `significand` for as long as it stays within its bound;
answers the number of digits read as well. -/
def significandTail : List Char → Nat → Nat → Nat × Nat
  | c :: rest, significand, count =>
    if '0' ≤ c ∧ c ≤ '9' then
      let next := significand * 10 + (c.toNat - '0'.toNat)
      if maxSignificand < next then (significand, count)
      else significandTail rest next (count + 1)
    else (significand, count)
  | [], significand, count => (significand, count)

/-- `significand · 10 ^ exponent`, worked out as a person with a table of the
powers of ten up to 10³⁰⁸ would: every step is rounded. -/
def scaled? (negative : Bool) (significand : Nat) (exponent : Int) : Option Double := do
  let power (e : Nat) : Option Double := Double.ofNat? (Nat.pow 10 e)
  let rec go : Nat → Double → Int → Option Double
    | 0, x, _ => some x
    | fuel + 1, x, e =>
      if e.natAbs ≤ 308 then do
        let p ← power e.natAbs
        if 0 ≤ e then x.mul? p else x.div? p
      else if x.mantissa = 0 then some x
      else if 0 ≤ e then none
      else do go fuel (← x.div? (← power 308)) (e + 308)
  let x ← go 8 (← Double.ofNat? significand) exponent
  return { x with negative := negative }

/-- The number that has been read up to `t`. -/
def fraction (negative : Bool) (significand : Nat) (exponent : Int) (t : JsonText) :
    Except JsonError (Json × JsonText) :=
  match scaled? negative significand exponent with
  | some x => .ok (.fraction x, t)
  | none => .error (t.fault .numberOutOfRange)

/-- The sign of an exponent, and the place behind it. -/
def exponentSign (t : JsonText) : Bool × JsonText :=
  match t.rest with
  | '+' :: _ => (false, t.advance)
  | '-' :: _ => (true, t.advance)
  | _ => (false, t)

/-- The number that the digits of an exponent stand for, and their count. An
exponent beyond 31 bits is not read to its end if it is too large. -/
def exponentValue? : List Char → Nat → Nat → Option (Nat × Nat)
  | [], e, n => some (e, n)
  | c :: rest, e, n =>
    let next := e * 10 + (c.toNat - '0'.toNat)
    if 2147483647 < next then none else exponentValue? rest next (n + 1)

/-- How many digits are read before an exponent leaves its bound. -/
def digitsWithin : List Char → Nat → Nat → Nat
  | [], _, n => n
  | c :: rest, e, n =>
    let next := e * 10 + (c.toNat - '0'.toNat)
    if 2147483647 < next then n else digitsWithin rest next (n + 1)

/-- Read the digits of an exponent. -/
def exponentDigits (negative : Bool) (significand : Nat) (start : Int) (isNegative : Bool)
    (t : JsonText) : Except JsonError (Json × JsonText) :=
  let digits := t.rest.takeWhile fun c => '0' ≤ c && c ≤ '9'
  match exponentValue? digits 0 0 with
  | some (e, n) =>
    fraction negative significand (if isNegative then start - e else start + e)
      ⟨t.rest.drop n, t.line, t.column + n⟩
  | none =>
    if significand ≠ 0 ∧ !isNegative then
      let n := (digitsWithin digits 0 0) + 1
      .error (JsonText.fault ⟨[], t.line, t.column + n⟩ .numberOutOfRange)
    else .ok (.fraction { Double.zero with negative := negative }, t.skipDigits.1)

/-- Read an exponent from its letter on. It has at least one digit. -/
def exponent (negative : Bool) (significand : Nat) (start : Int) (t : JsonText) :
    Except JsonError (Json × JsonText) :=
  let (isNegative, t) := t.advance.exponentSign
  match t.digit? with
  | some _ => exponentDigits negative significand start isNegative t
  | none =>
    .error (if t.rest.isEmpty then t.fault .endInValue else t.faultAhead .invalidNumber)

/-- Read what follows the digits of a number: an exponent or nothing. -/
def exponentOrEnd (negative : Bool) (significand : Nat) (e : Int) (t : JsonText) :
    Except JsonError (Json × JsonText) :=
  match t.rest with
  | 'e' :: _ | 'E' :: _ => exponent negative significand e t
  | _ => fraction negative significand e t

/-- Read a fraction from its point on. Digits that do not fit are left out. -/
def decimals (negative : Bool) (significand : Nat) (start : Int) (t : JsonText) :
    Except JsonError (Json × JsonText) :=
  let t := t.advance
  let (full, count) := significandTail t.rest significand 0
  let t : JsonText := ⟨t.rest.drop count, t.line, t.column + count⟩
  match t.digit? with
  | some _ => exponentOrEnd negative full (start - count) t.skipDigits.1
  | none =>
    if count = 0 then
      match t.rest with
      | [] => .error (t.faultAhead .endInValue)
      | _ => .error (t.faultAhead .invalidNumber)
    else exponentOrEnd negative full (start - count) t

/-- Read what follows the whole part of a number that fits 64 bits. -/
def numberTail (negative : Bool) (significand : Nat) (t : JsonText) :
    Except JsonError (Json × JsonText) :=
  match t.rest with
  | '.' :: _ => decimals negative significand 0 t
  | 'e' :: _ | 'E' :: _ => exponent negative significand 0 t
  | _ =>
    if !negative then .ok (.integer significand, t)
    else if significand = 0 ∨ -(significand : Int) < Json.minInteger then
      fraction true significand 0 t
    else .ok (.integer (-significand), t)

/-- Read a number behind its sign. -/
def number (negative : Bool) (t : JsonText) : Except JsonError (Json × JsonText) :=
  match t.rest with
  | [] => .error (t.fault .endInValue)
  | _ =>
    match t.digit? with
    | none => .error (t.faultAhead .invalidNumber)
    | some 0 =>
      let t := t.advance
      match t.digit? with
      | some _ => .error (t.faultAhead .invalidNumber)
      | none => numberTail negative 0 t
    | some _ =>
      let (significand, count) := significandTail t.rest 0 0
      let t : JsonText := ⟨t.rest.drop count, t.line, t.column + count⟩
      match t.digit? with
      | none => numberTail negative significand t
      | some _ =>
        let (t, left) := t.skipDigits
        match t.rest with
        | '.' :: _ => decimals negative significand left t
        | _ => exponentOrEnd negative significand left t

/-! ## Values -/

/-- Read the entries of a list up to its bracket; `item` reads an entry. -/
def items (item : JsonText → Except JsonError (Json × JsonText)) :
    Nat → Bool → List Json → JsonText → Except JsonError (Json × JsonText)
  | 0, _, _, t => .error (t.fault .endInList)
  | fuel + 1, isFirst, read, t =>
    let t := t.skipBlanks
    match t.rest with
    | [] => .error (t.faultAhead .endInList)
    | ']' :: _ => .ok (.array read.reverse, t.advance)
    | c :: _ =>
      if isFirst then do
        let (v, t) ← item t
        items item fuel false (v :: read) t
      else if c = ',' then
        let t := t.advance.skipBlanks
        match t.rest with
        | [] => .error (t.faultAhead .endInValue)
        | ']' :: _ => .error (t.faultAhead .trailingComma)
        | _ => do
          let (v, t) ← item t
          items item fuel false (v :: read) t
      else .error (t.faultAhead .expectedListCommaOrEnd)

/-- Read a pair from its key on. -/
def pair (item : JsonText → Except JsonError (Json × JsonText)) (t : JsonText) :
    Except JsonError ((String × Json) × JsonText) := do
  let (key, t) ← t.string
  let t := t.skipBlanks
  match t.rest with
  | [] => .error (t.faultAhead .endInObject)
  | ':' :: _ =>
    let (v, t) ← item t.advance
    return ((key, v), t)
  | _ => .error (t.faultAhead .expectedColon)

/-- Read the pairs of an object up to its brace. The last of several pairs with
one key counts. -/
def pairs (item : JsonText → Except JsonError (Json × JsonText)) :
    Nat → Bool → List (String × Json) → JsonText → Except JsonError (Json × JsonText)
  | 0, _, _, t => .error (t.fault .endInObject)
  | fuel + 1, isFirst, read, t =>
    let t := t.skipBlanks
    match t.rest with
    | [] => .error (t.faultAhead .endInObject)
    | '\x7d' :: _ => .ok (.object read, t.advance)
    | c :: _ =>
      if isFirst then
        if c = '\x22' then do
          let ((key, v), t) ← pair item t
          pairs item fuel false (insertSorted key v read) t
        else .error (t.faultAhead .keyNotString)
      else if c = ',' then
        let t := t.advance.skipBlanks
        match t.rest with
        | [] => .error (t.faultAhead .endInValue)
        | '\x22' :: _ => do
          let ((key, v), t) ← pair item t
          pairs item fuel false (insertSorted key v read) t
        | '\x7d' :: _ => .error (t.faultAhead .trailingComma)
        | _ => .error (t.faultAhead .keyNotString)
      else .error (t.faultAhead .expectedObjectCommaOrEnd)

/-- Read a value; fewer than `depth` containers may nest in it. -/
def value : Nat → JsonText → Except JsonError (Json × JsonText)
  | depth, t =>
    let t := t.skipBlanks
    match t.rest with
    | [] => .error (t.faultAhead .endInValue)
    | 'n' :: _ => word .null ['u', 'l', 'l'] t.advance
    | 't' :: _ => word (.bool true) ['r', 'u', 'e'] t.advance
    | 'f' :: _ => word (.bool false) ['a', 'l', 's', 'e'] t.advance
    | '-' :: _ => number true t.advance
    | '\x22' :: _ => do
      let (s, t) ← t.string
      return (.string s, t)
    | '[' :: _ =>
      match depth with
      | n + 1 => items (value n) (t.rest.length + 1) true [] t.advance
      | 0 => .error (t.faultAhead .nestedTooDeeply)
    | '\x7b' :: _ =>
      match depth with
      | n + 1 => pairs (value n) (t.rest.length + 1) true [] t.advance
      | 0 => .error (t.faultAhead .nestedTooDeeply)
    | c :: _ =>
      if '0' ≤ c ∧ c ≤ '9' then number false t else .error (t.faultAhead .expectedValue)

end JsonText

namespace Json

/-- One container less than this may nest in another. -/
def nestingLimit : Nat := 128

/-- The value of a text that holds one value and blanks around it. -/
def parse (s : String) : Except JsonError Json := do
  let (v, t) ← JsonText.value (nestingLimit - 1) (.ofString s)
  let t := t.skipBlanks
  match t.rest with
  | [] => return v
  | _ => .error (t.faultAhead .trailingCharacters)

end Json

end CodeSurvey
