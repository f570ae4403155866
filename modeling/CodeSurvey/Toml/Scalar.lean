import CodeSurvey.Decimal.Double
import CodeSurvey.Toml.Value

/-!
# Numbers, dates and truth values in TOML

The values that are written without delimiters. Each class is a function on
the characters between two delimiters, which answers nothing for all others.
-/

namespace CodeSurvey.TomlScalar

def isDigit (c : Char) : Bool := '0' ≤ c && c ≤ '9'

def digitValue? (base : Nat) (c : Char) : Option Nat :=
  let value? : Option Nat :=
    if isDigit c then some (c.toNat - '0'.toNat)
    else if 'a' ≤ c ∧ c ≤ 'f' then some (c.toNat - 'a'.toNat + 10)
    else if 'A' ≤ c ∧ c ≤ 'F' then some (c.toNat - 'A'.toNat + 10)
    else none
  value?.filter (· < base)

/-- The value of digits behind `n`. An underscore stands between two digits. -/
def digitsFrom? (base n : Nat) : List Char → Option Nat
  | [] => some n
  | ['_'] => none
  | '_' :: c :: cs => do digitsFrom? base (n * base + (← digitValue? base c)) cs
  | c :: cs => do digitsFrom? base (n * base + (← digitValue? base c)) cs

/-- The value of one or more digits. -/
def digits? (base : Nat) : List Char → Option Nat
  | [] => none
  | c :: cs => do digitsFrom? base (← digitValue? base c) cs

/-- The value of decimal digits of which the first is no idle zero. -/
def decimal? : List Char → Option Nat
  | '0' :: _ :: _ => none
  | cs => digits? 10 cs

/-- A text behind its sign, and whether the sign is a minus. -/
def sign : List Char → Bool × List Char
  | '+' :: cs => (false, cs)
  | '-' :: cs => (true, cs)
  | cs => (false, cs)

/-- The largest and the smallest integer that is kept. -/
def fits (i : Int) : Bool := -(Nat.pow 2 127 : Int) ≤ i && i < Nat.pow 2 128

def integer? (cs : List Char) : Option Int :=
  let value? : Option Int :=
    match cs with
    | '0' :: 'x' :: cs => (digits? 16 cs).map Int.ofNat
    | '0' :: 'o' :: cs => (digits? 8 cs).map Int.ofNat
    | '0' :: 'b' :: cs => (digits? 2 cs).map Int.ofNat
    | cs =>
      let (isNegative, cs) := sign cs
      (decimal? cs).map fun n => if isNegative then -(n : Int) else n
  value?.filter fits

/-- Whether `digits · 10 ^ exponent` rounds to a finite number. Far from the
limit the count of digits decides, so that no large power is worked out. -/
def isFinite (digits : Nat) (exponent : Int) : Bool :=
  let size : Int := (Nat.toDigits 10 digits).length + exponent
  if digits = 0 ∨ size < 300 then true
  else if 320 < size then false
  else
    let (n, d) := Double.scale 10 digits 1 exponent
    (Double.ofRatio? false n d).isSome

/-- A fraction: a whole part, then a point with digits or an exponent or both. -/
def isFloat (cs : List Char) : Bool :=
  let (_, cs) := sign cs
  if cs = ['i', 'n', 'f'] ∨ cs = ['n', 'a', 'n'] then true
  else
    let isExponentMark (c : Char) : Bool := c = 'e' || c = 'E'
    let mantissa := cs.takeWhile fun c => !isExponentMark c
    let exponent := cs.dropWhile fun c => !isExponentMark c
    let whole := mantissa.takeWhile (· != '.')
    let behind := mantissa.dropWhile (· != '.')
    let decimals? := match behind with
      | [] => some ([] : List Char)
      | _ :: ds => (digits? 10 ds).map fun _ => ds.filter isDigit
    let exponent? : Option Int := match exponent with
      | [] => some 0
      | _ :: es =>
        let (isNegative, es) := sign es
        (digits? 10 es).map fun n => if isNegative then -(n : Int) else n
    match decimal? whole, decimals?, exponent? with
    | some _, some decimals, some e =>
      !(behind.isEmpty && exponent.isEmpty)
        && ((digits? 10 (whole ++ decimals)).map (isFinite · (e - decimals.length))).getD false
    | _, _, _ => false

/-! ## Dates and times -/

/-- The value of exactly `count` digits, and what follows them. -/
def fixed? (count : Nat) (cs : List Char) : Option (Nat × List Char) :=
  let digits := cs.take count
  if digits.length = count ∧ digits.all isDigit then
    (digits? 10 digits).map fun n => (n, cs.drop count)
  else none

def isLeapYear (y : Nat) : Bool := (y % 4 = 0 && y % 100 ≠ 0) || y % 400 = 0

def daysOfMonth (year month : Nat) : Nat :=
  if month = 2 then (if isLeapYear year then 29 else 28)
  else if month = 4 ∨ month = 6 ∨ month = 9 ∨ month = 11 then 30
  else 31

/-- What follows a date. -/
def behindDate? (cs : List Char) : Option (List Char) :=
  match fixed? 4 cs with
  | some (year, '-' :: cs) =>
    match fixed? 2 cs with
    | some (month, '-' :: cs) =>
      match fixed? 2 cs with
      | some (day, cs) =>
        if 1 ≤ month ∧ month ≤ 12 ∧ 1 ≤ day ∧ day ≤ daysOfMonth year month then some cs else none
      | none => none
    | _ => none
  | _ => none

/-- What follows a point and its digits, or all if there is no point. -/
def behindDecimals? : List Char → Option (List Char)
  | '.' :: cs => if (cs.takeWhile isDigit).isEmpty then none else some (cs.dropWhile isDigit)
  | cs => some cs

/-- What follows a time of day. Seconds may be left out, and a minute may have
61 of them. -/
def behindTime? (cs : List Char) : Option (List Char) :=
  match fixed? 2 cs with
  | some (hour, ':' :: cs) =>
    match fixed? 2 cs with
    | some (minute, cs) =>
      if hour ≤ 23 ∧ minute ≤ 59 then
        match cs with
        | ':' :: cs =>
          match fixed? 2 cs with
          | some (second, cs) => if second ≤ 60 then behindDecimals? cs else none
          | none => none
        | cs => some cs
      else none
    | none => none
  | _ => none

/-- Whether a text is empty or the distance from Greenwich time. -/
def isOffset : List Char → Bool
  | [] | ['Z'] | ['z'] => true
  | c :: cs =>
    (c == '+' || c == '-') &&
      match fixed? 2 cs with
      | some (hour, ':' :: cs) =>
        match fixed? 2 cs with
        | some (minute, []) => hour ≤ 23 && minute ≤ 59
        | _ => false
      | _ => false

/-- A date, a time, or a date with a time and perhaps an offset. -/
def isDatetime (cs : List Char) : Bool :=
  match behindDate? cs with
  | some [] => true
  | some (c :: cs) =>
    (c == 'T' || c == 't' || c == ' ') && ((behindTime? cs).map isOffset).getD false
  | none => behindTime? cs == some []

/-! ## Values -/

/-- The value that a text without delimiters stands for. -/
def value? (cs : List Char) : Option Toml :=
  if cs = ['t', 'r', 'u', 'e'] then some (.boolean true)
  else if cs = ['f', 'a', 'l', 's', 'e'] then some (.boolean false)
  else
    match integer? cs with
    | some i => some (.integer i)
    | none =>
      if isFloat cs then some (.float (String.ofList (cs.filter (· != '_'))))
      else if isDatetime cs then some (.datetime (String.ofList cs))
      else none

/-- The characters that end a value without delimiters. -/
def isEnd (c : Char) : Bool :=
  [' ', '\t', '\r', '\n', ',', ']', '\x7d', '#', '=', '[', '\x7b'].contains c

/-- The characters of a value without delimiters, and the rest. A blank belongs
to it between a date and the digits of a time. -/
def take (cs : List Char) : List Char × List Char :=
  let first := cs.takeWhile fun c => !isEnd c
  let rest := cs.drop first.length
  match rest with
  | ' ' :: c :: _ =>
    if behindDate? first = some [] ∧ isDigit c then
      let time := rest.tail.takeWhile fun c => !isEnd c
      (first ++ ' ' :: time, rest.tail.drop time.length)
    else (first, rest)
  | _ => (first, rest)

end CodeSurvey.TomlScalar
