import CodeSurvey.Decimal.Double

/-!
# Shortest decimals

The decimal text of a binary number: as few digits as determine the number
among all others, and of those decimals the nearest one. A decimal determines
the number if it lies in the interval of the reals that round to it; the ends
of that interval belong to it if the mantissa is even.

`Layout` holds what a format adds to the digits.
-/

namespace CodeSurvey

namespace Double

/-- Whether `10 ^ p` is at most `num / den`. -/
def powerAtMost (num den : Nat) (p : Int) : Bool :=
  let (n, d) := scale 10 1 1 p
  n * den ≤ num * d

/-- How many digits stand in front of the point of `num / den`, which is
positive; not above zero if the first digits behind the point are zeros. -/
def magnitude (num den : Nat) : Int :=
  let bits : Int := (num.log2 : Int) - den.log2
  let guess := (bits * 1233).fdiv 4096 - 1
  guess + (([0, 1, 2, 3] : List Nat).takeWhile fun (k : Nat) => powerAtMost num den (guess + k)).length

/-- The decimal `digits · 10 ^ exponent` nearest to a number among the two
neighbours of the number on the grid of that exponent, if one of them
determines the number. -/
def onGrid? (x : Double) (exponent : Int) : Option (Nat × Int) :=
  -- everything in quarters of the last bit, over one denominator
  let gap := if x.mantissa = Nat.pow 2 52 ∧ minExponent < x.exponent then 1 else 2
  let (unit, den) := scale 2 1 4 x.exponent
  let (unit, den) := scale 10 unit den (-exponent)
  let value := 4 * x.mantissa * unit
  let low := (4 * x.mantissa - gap) * unit
  let high := (4 * x.mantissa + 2) * unit
  let isClosed := x.mantissa % 2 = 0
  let determines (digits : Nat) : Bool :=
    let n := digits * den
    if isClosed then low ≤ n && n ≤ high else low < n && n < high
  let below := value / den
  let above := below + 1
  let nearest := roundDiv value den
  let other := if nearest = below then above else below
  if determines nearest then some (nearest, exponent)
  else if determines other then some (other, exponent)
  else none

/-- The digits of the shortest decimal, and the exponent of ten of the last
one. Seventeen digits always suffice. -/
def shortest (x : Double) : Nat × Int :=
  if x.mantissa = 0 then (0, 0)
  else
    let (num, den) := x.ratio
    let p := magnitude num den
    ((List.range 17).findSome? fun (n : Nat) => x.onGrid? (p - (n + 1))).getD (0, 0)

end Double

/-! ## Layouts -/

/-- What a text of a number adds to its digits. -/
structure Layout where
  /-- The powers of ten of the first digit between which no exponent is written. -/
  positionalFrom : Int
  positionalTo : Int
  /-- The sign in front of an exponent that is not negative. -/
  exponentSign : String

namespace Layout

/-- The digits of `n` without the zeros at its end, and how many those were. -/
def stripZeros (n : Nat) : Nat × Nat :=
  let digits := Nat.toDigits 10 n
  let zeros := (digits.reverse.takeWhile (· == '0')).length
  if n = 0 then (0, 0) else (n / Nat.pow 10 zeros, zeros)

/-- The text of a number in a layout. -/
def render (l : Layout) (x : Double) : String :=
  let (digits, exponent) := x.shortest
  let (digits, zeros) := stripZeros digits
  let exponent := exponent + zeros
  let text := Nat.toDigits 10 digits
  let first : Int := exponent + text.length - 1
  let body : List Char :=
    if l.positionalFrom ≤ first ∧ first ≤ l.positionalTo then
      if 0 ≤ exponent then text ++ List.replicate exponent.toNat '0' ++ ['.', '0']
      else
        let behind := (-exponent).toNat
        if behind < text.length then
          text.take (text.length - behind) ++ '.' :: text.drop (text.length - behind)
        else '0' :: '.' :: List.replicate (behind - text.length) '0' ++ text
    else
      let mantissa := match text with
        | d :: [] => [d]
        | d :: rest => d :: '.' :: rest
        | [] => []
      let sign := if 0 ≤ first then l.exponentSign.toList else ['-']
      mantissa ++ 'e' :: sign ++ Nat.toDigits 10 first.natAbs
  String.ofList (if x.negative then '-' :: body else body)

end Layout

/-- A number with a fixed count of digits behind the point; a half goes to the
even neighbour. -/
def Double.fixed (places : Nat) (x : Double) : String :=
  let (num, den) := x.ratio
  let scaled := roundDiv (num * Nat.pow 10 places) den
  let digits := Nat.toDigits 10 scaled
  let padded := List.replicate (places + 1 - digits.length) '0' ++ digits
  let whole := padded.take (padded.length - places)
  let fraction := padded.drop (padded.length - places)
  let body := if places = 0 then whole else whole ++ '.' :: fraction
  String.ofList (if x.negative then '-' :: body else body)

end CodeSurvey
