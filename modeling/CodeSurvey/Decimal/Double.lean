/-!
# Binary floating-point numbers, exactly

Numbers with 53 significant bits, as a sign, a mantissa and an exponent of
two. All arithmetic is on natural numbers: a quotient is rounded once, to the
nearest number and to the even one of two that are equally near.

Used for the average of a report and for the numbers of a JSON text.
-/

namespace CodeSurvey

/-- A finite number `± mantissa · 2 ^ exponent`. -/
structure Double where
  negative : Bool
  mantissa : Nat
  exponent : Int
  deriving DecidableEq, Repr

namespace Double

/-- The smallest exponent of two. -/
def minExponent : Int := -1074

/-- The largest exponent of two. -/
def maxExponent : Int := 971

def zero : Double := ⟨false, 0, minExponent⟩

/-- `num / den`, rounded to a whole number; of two that are equally near the
even one is taken. -/
def roundDiv (num den : Nat) : Nat :=
  let q := num / den
  let r := num % den
  if den < 2 * r ∨ (2 * r = den ∧ q % 2 = 1) then q + 1 else q

/-- `num · base ^ e` over `den`, with a negative power below the line. -/
def scale (base num den : Nat) (e : Int) : Nat × Nat :=
  (num * base.pow e.toNat, den * base.pow (-e).toNat)

/-- The exponent at which the quotient has 53 bits, or the smallest one. -/
def quotientExponent (num den : Nat) : Int :=
  let guess : Int := (num.log2 : Int) - den.log2 - 52
  let (n, d) := scale 2 num den (-guess)
  let e := if n / d < Nat.pow 2 52 then guess - 1 else guess
  max e minExponent

/-- The number nearest to `num / den`; nothing if that is too large. -/
def ofRatio? (negative : Bool) (num den : Nat) : Option Double :=
  if num = 0 then some { zero with negative := negative }
  else
    let e := quotientExponent num den
    let (n, d) := scale 2 num den (-e)
    let m := roundDiv n d
    let (m, e) := if m = Nat.pow 2 53 then (Nat.pow 2 52, e + 1) else (m, e)
    if maxExponent < e then none else some ⟨negative, m, e⟩

/-- The absolute value as a fraction. -/
def ratio (x : Double) : Nat × Nat := scale 2 x.mantissa 1 x.exponent

/-- The number nearest to a natural number. -/
def ofNat? (n : Nat) : Option Double := ofRatio? false n 1

def mul? (x y : Double) : Option Double :=
  let (a, b) := x.ratio
  let (c, d) := y.ratio
  ofRatio? (x.negative != y.negative) (a * c) (b * d)

/-- The quotient of two numbers, of which `y` is not zero. -/
def div? (x y : Double) : Option Double :=
  let (a, b) := x.ratio
  let (c, d) := y.ratio
  ofRatio? (x.negative != y.negative) (a * d) (b * c)

/-- Compare two numbers that are not negative. -/
def lessThan (x y : Double) : Bool :=
  let (a, b) := x.ratio
  let (c, d) := y.ratio
  a * d < c * b

end Double

end CodeSurvey
