/-!
# Ranges of characters

Properties of characters are kept as lists of ranges of their code points.
-/

namespace CodeSurvey

/-- Whether a character lies in one of the ranges, both ends included. -/
def inRanges (ranges : List (Nat × Nat)) (c : Char) : Bool :=
  ranges.any fun (first, last) => first ≤ c.toNat && c.toNat ≤ last

end CodeSurvey
