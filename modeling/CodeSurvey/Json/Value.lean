import CodeSurvey.Decimal.Shortest

/-!
# JSON values

The values of a JSON text. Integers of 64 bits are kept exactly; all other
numbers are binary fractions. An object is a list of pairs without two equal
keys; what the order means is up to who makes it: a parsed object has its keys
in byte order, a record that is written has them in the order of its fields.
-/

namespace CodeSurvey

inductive Json where
  | null
  | bool (b : Bool)
  | integer (i : Int)
  | fraction (x : Double)
  | string (s : String)
  | array (items : List Json)
  | object (fields : List (String × Json))
  deriving Repr

namespace Json

/-- The value under a key of an object. -/
def field? (key : String) : Json → Option Json
  | object fields => fields.lookup key
  | _ => none

def isObject : Json → Bool
  | object _ => true
  | _ => false

/-- The largest natural number that is kept as an integer. -/
def maxInteger : Int := 18446744073709551615

/-- The smallest integer that is kept as one. -/
def minInteger : Int := -9223372036854775808

end Json

/-- The order of the UTF-8 bytes of two texts. It is the order of their
characters, because longer encodings begin with larger bytes. -/
def textLess (a b : String) : Bool := decide (a.toList < b.toList)

/-- Put a pair into a list that is sorted by its keys, in the place of the pair
with the same key if there is one. -/
def insertSorted {α : Type} (key : String) (value : α) : List (String × α) → List (String × α)
  | [] => [(key, value)]
  | (k, v) :: rest =>
    if key = k then (key, value) :: rest
    else if textLess key k then (key, value) :: (k, v) :: rest
    else (k, v) :: insertSorted key value rest

end CodeSurvey
