import CodeSurvey.Json.Value

/-!
# Taking JSON values apart

Readers of the parts of a value. A reader answers nothing if the value does
not have the shape that is asked for; fields that nobody asks for are ignored.
-/

namespace CodeSurvey.Json

def string? : Json → Option String
  | string s => some s
  | _ => none

def bool? : Json → Option Bool
  | bool b => some b
  | _ => none

/-- A natural number up to a limit. A fraction is none, even without digits
behind its point. -/
def natural? (limit : Nat) : Json → Option Nat
  | integer (.ofNat n) => if n ≤ limit then some n else none
  | _ => none

def maxWord : Nat := 18446744073709551615

def maxHalfWord : Nat := 4294967295

/-- A count or a size. -/
def count? : Json → Option Nat := natural? maxWord

/-- Any number, as the nearest binary fraction. -/
def fraction? : Json → Option Double
  | fraction x => some x
  | integer i => Double.ofRatio? (decide (i < 0)) i.natAbs 1
  | _ => none

def list? {α : Type} (item : Json → Option α) : Json → Option (List α)
  | array items => items.mapM item
  | _ => none

/-- An object all of whose values have one shape. -/
def map? {α : Type} (item : Json → Option α) : Json → Option (List (String × α))
  | object fields => fields.mapM fun (key, v) => (item v).map (Prod.mk key)
  | _ => none

/-- A value, or null. -/
def nullable? {α : Type} (item : Json → Option α) : Json → Option (Option α)
  | null => some none
  | v => (item v).map some

/-- The value of a field that must be there. -/
def required {α : Type} (key : String) (item : Json → Option α) (v : Json) : Option α :=
  (v.field? key).bind item

/-- The value of a field, or a default if the field is missing. -/
def withDefault {α : Type} (key : String) (standard : α) (item : Json → Option α) (v : Json) :
    Option α :=
  match v.field? key with
  | some w => item w
  | none => some standard

/-- The value of a field that may be missing or null. -/
def optional {α : Type} (key : String) (item : Json → Option α) (v : Json) : Option (Option α) :=
  withDefault key none (nullable? item) v

/-- The values that are there, without the fields that are not. -/
def fieldsOf (fields : List (String × Option Json)) : Json :=
  .object (fields.filterMap fun (key, v) => v.map (Prod.mk key))

def strings (items : List String) : Json := .array (items.map string)

def natural (n : Nat) : Json := .integer n

end CodeSurvey.Json
