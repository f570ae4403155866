/-!
# TOML values

The values of a TOML document. A table remembers what brought it about, because
that decides what may still be added to it.
-/

namespace CodeSurvey

/-- What brought a table about. -/
inductive TableOrigin where
  /-- A header for one of its subtables. -/
  | path
  /-- A dotted key for one of its values. -/
  | dotted
  /-- Its own header. -/
  | header
  /-- Braces; such a table is complete. -/
  | inline
  deriving DecidableEq, Repr

inductive Toml where
  | string (s : String)
  | integer (i : Int)
  /-- A binary fraction, as it is written but for the underscores. -/
  | float (text : String)
  | boolean (b : Bool)
  | datetime (text : String)
  | array (items : List Toml)
  /-- The tables of one double-bracketed header, which can become more. -/
  | tables (items : List (List (String × Toml)))
  | table (origin : TableOrigin) (fields : List (String × Toml))
  deriving Repr

/-- The pairs of a table, without two equal keys. -/
abbrev TomlFields := List (String × Toml)

namespace TomlFields

/-- Give a key that is there another value. -/
def replace (key : String) (value : Toml) (t : TomlFields) : TomlFields :=
  t.map fun (k, v) => if k = key then (k, value) else (k, v)

/-- Add a key that is not there. -/
def add? (key : String) (value : Toml) (t : TomlFields) : Option TomlFields :=
  match t.lookup key with
  | none => some (t ++ [(key, value)])
  | some _ => none

/-- Change the table that a header's path leads to. Tables that are missing are
made; of the tables of one header the last one is meant. -/
def below (change : TomlFields → Option TomlFields) : List String → TomlFields → Option TomlFields
  | [], t => change t
  | key :: path, t =>
    match t.lookup key with
    | none => do return t ++ [(key, .table .path (← below change path []))]
    | some (.table .inline _) => none
    | some (.table origin inner) => do
      return replace key (.table origin (← below change path inner)) t
    | some (.tables items) =>
      match items.reverse with
      | last :: earlier => do
        return replace key (.tables (((← below change path last) :: earlier).reverse)) t
      | [] => none
    | some _ => none

/-- Add a value under a dotted key. Dotted keys add to tables that dotted keys
brought about; on their way there they may pass the tables of a header's path. -/
def addDotted? (value : Toml) (last : String) : List String → TomlFields → Option TomlFields
  | [], t => add? last value t
  | key :: path, t =>
    match t.lookup key with
    | none => do return t ++ [(key, .table .dotted (← addDotted? value last path []))]
    | some (.table .dotted inner) => do
      return replace key (.table .dotted (← addDotted? value last path inner)) t
    | some (.table .path inner) =>
      if path = [] then none
      else do return replace key (.table .path (← addDotted? value last path inner)) t
    | some _ => none

/-- Begin the table of a header. A table can have one header. -/
def openTable? (path : List String) (key : String) : TomlFields → Option TomlFields :=
  below (fun t =>
    match t.lookup key with
    | none => some (t ++ [(key, .table .header [])])
    | some (.table .path inner) => some (replace key (.table .header inner) t)
    | some _ => none) path

/-- Begin the next table of a double-bracketed header. -/
def openItem? (path : List String) (key : String) : TomlFields → Option TomlFields :=
  below (fun t =>
    match t.lookup key with
    | none => some (t ++ [(key, .tables [[]])])
    | some (.tables items) => some (replace key (.tables (items ++ [[]])) t)
    | some _ => none) path

end TomlFields

end CodeSurvey
