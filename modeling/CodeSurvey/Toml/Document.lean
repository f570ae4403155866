import CodeSurvey.Toml.Scalar

/-!
# Reading TOML

A reader of TOML documents, version 1.1. Every function takes the text that is
left and answers what it read and what is left then, or nothing if the text is
no TOML: what is wrong with it is not kept.

Lists and braces nest at most `nestingLimit` deep. The reader of values is a
recursion on the depth that is left; within one list it is a loop whose fuel is
the length of the text, because each turn takes a character.
-/

namespace CodeSurvey.TomlText

/-! ## Blanks and comments -/

def skipBlanks : List Char → List Char
  | ' ' :: cs => skipBlanks cs
  | '\t' :: cs => skipBlanks cs
  | cs => cs

/-- Whether a character may stand in a comment or between quotes. -/
def isPrintable (c : Char) : Bool := c = '\t' || (' ' ≤ c && c.toNat ≠ 127)

/-- What follows a line break. A carriage return is one only with a line feed. -/
def behindBreak? : List Char → Option (List Char)
  | '\n' :: cs => some cs
  | '\r' :: '\n' :: cs => some cs
  | _ => none

/-- What follows a comment, if one comes next. -/
def skipComment : List Char → List Char
  | '#' :: cs => cs.dropWhile isPrintable
  | cs => cs

/-- The rest behind the end of a line: blanks, a comment and the break. -/
def endOfLine? (cs : List Char) : Option (List Char) :=
  match skipComment (skipBlanks cs) with
  | [] => some []
  | cs => behindBreak? cs

/-- The rest behind blanks, comments and line breaks. -/
def skipLines (cs : List Char) : List Char :=
  let rec go : Nat → List Char → List Char
    | 0, cs => cs
    | fuel + 1, cs =>
      match behindBreak? (skipComment (skipBlanks cs)) with
      | some rest => go fuel rest
      | none => skipComment (skipBlanks cs)
  go cs.length cs

/-! ## Strings -/

/-- The character of a code point with `count` hexadecimal digits. -/
def codePoint? (count : Nat) (cs : List Char) : Option (Char × List Char) :=
  let digits := cs.take count
  if digits.length = count ∧ digits.all (fun c => (TomlScalar.digitValue? 16 c).isSome) then do
    let n ← TomlScalar.digits? 16 digits
    if n.isValidChar then some (Char.ofNat n, cs.drop count) else none
  else none

/-- The character of an escape, from behind its backslash. -/
def escape? : List Char → Option (Char × List Char)
  | 'b' :: cs => some ('\x08', cs)
  | 't' :: cs => some ('\t', cs)
  | 'n' :: cs => some ('\n', cs)
  | 'f' :: cs => some ('\x0c', cs)
  | 'r' :: cs => some ('\r', cs)
  | 'e' :: cs => some ('\x1b', cs)
  | '\x22' :: cs => some ('\x22', cs)
  | '\\' :: cs => some ('\\', cs)
  | 'x' :: cs => codePoint? 2 cs
  | 'u' :: cs => codePoint? 4 cs
  | 'U' :: cs => codePoint? 8 cs
  | _ => none

/-- The rest of a line string; `read` holds its characters so far in reverse. -/
def lineTail (quote : Char) : Nat → List Char → List Char → Option (String × List Char)
  | 0, _, _ => none
  | _, _, [] => none
  | fuel + 1, read, c :: cs =>
    if c = quote then some (String.ofList read.reverse, cs)
    else if c = '\\' ∧ quote = '\x22' then do
      let (d, cs) ← escape? cs
      lineTail quote fuel (d :: read) cs
    else if isPrintable c then lineTail quote fuel (c :: read) cs
    else none

/-- The rest behind a backslash at the end of a line: all blanks and breaks up
to the next character. Nothing if no break follows the backslash. -/
def continuation? (cs : List Char) : Option (List Char) :=
  let rec go : Nat → List Char → List Char
    | 0, cs => cs
    | fuel + 1, cs =>
      match behindBreak? (skipBlanks cs) with
      | some rest => go fuel rest
      | none => skipBlanks cs
  (behindBreak? (skipBlanks cs)).map fun rest => go rest.length rest

/-- The rest of a string of several lines. Two quotes may stand in front of the
three that end it. -/
def blockTail (quote : Char) : Nat → List Char → List Char → Option (String × List Char)
  | 0, _, _ => none
  | _, _, [] => none
  | fuel + 1, read, c :: cs =>
    if c = quote then
      let quotes := 1 + (cs.takeWhile (· == quote)).length
      if quotes < 3 then blockTail quote fuel (c :: read) cs
      else
        let inside := min (quotes - 3) 2
        some (String.ofList (List.replicate inside quote ++ read).reverse, cs.drop (inside + 2))
    else if c = '\\' ∧ quote = '\x22' then
      match continuation? cs with
      | some rest => blockTail quote fuel read rest
      | none => do
        let (d, cs) ← escape? cs
        blockTail quote fuel (d :: read) cs
    else if c = '\n' ∨ (c = '\r' ∧ cs.head? = some '\n') ∨ isPrintable c then
      blockTail quote fuel (c :: read) cs
    else none

/-- A string from its opening quote, with or without escapes. -/
def string? (cs : List Char) : Option (String × List Char) :=
  match cs with
  | '\x22' :: '\x22' :: '\x22' :: cs => block '\x22' cs
  | '\x27' :: '\x27' :: '\x27' :: cs => block '\x27' cs
  | '\x22' :: cs => lineTail '\x22' (cs.length + 1) [] cs
  | '\x27' :: cs => lineTail '\x27' (cs.length + 1) [] cs
  | _ => none
where
  /-- A line break behind the opening quotes does not belong to the string. -/
  block (quote : Char) (cs : List Char) : Option (String × List Char) :=
    blockTail quote (cs.length + 1) [] ((behindBreak? cs).getD cs)

/-! ## Keys -/

def isBareKeyChar (c : Char) : Bool :=
  ('a' ≤ c && c ≤ 'z') || ('A' ≤ c && c ≤ 'Z') || TomlScalar.isDigit c || c = '_' || c = '-'

/-- One part of a key. -/
def simpleKey? (cs : List Char) : Option (String × List Char) :=
  match cs with
  | '\x22' :: rest => lineTail '\x22' (rest.length + 1) [] rest
  | '\x27' :: rest => lineTail '\x27' (rest.length + 1) [] rest
  | _ =>
    let bare := cs.takeWhile isBareKeyChar
    if bare.isEmpty then none else some (String.ofList bare, cs.drop bare.length)

/-- A key: its parts but for the last one, the last one, and the text behind it
without blanks. -/
def key? (cs : List Char) : Option (List String × String × List Char) :=
  let rec go : Nat → List String → List Char → Option (List String × String × List Char)
    | 0, _, _ => none
    | fuel + 1, path, cs => do
      let (k, cs) ← simpleKey? (skipBlanks cs)
      match skipBlanks cs with
      | '.' :: cs => go fuel (path ++ [k]) cs
      | cs => some (path, k, cs)
  go (cs.length + 1) [] cs

/-! ## Values -/

/-- The items of a list up to its bracket; `value` reads an item. -/
def items (value : List Char → Option (Toml × List Char)) :
    Nat → List Toml → List Char → Option (Toml × List Char)
  | 0, _, _ => none
  | fuel + 1, read, cs =>
    match skipLines cs with
    | ']' :: cs => some (.array read.reverse, cs)
    | cs => do
      let (v, cs) ← value cs
      match skipLines cs with
      | ',' :: cs => items value fuel (v :: read) cs
      | ']' :: cs => some (.array (v :: read).reverse, cs)
      | _ => none

/-- The pairs of a table in braces; `value` reads a value. -/
def pairs (value : List Char → Option (Toml × List Char)) :
    Nat → TomlFields → List Char → Option (Toml × List Char)
  | 0, _, _ => none
  | fuel + 1, read, cs =>
    match skipLines cs with
    | '\x7d' :: cs => some (.table .inline read, cs)
    | cs =>
      match key? cs with
      | some (path, key, '=' :: cs) => do
        let (v, cs) ← value (skipBlanks cs)
        let read ← TomlFields.addDotted? v key path read
        match skipLines cs with
        | ',' :: cs => pairs value fuel read cs
        | '\x7d' :: cs => some (.table .inline read, cs)
        | _ => none
      | _ => none

/-- Lists and braces may nest this deep. -/
def nestingLimit : Nat := 80

/-- Read a value in which `depth` levels may nest. -/
def value : Nat → List Char → Option (Toml × List Char)
  | depth, cs =>
    match cs with
    | '\x22' :: _ | '\x27' :: _ => (string? cs).map fun (s, rest) => (.string s, rest)
    | '[' :: cs =>
      match depth with
      | 0 => none
      | n + 1 => items (value n) (cs.length + 1) [] cs
    | '\x7b' :: cs =>
      match depth with
      | 0 => none
      | n + 1 => pairs (value n) (cs.length + 1) [] cs
    | cs =>
      let (scalar, rest) := TomlScalar.take cs
      (TomlScalar.value? scalar).map fun v => (v, rest)

/-! ## Documents -/

/-- Read a header from behind its first bracket: the tables with the table that
it begins, the path of that table, and the rest. -/
def header? (root : TomlFields) (cs : List Char) :
    Option (TomlFields × List String × List Char) :=
  match cs with
  | '[' :: cs =>
    match key? cs with
    | some (path, key, ']' :: ']' :: cs) => do
      return (← TomlFields.openItem? path key root, path ++ [key], cs)
    | _ => none
  | cs =>
    match key? cs with
    | some (path, key, ']' :: cs) => do
      return (← TomlFields.openTable? path key root, path ++ [key], cs)
    | _ => none

/-- Read the lines of a document; `current` is the path of the last header. -/
def lines : Nat → TomlFields → List String → List Char → Option TomlFields
  | 0, _, _, _ => none
  | fuel + 1, root, current, cs =>
    match skipLines cs with
    | [] => some root
    | '[' :: cs => do
      let (root, current, cs) ← header? root cs
      lines fuel root current (← endOfLine? cs)
    | cs =>
      match key? cs with
      | some (path, key, '=' :: cs) => do
        let (v, cs) ← value nestingLimit (skipBlanks cs)
        let root ← TomlFields.below (TomlFields.addDotted? v key path) current root
        lines fuel root current (← endOfLine? cs)
      | _ => none

/-- The root table of a document. A byte order mark in front of it is no part
of it. -/
def document? (s : String) : Option TomlFields :=
  let cs := match s.toList with
    | '\uFEFF' :: cs => cs
    | cs => cs
  lines (cs.length + 1) [] [] cs

end CodeSurvey.TomlText
