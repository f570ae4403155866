import CodeSurvey.Json.Value

/-!
# Writing JSON

Two layouts of a JSON text: compact, without a blank, and indented, with one
entry per line and two blanks per level. Both write strings and numbers alike.
-/

namespace CodeSurvey

/-- Numbers are positional while the first digit stands for 10⁻⁵ up to 10¹⁵. -/
def Json.numberLayout : Layout := ⟨-5, 15, "+"⟩

namespace Json

def hexDigit (n : Nat) : Char := Nat.digitChar n

/-- The characters that stand for `c` inside a string. Only the delimiters and
the control characters are escaped. -/
def escapeChar (c : Char) : List Char :=
  match c with
  | '\x22' => ['\\', '\x22']
  | '\\' => ['\\', '\\']
  | '\x08' => ['\\', 'b']
  | '\x0c' => ['\\', 'f']
  | '\n' => ['\\', 'n']
  | '\r' => ['\\', 'r']
  | '\t' => ['\\', 't']
  | c =>
    if c.toNat < 32 then
      ['\\', 'u', '0', '0', hexDigit (c.toNat / 16), hexDigit (c.toNat % 16)]
    else [c]

/-- A string between its quotes. -/
def quote (s : String) : String :=
  String.ofList ('\x22' :: s.toList.flatMap escapeChar ++ ['\x22'])

def scalarText : Json → String
  | null => "null"
  | bool true => "true"
  | bool false => "false"
  | integer i => toString i
  | fraction x => numberLayout.render x
  | string s => quote s
  | _ => ""

mutual

def compact : Json → String
  | array items => "[" ++ compactItems items ++ "]"
  | object fields => "\x7b" ++ compactFields fields ++ "\x7d"
  | v => scalarText v

def compactItems : List Json → String
  | [] => ""
  | [v] => v.compact
  | v :: w :: rest => v.compact ++ "," ++ compactItems (w :: rest)

def compactFields : List (String × Json) → String
  | [] => ""
  | [(key, v)] => quote key ++ ":" ++ v.compact
  | (key, v) :: w :: rest => quote key ++ ":" ++ v.compact ++ "," ++ compactFields (w :: rest)

end

/-- A line break and the indentation of a level. -/
def newLine (level : Nat) : String := "\n" ++ String.ofList (List.replicate (2 * level) ' ')

mutual

/-- The indented text of a value at a level. Empty containers stay on a line. -/
def prettyAt (level : Nat) : Json → String
  | array [] => "[]"
  | array (v :: rest) =>
    "[" ++ newLine (level + 1) ++ prettyItems (level + 1) (v :: rest) ++ newLine level ++ "]"
  | object [] => "\x7b\x7d"
  | object (f :: rest) =>
    "\x7b" ++ newLine (level + 1) ++ prettyFields (level + 1) (f :: rest) ++ newLine level ++ "\x7d"
  | v => scalarText v

def prettyItems (level : Nat) : List Json → String
  | [] => ""
  | [v] => prettyAt level v
  | v :: w :: rest => prettyAt level v ++ "," ++ newLine level ++ prettyItems level (w :: rest)

def prettyFields (level : Nat) : List (String × Json) → String
  | [] => ""
  | [(key, v)] => quote key ++ ": " ++ prettyAt level v
  | (key, v) :: w :: rest =>
    quote key ++ ": " ++ prettyAt level v ++ "," ++ newLine level ++ prettyFields level (w :: rest)

end

/-- The indented text of a value. -/
def pretty (v : Json) : String := prettyAt 0 v

end Json

end CodeSurvey
