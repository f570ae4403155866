import CodeSurvey.Grammar.Lexeme

/-!
# Grammar forms

The grammar is data: a `Form` describes a stretch of text and the nodes that
it contributes, and a `Rule` is a name for a form. `Grammar/Reading` gives the
forms their meaning; the modules `Grammar/Expression`, `Grammar/Statement` and
so on hold the forms of the language.

Choice is ordered: `alt a b` tries `b` only if `a` fails. Sequences contribute
the nodes of their parts side by side, so a rule that is no node of its own
(a "hidden" one, such as the signature of a function) needs no special form.
-/

namespace CodeSurvey

/-- The rules of the grammar. -/
inductive Rule where
  -- statements
  | program | statement | declaration | block | bodyBlock | declarators
  | importStatement | exportStatement
  -- classes
  | decorators | heritage | classBody | methodDefinition
  -- expressions
  | expressions | expression | operand | assignment | arrowFunction | reach | plainReach
  | constructorReach | primary | object | array | arguments | templateString
  | functionExpression | classExpression | parenthesized | propertyName
  -- patterns and parameters
  | pattern | bindingTarget | objectPattern | arrayPattern | formalParameters
  | formalParameter | callSignature | plainCallSignature
  -- markup
  | markupElement | markupAttribute | markupName | markupContainer
  -- types
  | type | unionType | intersectionType | typeOperand | typeAtom | typeArguments
  | typeParameters | ascription | objectType | signature
  deriving DecidableEq, Repr

/-- What surrounds a form and changes how it is read. -/
structure Mode where
  dialect : Dialect
  /-- Whether a line break may end the statement here: not inside brackets. -/
  breakable : Bool
  /-- Whether `in` is an operator: not in the head of a `for`. -/
  relational : Bool
  /-- Whether an arrow function may state its return type: not where a
  conditional is waiting for its colon. -/
  returnTypes : Bool
  deriving DecidableEq, Repr

namespace Mode

/-- The mode of a statement: all is allowed. -/
def ofDialect (d : Dialect) : Mode := ⟨d, true, true, true⟩

/-- The mode inside brackets of any kind. -/
def bracketed (m : Mode) : Mode := ⟨m.dialect, false, true, true⟩

/-- The mode of the statements in a block. -/
def unbracketed (m : Mode) : Mode := .ofDialect m.dialect

def withoutRelation (m : Mode) : Mode := { m with relational := false }

def withoutReturnTypes (m : Mode) : Mode := { m with returnTypes := false }

/-- A number for each mode of a dialect, for tables of results. -/
def index (m : Mode) : Nat :=
  m.breakable.toNat + 2 * m.relational.toNat + 4 * m.returnTypes.toNat

end Mode

/-- The shapes of tokens that are told by their characters alone. -/
inductive Shape where
  | word | number | string | regex | privateName | escape | templateChars
  | markupText | markupString | markupName | characterReference | hashBangLine
  deriving DecidableEq, Repr

namespace Shape

/-- The end of the token of this shape that begins exactly at `i`. -/
def end? (shape : Shape) (s : Source) (i : Nat) : Option Nat :=
  match shape with
  | .word => s.wordEnd? i
  | .number => s.numberEnd? i
  | .string => s.stringEnd? i
  | .regex => s.regexEnd? i
  | .privateName => if s.peek i = '#' then s.wordEnd? (i + 1) else none
  | .escape => s.escapeEnd? i
  | .templateChars =>
    let j := s.templateCharsEnd i
    if i < j then some j else none
  | .markupText => s.markupTextEnd? i
  | .markupString => s.markupStringEnd? i
  | .markupName => s.markupNameEnd? i
  | .characterReference => s.characterReferenceEnd? i
  | .hashBangLine =>
    if s.startsWith ['#', '!'] i then some (s.skipWhile (fun c => c ≠ '\n') i) else none

end Shape

inductive Form where
  /-- These characters. -/
  | mark (text : String)
  /-- These characters, with nothing in front of them. -/
  | gluedMark (text : String)
  /-- An operator of the list that is not part of a longer operator. -/
  | operator (among : List String)
  /-- A word of the list. -/
  | keyword (among : List String)
  /-- A word, as a leaf of a kind. -/
  | namedWord (kind : NodeKind) (word : String)
  /-- A token of a shape, as a leaf of a kind. -/
  | literal (kind : NodeKind) (shape : Shape)
  /-- A token of a shape, with nothing in front of it. -/
  | gluedLiteral (kind : NodeKind) (shape : Shape)
  /-- A virtual semicolon. -/
  | semicolon (afterOperand : Bool)
  /-- The question mark of a conditional. -/
  | conditionalMark
  | endOfText
  | rule (r : Rule)
  | empty
  | seq (a b : Form)
  | alt (a b : Form)
  | many (a : Form)
  /-- What follows is an `a`, which is left in place. -/
  | ahead (a : Form)
  /-- What follows is no `a`. -/
  | butNot (a : Form)
  /-- The nodes of `a` hold a field in the node under construction. -/
  | field (f : Field) (a : Form)
  /-- A node whose children are the nodes of `a`. -/
  | node (kind : NodeKind) (a : Form)
  /-- A node `first`, and then any number of `step`s, each of which takes all
  that came before it as its own first child. -/
  | chain (first step : Form)
  /-- Operands with operators between them, grouped by precedence. -/
  | operation (operand tail : Form)
  /-- An `a` that is one node of a kind in the list. -/
  | ofKind (kinds : List NodeKind) (a : Form)
  | inMode (change : Mode → Mode) (a : Form)
  /-- An `a`, in certain modes only. -/
  | when (holds : Mode → Bool) (a : Form)

namespace Form

instance : Coe Rule Form := ⟨rule⟩

/-- Characters of punctuation written in the grammar stand for themselves. -/
instance : Coe String Form := ⟨mark⟩

/-- The forms of a list, one behind the other. -/
def inOrder : List Form → Form
  | [] => empty
  | [a] => a
  | a :: rest => seq a (inOrder rest)

/-- The first form of a list that matches. -/
def firstOf : List Form → Form
  | [] => butNot empty
  | [a] => a
  | a :: rest => alt a (firstOf rest)

def optional (a : Form) : Form := alt a empty

/-- One or more `a` with a comma between two. -/
def commaList1 (a : Form) : Form := seq a (many (seq (mark ",") a))

def commaList (a : Form) : Form := optional (commaList1 a)

/-- Like `commaList1`, with a comma allowed at the end. -/
def commaListTrailing1 (a : Form) : Form := seq (commaList1 a) (optional (mark ","))

/-- A list in which places may be left empty. -/
def commaListWithHoles (a : Form) : Form :=
  seq (optional a) (many (seq (mark ",") (optional a)))

/-- The keyword `word`. -/
def kw (word : String) : Form := keyword [word]

/-- The operator `text`, and not a longer one that begins with it. -/
def op (text : String) : Form := operator [text]

/-- A word as a leaf of kind `k`. -/
def word (k : NodeKind) : Form := literal k .word

/-- Only in the two typed dialects. -/
def typed (a : Form) : Form := when (·.dialect.isTyped) a

/-- Only in the untyped dialect. -/
def untyped (a : Form) : Form := when (fun m => !m.dialect.isTyped) a

/-- Bracketed by two marks, inside which no line break ends anything. -/
def within (opening : String) (a : Form) (closing : String) : Form :=
  seq (mark opening) (seq (inMode .bracketed a) (mark closing))

/-- The statement goes on: no virtual semicolon stands here. -/
def unbroken : Form :=
  alt (when (fun m => !m.breakable) empty) (butNot (semicolon true))

/-- The end of a statement, virtual or written. -/
def terminator (afterOperand : Bool) : Form := alt (semicolon afterOperand) (mark ";")

end Form

/-! ## Precedence -/

/-- How tightly an operator binds, and whether it groups to the right. -/
def bindingOf (operator : String) : Nat × Bool :=
  match operator with
  | "??" => (1, false)
  | "||" => (2, false)
  | "&&" => (3, false)
  | "|" => (4, false)
  | "^" => (5, false)
  | "&" => (6, false)
  | "==" | "===" | "!=" | "!==" => (7, false)
  | "<<" | ">>" | ">>>" => (9, false)
  | "+" | "-" => (10, false)
  | "*" | "/" | "%" => (11, false)
  | "**" => (12, true)
  | _ => (8, false)

/-- The field that the first child of a chained node holds. -/
def NodeKind.headField? : NodeKind → Option Field
  | .memberExpression | .subscriptExpression | .nestedIdentifier => some .object
  | .callExpression => some .function
  | .ternaryExpression => some .condition
  | .updateExpression => some .argument
  | .nestedTypeIdentifier => some .module
  | .genericType => some .name
  | .conditionalType => some .left
  | _ => none

namespace Tree

/-- The node `t` with `first` put in front of its children. -/
def prependChild (first t : Tree) : Tree :=
  match t with
  | .node l f s cs =>
    let first :=
      match l with
      | .named k => match k.headField? with
        | some hf => first.withField hf
        | none => first
      | _ => first
    .node l f ⟨first.span.start, s.stop⟩ (first :: cs)

end Tree

/-- An operand that waits for the right side of its operator. -/
structure PendingOperation where
  left : Tree
  operator : Tree
  operatorText : String

namespace PendingOperation

/-- Close a pending operation with its right side. -/
def close (p : PendingOperation) (right : Tree) : Tree :=
  let span : Span := ⟨p.left.span.start, right.span.stop⟩
  match p.operatorText with
  | "as" => .node (.named .asExpression) none span [p.left, p.operator, right]
  | "satisfies" => .node (.named .satisfiesExpression) none span [p.left, p.operator, right]
  | _ =>
    .node (.named .binaryExpression) none span
      [p.left.withField .left, p.operator.withField .operator, right.withField .right]

/-- Close the pending operations that bind more tightly than an operator of
the given binding, the innermost first. -/
def closeTighter (binding : Nat × Bool) : List PendingOperation → Tree →
    List PendingOperation × Tree
  | [], t => ([], t)
  | p :: ps, t =>
    let level := (bindingOf p.operatorText).1
    if binding.1 < level || (level = binding.1 && !binding.2) then
      closeTighter binding ps (p.close t)
    else (p :: ps, t)

/-- Group operands and operators, read from left to right, by precedence. -/
def group : List PendingOperation → Tree → List (Tree × Tree) → Tree
  | pending, t, [] => pending.foldl (fun t p => p.close t) t
  | pending, t, (operator, right) :: rest =>
    let text := match operator.label with
      | .token text => text
      | _ => ""
    let (pending, t) := closeTighter (bindingOf text) pending t
    group (⟨t, operator, text⟩ :: pending) right rest

end PendingOperation

end CodeSurvey
