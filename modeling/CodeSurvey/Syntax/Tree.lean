import CodeSurvey.Syntax.Kind
import CodeSurvey.Syntax.Source

/-!
# Concrete syntax trees

A tree keeps every token of the text, comments included, because the record
builders ask for things that an abstract tree drops: which keyword stands
among the children, and what stands directly in front of a node.

A node carries the field that it holds in its parent, so a list of children
is all there is to a parent. Main definitions: the look-ups by field and by
kind, the pre-order of a tree, and `Tree.size`, the measure of every walk.
-/

namespace CodeSurvey

/-- A stretch of the text, from `start` up to, not including, `stop`. -/
structure Span where
  start : Nat
  stop : Nat
  deriving DecidableEq, Repr

inductive Tree where
  | node (label : Label) (field : Option Field) (span : Span) (children : List Tree)
  deriving Repr

namespace Tree

def label : Tree → Label
  | .node l _ _ _ => l

def field : Tree → Option Field
  | .node _ f _ _ => f

def span : Tree → Span
  | .node _ _ s _ => s

def children : Tree → List Tree
  | .node _ _ _ cs => cs

/-- A leaf for the token `text` at offset `start`. -/
def ofToken (text : String) (start stop : Nat) : Tree :=
  .node (.token text) none ⟨start, stop⟩ []

/-- A leaf of a named kind. -/
def leaf (kind : NodeKind) (start stop : Nat) : Tree :=
  .node (.named kind) none ⟨start, stop⟩ []

def withField (f : Field) : Tree → Tree
  | .node l _ s cs => .node l (some f) s cs

def withChildren (cs : List Tree) : Tree → Tree
  | .node l f s _ => .node l f s cs

/-! ## Questions about one node -/

def kind? (t : Tree) : Option NodeKind :=
  match t.label with
  | .named k => some k
  | _ => none

def isKind (t : Tree) (k : NodeKind) : Bool := t.label == .named k

/-- Whether the node is the token `text`. A keyword is one, and never a node of
the kind that it introduces, though both can go by the same word. -/
def isToken (t : Tree) (text : String) : Bool := t.label == .token text

def isNamed (t : Tree) : Bool := t.label.isNamed

def isError (t : Tree) : Bool := t.label.isError

def isMissing (t : Tree) : Bool := t.label.isMissing

/-! ## Questions about the children -/

def namedChildren (t : Tree) : List Tree := t.children.filter isNamed

/-- The first child that holds `f`. -/
def child? (t : Tree) (f : Field) : Option Tree :=
  t.children.find? fun c => c.field == some f

/-- The first child of kind `k`. -/
def childOfKind? (t : Tree) (k : NodeKind) : Option Tree :=
  t.children.find? (·.isKind k)

/-! ## Size and order -/

mutual

/-- How many nodes the tree holds, its root included. -/
def size : Tree → Nat
  | .node _ _ _ cs => 1 + sizeOfAll cs

def sizeOfAll : List Tree → Nat
  | [] => 0
  | t :: ts => t.size + sizeOfAll ts

end

theorem sizeOfAll_append (ts us : List Tree) :
    sizeOfAll (ts ++ us) = sizeOfAll ts + sizeOfAll us := by
  induction ts with
  | nil => simp [sizeOfAll]
  | cons t ts ih => simp [sizeOfAll, ih, Nat.add_assoc]

mutual

/-- The tree's nodes, each before its children, children from left to right. -/
def preorder : Tree → List Tree
  | .node l f s cs => .node l f s cs :: preorderOfAll cs

def preorderOfAll : List Tree → List Tree
  | [] => []
  | t :: ts => t.preorder ++ preorderOfAll ts

end

theorem preorderOfAll_eq_flatMap (ts : List Tree) : preorderOfAll ts = ts.flatMap preorder := by
  induction ts with
  | nil => rfl
  | cons t ts ih => rw [preorderOfAll, ih, List.flatMap_cons]

mutual

/-- Whether the tree holds a node that the parser could not place or had to
supply. -/
def hasError : Tree → Bool
  | .node l _ _ cs => l.isError || l.isMissing || anyHasError cs

def anyHasError : List Tree → Bool
  | [] => false
  | t :: ts => t.hasError || anyHasError ts

end

/-- The text of a node, its inner blanks and comments included. -/
def text (src : Source) (t : Tree) : String := src.slice t.span.start t.span.stop

def startLine (src : Source) (t : Tree) : Nat := src.line t.span.start

def endLine (src : Source) (t : Tree) : Nat := src.line t.span.stop

end Tree

end CodeSurvey
