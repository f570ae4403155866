import CodeSurvey.Syntax.Tree

/-!
# Cursors

A cursor is a node of a tree together with the way up to the root, so that it
answers what a bare node cannot: what its parent is, and what stands directly
in front of it.

`Cursor.next?` steps to the next node in pre-order: down to the first child,
else to the next sibling of the node or of the nearest ancestor that has one.
Every step leaves one node fewer to visit (`remaining_next`), so the walk from
a cursor to the end of its tree is a plain loop.
-/

namespace CodeSurvey

/-- A node that has been entered: itself without its children, and the children
on either side of the one that is looked at. -/
structure Frame where
  label : Label
  field : Option Field
  span : Span
  /-- The children in front, the nearest first. -/
  before : List Tree
  after : List Tree

namespace Frame

/-- The entered node with `t` in the place that is looked at. -/
def plug (f : Frame) (t : Tree) : Tree :=
  .node f.label f.field f.span (f.before.reverse ++ t :: f.after)

def isKind (f : Frame) (k : NodeKind) : Bool := f.label == .named k

end Frame

structure Cursor where
  tree : Tree
  /-- The ancestors, the parent first. -/
  above : List Frame

namespace Cursor

/-- The cursor at the root of a tree. It knows nothing outside that tree. -/
def ofTree (t : Tree) : Cursor := ⟨t, []⟩

/-! ## Moves -/

def firstChild? (c : Cursor) : Option Cursor :=
  match c.tree with
  | .node l f s (child :: rest) => some ⟨child, ⟨l, f, s, [], rest⟩ :: c.above⟩
  | .node _ _ _ [] => none

def nextSibling? (c : Cursor) : Option Cursor :=
  match c.above with
  | ⟨l, f, s, before, next :: rest⟩ :: above =>
    some ⟨next, ⟨l, f, s, c.tree :: before, rest⟩ :: above⟩
  | _ => none

def previousSibling? (c : Cursor) : Option Tree :=
  match c.above with
  | frame :: _ => frame.before.head?
  | [] => none

def parent? (c : Cursor) : Option Cursor :=
  match c.above with
  | frame :: above => some ⟨frame.plug c.tree, above⟩
  | [] => none

/-- The next sibling of the node, or of its nearest ancestor that has one. -/
def climb (t : Tree) : List Frame → Option Cursor
  | [] => none
  | frame :: above =>
    match (⟨t, frame :: above⟩ : Cursor).nextSibling? with
    | some c => some c
    | none => climb (frame.plug t) above

/-- The node behind this one in pre-order. -/
def next? (c : Cursor) : Option Cursor :=
  match c.firstChild? with
  | some child => some child
  | none => climb c.tree c.above

/-! ## The walk -/

/-- How many nodes are still to come behind this one. -/
def remaining (c : Cursor) : Nat :=
  Tree.sizeOfAll c.tree.children + Tree.sizeOfAll (c.above.flatMap (·.after))

theorem remaining_climb {t : Tree} {above : List Frame} {c : Cursor}
    (h : climb t above = some c) :
    Tree.sizeOfAll (above.flatMap (·.after)) = c.remaining + 1 := by
  induction above generalizing t with
  | nil => cases h
  | cons frame above ih =>
    obtain ⟨l, f, s, before, after⟩ := frame
    cases after with
    | nil =>
      simp only [climb, nextSibling?] at h
      simpa [Tree.sizeOfAll] using ih h
    | cons next rest =>
      simp only [climb, nextSibling?, Option.some.injEq] at h
      subst h
      obtain ⟨l', f', s', cs⟩ := next
      simp only [remaining, Tree.children, List.flatMap_cons, Tree.sizeOfAll_append,
        Tree.sizeOfAll, Tree.size]
      omega

theorem remaining_next {c c' : Cursor} (h : c.next? = some c') :
    c.remaining = c'.remaining + 1 := by
  obtain ⟨⟨l, f, s, cs⟩, above⟩ := c
  cases cs with
  | nil =>
    simp only [next?, firstChild?] at h
    simpa [remaining, Tree.children, Tree.sizeOfAll] using remaining_climb h
  | cons child rest =>
    simp only [next?, firstChild?, Option.some.injEq] at h
    subst h
    obtain ⟨l', f', s', cs'⟩ := child
    simp only [remaining, Tree.children, List.flatMap_cons, Tree.sizeOfAll_append,
      Tree.sizeOfAll, Tree.size]
    omega

/-- The cursors from `c` to the end of its tree, behind those of `visited`,
which are in reverse order. -/
def walkFrom (visited : List Cursor) (c : Cursor) : List Cursor :=
  match h : c.next? with
  | some next =>
    have := remaining_next h
    walkFrom (c :: visited) next
  | none => (c :: visited).reverse
termination_by c.remaining

/-- The cursors from `c` to the end of its tree, in pre-order. -/
def walk (c : Cursor) : List Cursor := walkFrom [] c

/-! ## Questions about the surroundings -/

/-- Whether the parent is of kind `k`. -/
def parentIsKind (c : Cursor) (k : NodeKind) : Bool :=
  match c.above with
  | frame :: _ => frame.isKind k
  | [] => false

/-- Whether the node is the first child of its parent that holds `f`. -/
def holdsFirst (c : Cursor) (f : Field) : Bool :=
  match c.above with
  | frame :: _ => c.tree.field == some f && frame.before.all fun t => t.field != some f
  | [] => false

end Cursor

end CodeSurvey
