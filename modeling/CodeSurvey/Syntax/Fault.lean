import CodeSurvey.Syntax.Tree

/-!
# The first fault of a tree

Where a text leaves the grammar its tree holds an error node or a token that
the parser supplied. The search for the first of them goes down only where a
fault is to be found, with the subtrees still to be searched on a stack.
-/

namespace CodeSurvey.Tree

theorem sizeOfAll_filter_le (p : Tree → Bool) (ts : List Tree) :
    sizeOfAll (ts.filter p) ≤ sizeOfAll ts := by
  induction ts with
  | nil => exact Nat.le_refl _
  | cons t ts ih =>
    by_cases h : p t
    · simp [h, sizeOfAll, ih]
    · simp only [h, Bool.false_eq_true, not_false_eq_true, List.filter_cons_of_neg, sizeOfAll]
      omega

/-- A node that the parser could not place or had to supply. -/
def isFault (t : Tree) : Bool := t.isError || t.isMissing

/-- The trees of a list in which a fault is to be found. -/
def faultyAmong (ts : List Tree) : List Tree :=
  ts.filter fun t => t.hasError || t.isMissing

/-- The first fault in the subtrees of a stack, the top one searched first. -/
def searchFault : List Tree → Option Tree
  | [] => none
  | .node l f s cs :: rest =>
    if (node l f s cs).isFault then some (.node l f s cs)
    else searchFault (faultyAmong cs ++ rest)
termination_by ts => sizeOfAll ts
decreasing_by
  have := sizeOfAll_filter_le (fun c => c.hasError || c.isMissing) cs
  simp only [sizeOfAll_append, sizeOfAll, size, faultyAmong]
  omega

/-- The first fault of a tree in pre-order, if it has one. -/
def firstFault? (t : Tree) : Option Tree :=
  if t.hasError then some ((searchFault [t]).getD t) else none

end CodeSurvey.Tree
