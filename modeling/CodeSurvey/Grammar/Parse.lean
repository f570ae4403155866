import CodeSurvey.Grammar.Module
import CodeSurvey.Grammar.Reading
import CodeSurvey.Grammar.Repair

/-!
# From text to tree

`Source.parse` answers a tree for every text. A text outside the grammar gets
a tree that holds an error node, so that "is this text well formed" is a
question to the tree (`Tree.hasError`) and needs no second answer.

Comments are put into the tree at the end. A comment belongs to the innermost
node that has a token on either side of it; that is where the gap in which it
stands lies.
-/

namespace CodeSurvey

namespace Tree

mutual

/-- Put the comments between the children of a node, at every depth. -/
def placeComments (src : Source) : Tree → Tree
  | .node l f s [] => .node l f s []
  | .node l f s (c :: cs) => .node l f s (placeCommentsAmong src s.start s.stop (c :: cs))

/-- Put the comments between `i` and `stop` among the nodes that stand there. -/
def placeCommentsAmong (src : Source) (i stop : Nat) : List Tree → List Tree
  | [] => src.commentsBetween i stop
  | t :: ts =>
    src.commentsBetween i t.span.start
      ++ t.placeComments src :: placeCommentsAmong src t.span.stop stop ts

end

end Tree

namespace Source

/-- Read a text as a program. -/
def readProgram (src : Source) (d : Dialect) : Reading :=
  readRule Rule.form src src.ruleDepth .program (.ofDialect d) 0 Notes.empty

/-- Whether a text is a program, and how far reading it came. -/
def tryProgram (d : Dialect) (src : Source) : Bool × Nat :=
  let (found, notes) := src.readProgram d
  (found.isSome, notes.reach)

/-- The tree of a text outside the grammar, with its fault at `place`. -/
def faultyTree (src : Source) (place : Nat) : Tree :=
  .node (.named .program) none ⟨0, src.size⟩ [.node (.named .error) none ⟨place, place⟩ []]

def parse (src : Source) (d : Dialect) : Tree :=
  match src.readProgram d with
  | (some ⟨[t], _⟩, _) =>
    .node t.label none ⟨0, src.size⟩ (Tree.placeCommentsAmong src 0 src.size t.children)
  | (_, notes) => src.faultyTree (src.faultPlace (tryProgram d) notes.reach)

end Source

end CodeSurvey
