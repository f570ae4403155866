import CodeSurvey.Proofs.Preorder
import CodeSurvey.Record.Extraction

/-!
# Extraction by recursion

The records of a tree are collected in one walk. `Extraction.below` says the
same without a loop: the records of a node itself, and then those of its
children from left to right. `below_eq` ties the two for a tree that stands
anywhere; what a node yields may depend on what is around it, so the recursion
carries the way up along.

As the walk visits every position once and in order, the functions of a file
are the function-like nodes of its tree, each once and in order
(`functions_ofNodes`).
-/

namespace CodeSurvey

namespace Extraction

def empty : Extraction := ⟨[], [], [], []⟩

instance : Append Extraction where
  append x y := ⟨x.functions ++ y.functions, x.classes ++ y.classes, x.imports ++ y.imports,
    x.exports ++ y.exports⟩

/-- The records of one node. -/
def atNode (src : Source) (c : Cursor) : Extraction where
  functions := (c.functionRecord? src).toList
  classes := (c.classRecordAt? src).toList
  imports := (c.importRecordAt? src).toList
  exports := c.exportRecordsAt src

mutual

/-- The records of a tree that stands below `above`. -/
def below (src : Source) (above : List Frame) : Tree → Extraction
  | .node l f s cs => atNode src ⟨.node l f s cs, above⟩ ++ belowAmong src l f s above [] cs

/-- The records of the children of an entered node that have `before` in front. -/
def belowAmong (src : Source) (l : Label) (f : Option Field) (s : Span) (above : List Frame)
    (before : List Tree) : List Tree → Extraction
  | [] => empty
  | t :: ts => below src (⟨l, f, s, before, ts⟩ :: above) t
      ++ belowAmong src l f s above (t :: before) ts

end

variable (src : Source)

theorem ofNodes_cons (c : Cursor) (cs : List Cursor) :
    ofNodes src (c :: cs) = atNode src c ++ ofNodes src cs := by
  show ofNodes src (c :: cs) = ⟨_, _, _, _⟩
  simp only [ofNodes, atNode, List.filterMap_cons, List.flatMap_cons]
  cases c.functionRecord? src <;> cases c.classRecordAt? src <;> cases c.importRecordAt? src <;> rfl

theorem ofNodes_append (cs ds : List Cursor) :
    ofNodes src (cs ++ ds) = ofNodes src cs ++ ofNodes src ds := by
  show ofNodes src (cs ++ ds) = ⟨_, _, _, _⟩
  simp only [ofNodes, List.filterMap_append, List.flatMap_append]

mutual

theorem below_eq (above : List Frame) : (t : Tree) →
    below src above t = ofNodes src (Cursor.preorderFrom above t)
  | .node l f s cs => by
      rw [below, Cursor.preorderFrom, ofNodes_cons, belowAmong_eq l f s above [] cs]

theorem belowAmong_eq (l : Label) (f : Option Field) (s : Span) (above : List Frame)
    (before : List Tree) : (ts : List Tree) →
    belowAmong src l f s above before ts
      = ofNodes src (Cursor.preorderAmong l f s above before ts)
  | [] => rfl
  | t :: ts => by
      rw [belowAmong, Cursor.preorderAmong, ofNodes_append, below_eq _ t,
        belowAmong_eq l f s above (t :: before) ts]

end

theorem ofTree_eq_below (t : Tree) : ofTree src t = below src [] t := by
  rw [ofTree, Cursor.walk_ofTree, below_eq]

/-- A record for every function-like node, and for no other. -/
theorem functions_ofNodes (cs : List Cursor) :
    (ofNodes src cs).functions
      = (cs.filter (·.tree.isFunctionKind)).map (·.functionRecord src) := by
  induction cs with
  | nil => rfl
  | cons c cs ih =>
      simp only [ofNodes, Cursor.functionRecord?] at ih ⊢
      cases h : c.tree.isFunctionKind <;> simp [h, ih]

/-- The loop that collects the records ends, after as many steps as there are
nodes; it comes by every position of the tree once and in order, at the node
that stands there; so the records are those of the recursion. In particular
there is one function for every function-like node, in pre-order. -/
theorem extraction_is_recursive (t : Tree) :
    ofTree src t = below src [] t
      ∧ (∀ k, (Cursor.ofTree t).after k = (Cursor.ofTree t).walk[k]?)
      ∧ (Cursor.ofTree t).walk.length = t.size
      ∧ (Cursor.ofTree t).walk.map (·.tree) = t.preorder
      ∧ (Cursor.ofTree t).walk.map (fun c => Cursor.position c.above) = t.positions
      ∧ t.positions.Pairwise (· < ·)
      ∧ (∀ p, p ∈ t.positions ↔ (t.at? p).isSome)
      ∧ (∀ c ∈ (Cursor.ofTree t).walk,
        t.at? (Cursor.position c.above) = some c.tree ∧ Cursor.rootOf c.tree c.above = t)
      ∧ (ofTree src t).functions
        = ((Cursor.ofTree t).walk.filter (·.tree.isFunctionKind)).map (·.functionRecord src)
      ∧ ((Cursor.ofTree t).walk.filter (·.tree.isFunctionKind)).map (·.tree)
        = t.preorder.filter (·.isFunctionKind) := by
  have hwalk := Cursor.walk_ofTree t
  have htrees : (Cursor.ofTree t).walk.map (·.tree) = t.preorder := by
    rw [hwalk, Cursor.map_tree_preorderFrom]
  refine ⟨?_, ?_, ?_, htrees, ?_, Tree.pairwise_positions t, Tree.mem_positions t, ?_,
    functions_ofNodes src _, ?_⟩
  · rw [ofTree, hwalk, below_eq]
  · intro k
    rw [Cursor.after_eq, hwalk, Cursor.unvisited, Cursor.ofTree, Cursor.behind, List.append_nil]
  · rw [hwalk, Cursor.length_preorderFrom]
  · rw [hwalk, Cursor.map_position_preorderFrom]
    simp [Cursor.position]
  · intro c hc
    rw [hwalk] at hc
    obtain ⟨p, hp, hat, hroot⟩ := Cursor.at?_of_mem_preorderFrom [] t hc
    have hposition : Cursor.position c.above = p := by simpa [Cursor.position] using hp
    exact ⟨hposition ▸ hat, hroot⟩
  · rw [← htrees, List.filter_map]
    rfl

end Extraction

end CodeSurvey
