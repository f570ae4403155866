import CodeSurvey.Proofs.CommentedRecords
import CodeSurvey.Proofs.Complexity
import CodeSurvey.Proofs.TreeShape

/-!
# Trees that are moved in a text

When a text grows in front of a tree, the tree stands further back (`Tree.moved`). What is
told of a node by itself does not depend on where the node stands, but on the labels, the
fields, the texts and the lines in the tree below it. So it stays the same if all nodes of
the tree still read the same and are still on the same lines (`Tree.ReadsSame`).

Names of parameters, imports and exports are settled already: a tree that is moved is one
into which no comments are put (`ReadsSame.kept`). What is left are the lines, the return
type, the complexity and the members of classes.
-/

namespace CodeSurvey

/-! ## Moving -/

def Span.moved (k : Nat) (s : Span) : Span := ⟨s.start + k, s.stop + k⟩

namespace Tree

mutual

/-- The tree with all its nodes `k` characters further back. -/
def moved (k : Nat) : Tree → Tree
  | .node l f s cs => .node l f (s.moved k) (movedAll k cs)

def movedAll (k : Nat) : List Tree → List Tree
  | [] => []
  | t :: ts => t.moved k :: movedAll k ts

end

variable {k : Nat} {t u : Tree} {ts : List Tree}

theorem movedAll_eq_map (k : Nat) (ts : List Tree) : movedAll k ts = ts.map (moved k) := by
  induction ts with
  | nil => rfl
  | cons t ts ih => rw [movedAll, ih, List.map_cons]

mutual

theorem moved_zero : (t : Tree) → t.moved 0 = t
  | .node l f s cs => by
      rw [moved, movedAll_zero cs]
      rfl

theorem movedAll_zero : (ts : List Tree) → movedAll 0 ts = ts
  | [] => rfl
  | t :: ts => by rw [movedAll, moved_zero t, movedAll_zero ts]

end

theorem map_moved_zero (ts : List Tree) : ts.map (moved 0) = ts := by
  rw [← movedAll_eq_map, movedAll_zero]

theorem label_moved (k : Nat) (t : Tree) : (t.moved k).label = t.label := by
  obtain ⟨l, f, s, cs⟩ := t
  rfl

theorem field_moved (k : Nat) (t : Tree) : (t.moved k).field = t.field := by
  obtain ⟨l, f, s, cs⟩ := t
  rfl

theorem span_moved (k : Nat) (t : Tree) : (t.moved k).span = t.span.moved k := by
  obtain ⟨l, f, s, cs⟩ := t
  rfl

theorem children_moved (k : Nat) (t : Tree) : (t.moved k).children = t.children.map (moved k) := by
  obtain ⟨l, f, s, cs⟩ := t
  exact movedAll_eq_map k cs

theorem moved_withField (k : Nat) (f : Field) (t : Tree) :
    (t.withField f).moved k = (t.moved k).withField f := by
  obtain ⟨l, g, s, cs⟩ := t
  rfl

theorem isKind_moved (k : Nat) (t : Tree) (kind : NodeKind) :
    (t.moved k).isKind kind = t.isKind kind := by
  rw [isKind, isKind, label_moved]

theorem isNamed_moved (k : Nat) (t : Tree) : (t.moved k).isNamed = t.isNamed := by
  rw [isNamed, isNamed, label_moved]

theorem child?_moved (k : Nat) (t : Tree) (f : Field) :
    (t.moved k).child? f = (t.child? f).map (moved k) := by
  rw [child?, child?, children_moved, List.find?_map]
  simp only [Function.comp_def, field_moved]

theorem childOfKind?_moved (k : Nat) (t : Tree) (kind : NodeKind) :
    (t.moved k).childOfKind? kind = (t.childOfKind? kind).map (moved k) := by
  rw [childOfKind?, childOfKind?, children_moved, List.find?_map]
  simp only [Function.comp_def, isKind_moved]

theorem namedChildren_moved (k : Nat) (t : Tree) :
    (t.moved k).namedChildren = t.namedChildren.map (moved k) := by
  rw [namedChildren, namedChildren, children_moved, List.filter_map]
  simp only [Function.comp_def, isNamed_moved]

mutual

theorem preorder_moved (k : Nat) : (t : Tree) → (t.moved k).preorder = t.preorder.map (moved k)
  | .node l f s cs => by
      rw [moved, preorder, preorderOfAll_moved k cs, preorder, List.map_cons, moved]

theorem preorderOfAll_moved (k : Nat) : (ts : List Tree) →
    preorderOfAll (movedAll k ts) = (preorderOfAll ts).map (moved k)
  | [] => rfl
  | t :: ts => by
      rw [movedAll, preorderOfAll, preorder_moved k t, preorderOfAll_moved k ts, preorderOfAll,
        List.map_append]

end

end Tree

/-! ## Reading the same -/

/-- What stands in the span, and on which lines, is the same `k` characters further back. -/
structure Span.ReadsSame (src src' : Source) (k : Nat) (s : Span) : Prop where
  text : src'.slice (s.start + k) (s.stop + k) = src.slice s.start s.stop
  startLine : src'.line (s.start + k) = src.line s.start
  endLine : src'.line (s.stop + k) = src.line s.stop

namespace Tree

/-- All nodes of the tree read the same when they are moved, and stay on their lines. -/
def ReadsSame (src src' : Source) (k : Nat) (t : Tree) : Prop :=
  ∀ u ∈ t.preorder, u.span.ReadsSame src src' k

variable {src src' : Source} {k : Nat} {t u : Tree} {ts : List Tree}

theorem readsSame_node {l : Label} {f : Option Field} {s : Span} {cs : List Tree} :
    (node l f s cs).ReadsSame src src' k
      ↔ s.ReadsSame src src' k ∧ ∀ c ∈ cs, c.ReadsSame src src' k :=
  forall_mem_preorder

theorem readsSame_withField {f : Field} :
    (t.withField f).ReadsSame src src' k ↔ t.ReadsSame src src' k := by
  obtain ⟨l, g, s, cs⟩ := t
  exact readsSame_node.trans readsSame_node.symm

namespace ReadsSame

variable (h : t.ReadsSame src src' k)

include h

theorem root : t.span.ReadsSame src src' k := h t t.mem_preorder_self

theorem child (hu : u ∈ t.children) : u.ReadsSame src src' k :=
  fun v hv => h v (mem_preorder_trans t (mem_preorder_of_mem_children hu) hv)

theorem namedChild (hu : u ∈ t.namedChildren) : u.ReadsSame src src' k :=
  h.child (List.mem_filter.mp hu).1

theorem child? {f : Field} (hu : t.child? f = some u) : u.ReadsSame src src' k :=
  h.child (List.mem_of_find?_eq_some hu)

theorem childOfKind? {kind : NodeKind} (hu : t.childOfKind? kind = some u) :
    u.ReadsSame src src' k := h.child (List.mem_of_find?_eq_some hu)

theorem text : (t.moved k).text src' = t.text src := by
  rw [Tree.text, span_moved]
  exact h.root.text

theorem startLine : (t.moved k).startLine src' = t.startLine src := by
  rw [Tree.startLine, span_moved]
  exact h.root.startLine

theorem endLine : (t.moved k).endLine src' = t.endLine src := by
  rw [Tree.endLine, span_moved]
  exact h.root.endLine

end ReadsSame

/-! ## Names -/

mutual

/-- A tree that is moved is the tree with no comments put in. -/
theorem ReadsSame.kept (front : Bool) (parent : Option Tree) : (t : Tree) →
    t.ReadsSame src src' k → Kept src src' front parent t (t.moved k)
  | .node l f s cs, h => by
      refine ⟨rfl, rfl, fun _ => h.text, ?_⟩
      rw [moved]
      exact commented_movedAll front _ cs (readsSame_node.mp h).2

theorem commented_movedAll (front : Bool) (parent : Option Tree) {free : Bool} : (ts : List Tree) →
    (∀ t ∈ ts, t.ReadsSame src src' k) → Commented src src' front parent free ts (movedAll k ts)
  | [], _ => .nil _ _
  | .node l f s cs :: ts, h => by
      obtain ⟨ht, hts⟩ := List.forall_mem_cons.mp h
      have hkept := ReadsSame.kept front parent (.node l f s cs) ht
      rw [movedAll]
      exact .keep hkept.label hkept.field hkept.text hkept.children
        (commented_movedAll front parent ts hts)

end

/-! ## What is told of a node by itself -/

theorem isFunctionKind_moved (k : Nat) (t : Tree) :
    (t.moved k).isFunctionKind = t.isFunctionKind := by
  rw [isFunctionKind, isFunctionKind, label_moved]

theorem isClassKind_moved (k : Nat) (t : Tree) : (t.moved k).isClassKind = t.isClassKind := by
  rw [isClassKind, isClassKind, label_moved]

theorem hasAsyncToken_moved (k : Nat) (t : Tree) :
    (t.moved k).hasAsyncToken = t.hasAsyncToken := by
  rw [hasAsyncToken, hasAsyncToken, children_moved, List.any_map]
  simp only [Function.comp_def, isToken, label_moved]

namespace ReadsSame

variable (h : t.ReadsSame src src' k)

include h

/-- The text of a child that is looked up reads the same. -/
theorem map_text_child? (f : Field) :
    ((t.moved k).child? f).map (·.text src') = (t.child? f).map (·.text src) := by
  rw [child?_moved]
  cases hu : t.child? f with
  | none => rfl
  | some u => exact congrArg some (h.child? hu).text

theorem identifierText? : (t.moved k).identifierText? src' = t.identifierText? src := by
  rw [Tree.identifierText?, Tree.identifierText?, isKind_moved, h.text]

theorem returnTypeText? : (t.moved k).returnTypeText? src' = t.returnTypeText? src := by
  rw [Tree.returnTypeText?, Tree.returnTypeText?, child?_moved]
  cases hu : t.child? .returnType with
  | none => rfl
  | some u => simp only [Option.map_some, (h.child? hu).text]

theorem isDecision : (t.moved k).isDecision src' = t.isDecision src := by
  rw [Tree.isDecision, Tree.isDecision, label_moved, child?_moved, child?_moved]
  split
  case h_8 => exact Option.isSome_map
  case h_9 =>
    cases hu : t.child? .operator with
    | none => rfl
    | some u => simp only [Option.map_some, (h.child? hu).text]
  all_goals rfl

theorem complexity : (t.moved k).complexity src' = t.complexity src := by
  have hdecisions : (t.moved k).decisions src' = t.decisions src := by
    rw [decisions, decisions, preorder_moved, List.countP_map]
    refine List.countP_congr fun u hu => ?_
    have hbelow : u.ReadsSame src src' k := fun v hv => h v (mem_preorder_trans t hu hv)
    rw [Function.comp_apply, hbelow.isDecision]
  rw [complexity_eq, complexity_eq, hdecisions]

theorem publicKey? (f : Field) : (t.moved k).publicKey? src' f = t.publicKey? src f := by
  rw [Tree.publicKey?, Tree.publicKey?, child?_moved]
  cases hu : t.child? f with
  | none => rfl
  | some u => simp only [Option.map_some, isKind_moved, (h.child? hu).text]

theorem methodName? : (t.moved k).methodName? src' = t.methodName? src := by
  rw [Tree.methodName?, Tree.methodName?, isKind_moved, h.publicKey?]

theorem fieldName? : (t.moved k).fieldName? src' = t.fieldName? src := by
  rw [Tree.fieldName?, Tree.fieldName?, isKind_moved, isKind_moved, h.publicKey?, h.publicKey?]

theorem superclassText? : (t.moved k).superclassText? src' = t.superclassText? src := by
  rw [Tree.superclassText?, Tree.superclassText?, isKind_moved, isKind_moved, h.text]

theorem interfaceName? : (t.moved k).interfaceName? src' = t.interfaceName? src := by
  rw [Tree.interfaceName?, Tree.interfaceName?, label_moved, h.map_text_child?, h.text]

/-- What is gathered from the named children is the same if each of them gives the same. -/
theorem filterMap_namedChildren {α : Type} {f f' : Tree → Option α}
    (hf : ∀ u : Tree, u.ReadsSame src src' k → f' (u.moved k) = f u) :
    (t.moved k).namedChildren.filterMap f' = t.namedChildren.filterMap f := by
  rw [namedChildren_moved, List.filterMap_map]
  exact List.filterMap_congr fun u hu => hf u (h.namedChild hu)

theorem heritageNames : (t.moved k).heritageNames src' = t.heritageNames src := by
  rw [Tree.heritageNames, Tree.heritageNames, namedChildren_moved, List.foldl_map]
  refine List.foldl_ext _ _ _ fun names clause hclause => ?_
  have hreads := h.namedChild hclause
  have hvalue : ((clause.moved k).child? .value).bind (·.superclassText? src')
      = (clause.child? .value).bind (·.superclassText? src) := by
    rw [child?_moved]
    cases hu : clause.child? .value with
    | none => rfl
    | some u => exact (hreads.child? hu).superclassText?
  simp only [label_moved, hvalue, hreads.superclassText?,
    hreads.filterMap_namedChildren fun _ hu => hu.interfaceName?]

end ReadsSame

end Tree

/-! ## Records -/

namespace Cursor

/-- The target of the declarator that the node is the value of. -/
def target? (c : Cursor) : Option Tree := c.enclosingDeclarator?.bind fun d => d.tree.child? .name

/-- What a record takes from the surroundings of its node, but for whether the node is
exported, is the same at both cursors. -/
structure SameSurroundings (src src' : Source) (k : Nat) (c c' : Cursor) : Prop where
  target : c'.target? = c.target?.map (Tree.moved k)
  readsTarget : ∀ p, c.target? = some p → p.ReadsSame src src' k
  docComment : c'.docComment? src' = c.docComment? src

variable {src src' : Source} {k : Nat} {t : Tree} {above above' : List Frame}

theorem functionName_eq (src : Source) (c : Cursor) : c.functionName src
    = ((c.tree.child? .name).map (·.text src)).getD
      ((c.target?.bind (·.identifierText? src)).getD "anonymous") := by
  rw [functionName, target?, Option.bind_assoc]
  cases c.tree.child? .name <;> rfl

theorem requiredNames_eq (src : Source) (c : Cursor) :
    c.requiredNames src = (c.target?.map (·.boundNames src)).getD [] := by
  rw [requiredNames, target?]
  cases c.enclosingDeclarator?.bind fun d => d.tree.child? .name <;> rfl

section Records

variable (h : t.ReadsSame src src' k)
variable (hs : SameSurroundings src src' k ⟨t, above⟩ ⟨t.moved k, above'⟩)

include h hs

theorem functionName_moved :
    (⟨t.moved k, above'⟩ : Cursor).functionName src' = (⟨t, above⟩ : Cursor).functionName src := by
  have htarget : ((⟨t.moved k, above'⟩ : Cursor).target?.bind (·.identifierText? src'))
      = (⟨t, above⟩ : Cursor).target?.bind (·.identifierText? src) := by
    rw [hs.target]
    cases hp : (⟨t, above⟩ : Cursor).target? with
    | none => rfl
    | some p => exact (hs.readsTarget p hp).identifierText?
  rw [functionName_eq, functionName_eq, htarget]
  dsimp only
  rw [h.map_text_child?]

theorem functionRecord_moved : (⟨t.moved k, above'⟩ : Cursor).functionRecord src'
    = { (⟨t, above⟩ : Cursor).functionRecord src with
        isExported := (⟨t.moved k, above'⟩ : Cursor).isExported } := by
  rw [functionRecord, functionRecord, functionName_moved h hs, hs.docComment]
  dsimp only
  rw [← (h.kept false none t).parameterNames, h.returnTypeText?, h.startLine,
    h.endLine, h.complexity, Tree.hasAsyncToken_moved]

/-- The record of a class, but for whether it is exported. An expression has one only if it
is, so there both must be exported or neither. -/
theorem classRecord?_moved (hclass : t.isKind .classExpression = false
      ∨ (⟨t.moved k, above'⟩ : Cursor).isExported = (⟨t, above⟩ : Cursor).isExported) :
    (⟨t.moved k, above'⟩ : Cursor).classRecord? src'
      = ((⟨t, above⟩ : Cursor).classRecord? src).map fun r =>
        { r with isExported := (⟨t.moved k, above'⟩ : Cursor).isExported } := by
  have hsilent : (t.isKind .classExpression && !(⟨t.moved k, above'⟩ : Cursor).isExported)
      = (t.isKind .classExpression && !(⟨t, above⟩ : Cursor).isExported) := by
    rcases hclass with hkind | hsame
    · rw [hkind, Bool.false_and, Bool.false_and]
    · rw [hsame]
  rw [classRecord?, classRecord?]
  dsimp only
  rw [Tree.isKind_moved, hsilent]
  split
  · rfl
  · rw [hs.docComment, h.map_text_child?, h.startLine, h.endLine, Tree.child?_moved,
      Tree.childOfKind?_moved]
    cases hbody : t.child? .body with
    | none => rfl
    | some body =>
        have hreads := h.child? hbody
        simp only [Option.map_some, hreads.filterMap_namedChildren fun _ hu => hu.methodName?,
          hreads.filterMap_namedChildren fun _ hu => hu.fieldName?]
        cases hheritage : t.childOfKind? .classHeritage with
        | none => rfl
        | some heritage => simp only [Option.map_some, (h.childOfKind? hheritage).heritageNames]

theorem importRecordAt?_moved :
    (⟨t.moved k, above'⟩ : Cursor).importRecordAt? src'
      = (⟨t, above⟩ : Cursor).importRecordAt? src := by
  have hnames : (⟨t, above⟩ : Cursor).requiredNames src
      = (⟨t.moved k, above'⟩ : Cursor).requiredNames src' := by
    rw [requiredNames_eq, requiredNames_eq, hs.target]
    cases hp : (⟨t, above⟩ : Cursor).target? with
    | none => rfl
    | some p =>
        have hkept := (hs.readsTarget p hp).kept false none p
        exact congrArg (Option.getD · []) (congrArg some hkept.boundNames)
  exact (Extraction.Kept.importRecordAt? (h.kept false none t) hnames).symm

omit hs in
theorem exportRecordsAt_moved :
    (⟨t.moved k, above'⟩ : Cursor).exportRecordsAt src'
      = (⟨t, above⟩ : Cursor).exportRecordsAt src := by
  have hnames := (h.kept false none t).exportedNames
  rw [exportRecordsAt, exportRecordsAt]
  dsimp only
  rw [Tree.isKind_moved, Tree.exportRecords, Tree.exportRecords, ← hnames, h.startLine]

end Records

end Cursor

namespace Extraction

/-- The records with all functions and classes exported, or none of them. -/
def withExported (b : Bool) (x : Extraction) : Extraction :=
  { x with
    functions := x.functions.map fun r => { r with isExported := b }
    classes := x.classes.map fun r => { r with isExported := b } }

variable {src src' : Source} {k : Nat} {t : Tree} {above above' : List Frame}

/-- All functions and classes at a node are exported if it is, and else none. -/
theorem withExported_atNode (src : Source) (c : Cursor) :
    (atNode src c).withExported c.isExported = atNode src c := by
  have hfunctions : (atNode src c).functions.map (fun r => { r with isExported := c.isExported })
      = (atNode src c).functions := by
    simp only [atNode, Cursor.functionRecord?]
    split <;> rfl
  have hclasses : (atNode src c).classes.map (fun r => { r with isExported := c.isExported })
      = (atNode src c).classes := by
    simp only [atNode, Cursor.classRecordAt?, Cursor.classRecord?]
    split
    · split
      · rfl
      · cases c.tree.child? .body <;> rfl
    · rfl
  rw [withExported, hfunctions, hclasses]

/-- The records of a node that is moved, if its surroundings tell the same. -/
theorem atNode_moved (h : t.ReadsSame src src' k)
    (hs : Cursor.SameSurroundings src src' k ⟨t, above⟩ ⟨t.moved k, above'⟩)
    (hclass : t.isKind .classExpression = false
      ∨ (⟨t.moved k, above'⟩ : Cursor).isExported = (⟨t, above⟩ : Cursor).isExported) :
    atNode src' ⟨t.moved k, above'⟩
      = (atNode src ⟨t, above⟩).withExported (⟨t.moved k, above'⟩ : Cursor).isExported := by
  have hfunctions := Cursor.functionRecord_moved h hs
  have hclasses := Cursor.classRecord?_moved h hs hclass
  simp only [atNode, withExported, Cursor.functionRecord?, Cursor.classRecordAt?,
    Tree.isFunctionKind_moved, Tree.isClassKind_moved, hfunctions, hclasses,
    Cursor.importRecordAt?_moved h hs]
  congr 1
  · split <;> rfl
  · split
    · cases (⟨t, above⟩ : Cursor).classRecord? src <;> rfl
    · rfl
  · exact Cursor.exportRecordsAt_moved h

end Extraction

end CodeSurvey
