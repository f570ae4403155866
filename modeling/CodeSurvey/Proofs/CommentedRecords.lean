import CodeSurvey.Proofs.Comment
import CodeSurvey.Proofs.Extraction

/-!
# Records of commented trees

Two trees, one of which is the other with comments put in (`IsCommented`), are
walked side by side. What is told of a node depends on the node (`Proofs/Comment`)
and, for a call, on the declarator around it: its names receive what the call
imports. So the walk carries along that both sides receive the same
(`sameNames_belowAmong`), and the names that end up in the records of imports,
exports and functions are the same (`names_of_isCommented`).

In front of a child that is looked at as the first one a comment does change them.
It is then taken for what is looked for, whatever the trees are around it
(`callImportRecord?_of_leading_comment` and those behind it).
-/

namespace CodeSurvey

variable {src src' : Source} {front free : Bool} {parent : Option Tree} {t u : Tree}
variable {ts us : List Tree}

/-! ## The walk -/

namespace Extraction

/-- Two extractions that agree in the names of imports, exports and parameters. -/
structure SameNames (x y : Extraction) : Prop where
  imports : x.imports = y.imports
  exports : x.exports.map (fun e => (e.name, e.kind)) = y.exports.map fun e => (e.name, e.kind)
  parameters : x.functions.map (·.parameters) = y.functions.map (·.parameters)

theorem SameNames.append {x x' y y' : Extraction} (h : SameNames x y) (h' : SameNames x' y') :
    SameNames (x ++ x') (y ++ y') where
  imports := congrArg₂ (· ++ ·) h.imports h'.imports
  exports := by
    show (x.exports ++ x'.exports).map _ = (y.exports ++ y'.exports).map _
    rw [List.map_append, List.map_append, h.exports, h'.exports]
  parameters := by
    show (x.functions ++ x'.functions).map _ = (y.functions ++ y'.functions).map _
    rw [List.map_append, List.map_append, h.parameters, h'.parameters]

theorem exports_atNode (src : Source) (c : Cursor) :
    (atNode src c).exports.map (fun e => (e.name, e.kind))
      = if c.tree.isKind .exportStatement then c.tree.exportedNames src else [] := by
  rw [atNode, Cursor.exportRecordsAt]
  split
  · rw [Tree.exportRecords, List.map_map]
    exact List.map_id _
  · rfl

theorem parameters_atNode (src : Source) (c : Cursor) :
    (atNode src c).functions.map (·.parameters)
      = if c.tree.isFunctionKind then [c.tree.parameterNames src] else [] := by
  rw [atNode, Cursor.functionRecord?]
  split <;> rfl

theorem requiredNames_child (src : Source) (t : Tree) (l : Label) (f : Option Field) (s : Span)
    (before after : List Tree) (above : List Frame) :
    (⟨t, ⟨l, f, s, before, after⟩ :: above⟩ : Cursor).requiredNames src
      = if l == .named .variableDeclarator
          && (t.field == some .value && before.all fun a => a.field != some .value)
        then (Tree.node l f s (before.reverse ++ t :: after)).patternNames src else [] := by
  have hparent : (⟨t, ⟨l, f, s, before, after⟩ :: above⟩ : Cursor).parentIsKind
      .variableDeclarator = (l == .named .variableDeclarator) := rfl
  have hholds : (⟨t, ⟨l, f, s, before, after⟩ :: above⟩ : Cursor).holdsFirst .value
      = (t.field == some .value && before.all fun a => a.field != some .value) := rfl
  rw [Cursor.requiredNames, Cursor.enclosingDeclarator?, hparent, hholds]
  cases l == .named .variableDeclarator
    && (t.field == some .value && before.all fun a => a.field != some .value) <;> rfl

theorem below_comment (src : Source) (above : List Frame) (start stop : Nat) :
    below src above (Tree.leaf .comment start stop) = empty := rfl

theorem Kept.importRecordAt? {c d : Cursor} (h : Kept src src' false parent c.tree d.tree)
    (hnames : c.requiredNames src = d.requiredNames src') :
    c.importRecordAt? src = d.importRecordAt? src' := by
  rw [Cursor.importRecordAt?, Cursor.importRecordAt?, h.label]
  split
  · exact h.importRecord?
  · exact h.callImportRecord? hnames
  · rfl

/-- A node gives the same names if it receives the same and its children give the same. -/
theorem sameNames_below {above above' : List Frame} (h : Kept src src' false parent t u)
    (hnames : (⟨t, above⟩ : Cursor).requiredNames src = (⟨u, above'⟩ : Cursor).requiredNames src')
    (hchildren : SameNames (belowAmong src t.label t.field t.span above [] t.children)
      (belowAmong src' u.label u.field u.span above' [] u.children)) :
    SameNames (below src above t) (below src' above' u) := by
  have hnode : SameNames (atNode src ⟨t, above⟩) (atNode src' ⟨u, above'⟩) := by
    refine ⟨?_, ?_, ?_⟩
    · exact congrArg Option.toList (Kept.importRecordAt? h hnames)
    · rw [exports_atNode, exports_atNode]
      simp only [h.isKind, h.exportedNames]
    · have hfunction : u.isFunctionKind = t.isFunctionKind := by
        rw [Tree.isFunctionKind, Tree.isFunctionKind, h.label]
      rw [parameters_atNode, parameters_atNode]
      simp only [hfunction, h.parameterNames]
  obtain ⟨_, _, _, _⟩ := t
  obtain ⟨_, _, _, _⟩ := u
  exact hnode.append hchildren

/-- Siblings give the same names, if a value among them receives the same. -/
theorem sameNames_belowAmong (h : Commented src src' false parent free ts us) {l : Label}
    {f : Option Field} {s s' : Span} {above above' : List Frame} {before before' : List Tree}
    (hnames : (Tree.node l f s (before.reverse ++ ts)).patternNames src
      = (Tree.node l f s' (before'.reverse ++ us)).patternNames src')
    (hvalue : (before.all fun a => a.field != some .value)
      = before'.all fun a => a.field != some .value) :
    SameNames (belowAmong src l f s above before ts)
      (belowAmong src' l f s' above' before' us) := by
  induction h generalizing l f s s' above above' before before' with
  | nil => exact ⟨rfl, rfl, rfl⟩
  | @comment parent ts us start stop h ih =>
      have hrest : SameNames (belowAmong src l f s above before ts)
          (belowAmong src' l f s' above' (Tree.leaf .comment start stop :: before') us) :=
        ih (by simpa using hnames) (hvalue.trans (Bool.true_and _).symm)
      rw [belowAmong, below_comment]
      exact hrest
  | @keep parent free t u ts us hlabel hf htext hchildren hrest ihChildren ihRest =>
      have hkept : Kept src src' false parent t u := ⟨hlabel, hf, htext, hchildren⟩
      rw [belowAmong, belowAmong]
      refine (sameNames_below hkept ?_ ?_).append (ihRest ?_ ?_)
      · rw [requiredNames_child, requiredNames_child, hf, hvalue, hnames]
      · rw [hlabel, hf]
        exact ihChildren hkept.patternNames rfl
      · simpa using hnames
      · simp [hvalue, hf]

end Extraction

/-! ## Trees with comments put in -/

/-- The second tree is the first one with comments put in. With `front` these can
stand anywhere, else not in front of a child that is looked at as the first one. -/
def IsCommented (src src' : Source) (front : Bool) (t u : Tree) : Prop :=
  Kept src src' front none t u

/-- Comments leave the names of imports, exports and parameters alone wherever they
do not stand in front of a child that is looked at as the first one. -/
theorem names_of_isCommented (src src' : Source) (t u : Tree)
    (h : IsCommented src src' false t u) :
    (Extraction.ofTree src t).imports = (Extraction.ofTree src' u).imports
      ∧ (Extraction.ofTree src t).exports.map (fun e => (e.name, e.kind))
        = (Extraction.ofTree src' u).exports.map (fun e => (e.name, e.kind))
      ∧ (Extraction.ofTree src t).functions.map (·.parameters)
        = (Extraction.ofTree src' u).functions.map (·.parameters) := by
  have hchildren : Extraction.SameNames
      (Extraction.belowAmong src t.label t.field t.span [] [] t.children)
      (Extraction.belowAmong src' u.label u.field u.span [] [] u.children) := by
    rw [h.label, h.field]
    exact Extraction.sameNames_belowAmong h.children h.patternNames rfl
  have hbelow : Extraction.SameNames (Extraction.below src [] t) (Extraction.below src' [] u) :=
    Extraction.sameNames_below h rfl hchildren
  rw [← Extraction.ofTree_eq_below, ← Extraction.ofTree_eq_below] at hbelow
  exact ⟨hbelow.imports, hbelow.exports, hbelow.parameters⟩

/-- A call of `require` with the given nodes behind the opening parenthesis. -/
def requireCall (stop : Nat) (inner : List Tree) : Tree :=
  .node (.named .callExpression) none ⟨0, stop⟩
    [.node (.named .identifier) (some .function) ⟨0, 7⟩ [],
      .node (.named .arguments) (some .arguments) ⟨7, stop⟩ (Tree.ofToken "(" 7 8 :: inner)]

/-- The literal of a module whose name has one letter. -/
def moduleLiteral (start : Nat) : Tree :=
  .node (.named .stringLiteral) none ⟨start, start + 3⟩
    [Tree.ofToken "'" start (start + 1), Tree.leaf .stringFragment (start + 1) (start + 2),
      Tree.ofToken "'" (start + 2) (start + 3)]

def plainCall : Tree := requireCall 12 [moduleLiteral 8, Tree.ofToken ")" 11 12]

def callWithCommentBehind : Tree :=
  requireCall 16 [moduleLiteral 8, Tree.leaf .comment 11 15, Tree.ofToken ")" 15 16]

theorem commented_moduleLiteral (start start' : Nat) :
    Commented src src' front (some (moduleLiteral start)) free (moduleLiteral start).children
      (moduleLiteral start').children := by
  refine .keep rfl rfl (fun h => nomatch h) (.nil _ _) ?_
  refine .keep rfl rfl (fun h => nomatch h) (.nil _ _) ?_
  exact .keep rfl rfl (fun h => nomatch h) (.nil _ _) (.nil _ _)

theorem imports_plainCall :
    (Extraction.ofTree (.ofString "require('x')") plainCall).imports = [⟨"x", [], .require⟩] := by
  rw [Extraction.ofTree_eq_below]
  rfl

theorem names_of_callWithCommentBehind :
    IsCommented (.ofString "require('x')") (.ofString "require('x'/**/)") false
        plainCall callWithCommentBehind
      ∧ (Extraction.ofTree (.ofString "require('x'/**/)") callWithCommentBehind).imports
        = [⟨"x", [], .require⟩] := by
  have hcommented : IsCommented (.ofString "require('x')") (.ofString "require('x'/**/)") false
      plainCall callWithCommentBehind := by
    refine ⟨rfl, rfl, (fun h => nomatch h), ?_⟩
    refine .keep rfl rfl (fun _ => by decide +kernel) (.nil _ _) ?_
    refine .keep rfl rfl (fun h => nomatch h) ?_ (.nil _ _)
    refine .keep rfl rfl (fun h => nomatch h) (.nil _ _) ?_
    refine .keep rfl rfl (fun _ => by decide +kernel) (commented_moduleLiteral 8 8) ?_
    exact .comment 11 15 (.keep rfl rfl (fun h => nomatch h) (.nil _ _) (.nil _ _))
  exact ⟨hcommented, (names_of_isCommented _ _ _ _ hcommented).1 ▸ imports_plainCall⟩

/-! ## Comments in front -/

theorem Tree.boundNamesOfFirstNamed_eq (src : Source) (ts : List Tree) :
    boundNamesOfFirstNamed src ts = (ts.find? (·.isNamed)).elim [] (·.boundNames src) := by
  induction ts with
  | nil => rfl
  | cons t ts ih =>
      rw [boundNamesOfFirstNamed]
      cases hn : t.isNamed with
      | true => simp [hn]
      | false => simpa [hn] using ih

section LeadingComment

variable {comment : Tree} (hfirst : t.namedChildren.head? = some comment)
variable (hcomment : comment.isKind .comment = true)

include hfirst hcomment

/-- A call imports nothing if a comment is its first argument. -/
theorem callImportRecord?_of_leading_comment (src : Source) {c : Cursor}
    (hargs : c.tree.child? .arguments = some t) : c.callImportRecord? src = none := by
  have hlabel : comment.label = .named .comment := eq_of_beq hcomment
  have hliteral : comment.isLiteralText = false := by rw [Tree.isLiteralText, hlabel]
  rw [Cursor.callImportRecord?]
  split
  · rfl
  · rw [hargs, Option.bind_some, hfirst]
    simp [hliteral]

theorem boundNames_of_leading_comment (src : Source) (hkind : t.isKind .restPattern = true) :
    t.boundNames src = [] := by
  have hlabel : comment.label = .named .comment := eq_of_beq hcomment
  have hrest : t.label = .named .restPattern := eq_of_beq hkind
  rw [Tree.namedChildren, List.head?_filter] at hfirst
  rw [Tree.boundNames_eq, hrest]
  show Tree.boundNamesOfFirstNamed src t.children = []
  rw [Tree.boundNamesOfFirstNamed_eq, hfirst, Option.elim_some, Tree.boundNames_eq, hlabel]

theorem parameterName_of_leading_comment (src : Source) (hkind : t.isKind .restPattern = true) :
    t.parameterName src = "..." ++ Tree.unnamedParameter := by
  have hrest : t.label = .named .restPattern := eq_of_beq hkind
  have hnone : comment.identifierText? src = none := by
    rw [Tree.identifierText?, Tree.isKind, eq_of_beq hcomment]
    rfl
  rw [Tree.parameterName_eq, hrest]
  show t.patternName src = _
  rw [Tree.patternName, hrest]
  simp only [hfirst, Option.bind_some, hnone, Option.getD_none]

omit hcomment in
/-- A namespace is exported by the text of what stands in front. -/
theorem exportedNames_of_leading (src : Source) {e : Tree}
    (hdefault : e.children.any (·.isToken "default") = false)
    (hdeclaration : e.child? .declaration = none) (hclause : e.childOfKind? .exportClause = none)
    (hname : e.childOfKind? .namespaceExport = some t) :
    e.exportedNames src = [(comment.unquoted src, .named)] := by
  rw [Tree.exportedNames, hdefault]
  simp only [hdeclaration, hclause, hname, hfirst, Option.map_some, Option.getD_some]
  rfl

end LeadingComment

def callWithCommentInFront : Tree :=
  requireCall 16 [Tree.leaf .comment 8 12, moduleLiteral 12, Tree.ofToken ")" 15 16]

/-- So comments cannot be put in anywhere. -/
theorem imports_callWithCommentInFront :
    IsCommented (.ofString "require('x')") (.ofString "require(/**/'x')") true
        plainCall callWithCommentInFront
      ∧ (Extraction.ofTree (.ofString "require('x')") plainCall).imports = [⟨"x", [], .require⟩]
      ∧ (Extraction.ofTree (.ofString "require(/**/'x')") callWithCommentInFront).imports = [] := by
  refine ⟨⟨rfl, rfl, (fun h => nomatch h), ?_⟩, imports_plainCall, ?_⟩
  · refine .keep rfl rfl (fun _ => by decide +kernel) (.nil _ _) ?_
    refine .keep rfl rfl (fun h => nomatch h) ?_ (.nil _ _)
    refine .keep rfl rfl (fun h => nomatch h) (.nil _ _) (.comment 8 12 ?_)
    refine .keep rfl rfl (fun _ => by decide +kernel) (commented_moduleLiteral 8 12) ?_
    exact .keep rfl rfl (fun h => nomatch h) (.nil _ _) (.nil _ _)
  · rw [Extraction.ofTree_eq_below]
    rfl

end CodeSurvey
