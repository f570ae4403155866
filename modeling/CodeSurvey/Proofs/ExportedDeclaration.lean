import CodeSurvey.Proofs.Insertion
import CodeSurvey.Proofs.Surroundings

/-!
# Exporting a declaration

A declaration at the top of a file is put into an export statement. The function or class
that it is becomes exported, and the statement has records for its names. No other record
changes, wherever it comes from (`ofTree_exporting`).

For the siblings the statement is one node in the place of another one (`exists_around`).
Within the declaration the statement is passed over on the way up (`belowAmong_inExport`), and
the declaration itself looks at its parent only for whether it is exported
(`atNode_inExport`).
-/

namespace CodeSurvey

/-! ## The declaration -/

/-- The export statement of a declaration, which is moved back to make room for the keyword. -/
def Tree.inExport (k : Nat) (D : Tree) : Tree :=
  .node (.named .exportStatement) none ⟨D.span.start, D.span.stop + k⟩
    [.ofToken "export" D.span.start (D.span.start + 6), (D.moved k).withField .declaration]

/-- The records of an export of the declaration, one for each of its names. -/
def Tree.declaredExports (src : Source) (D : Tree) : List ExportRecord :=
  (D.declaredNames src).map fun name => ⟨name, .named, D.startLine src⟩

section Declaration

variable {src src' : Source} {k : Nat} {D : Tree} {P P' : Frame}
variable (hD : D.label.introducesNames = true) (hreads : D.ReadsSame src src' k)
variable (hP : P.label = .named .program)
variable (hdoc : Cursor.docBefore src' [P'] = Cursor.docBefore src [P])

include hD

theorem Tree.exportsDeclaration_inExport :
    (D.inExport k).ExportsDeclaration ((D.moved k).withField .declaration) where
  isExport := rfl
  child := by
    obtain ⟨l, f, s, cs⟩ := D
    rfl
  named := by
    have htoken : ((D.moved k).withField .declaration).isToken "default" = false := by
      rw [isToken, label_withField, label_moved]
      exact beq_false_of_ne (Label.ne_token_of_introducesNames hD _)
    show (_ || (((D.moved k).withField .declaration).isToken "default" || false)) = false
    rw [htoken]
    rfl

include hreads

/-- The names of the declaration are its names where it was. -/
theorem Tree.exportRecords_inExport (hline : src'.line D.span.start = src.line D.span.start) :
    (D.inExport k).exportRecords src' = D.declaredExports src := by
  have hkept : Kept src src' false none (D.withField .declaration)
      ((D.withField .declaration).moved k) := (readsSame_withField.mpr hreads).kept false none
  have hnames : ((D.moved k).withField .declaration).declaredNames src' = D.declaredNames src := by
    rw [← moved_withField, ← hkept.declaredNames (field_withField _ _), declaredNames_withField]
  rw [exportRecords_of_declaration (exportsDeclaration_inExport hD), hnames, declaredExports]
  refine List.map_congr_left fun name _ => ?_
  show ExportRecord.mk _ _ (src'.line D.span.start) = _
  rw [hline]
  rfl

namespace Extraction

omit hreads in
theorem exports_atNode_of_introducesNames {above : List Frame} :
    (atNode src ⟨D, above⟩).exports = [] :=
  if_neg fun hkind => Label.ne_of_introducesNames hD rfl (eq_of_beq hkind)

include hP hdoc

/-- The function or class that the declaration is becomes exported, and stays the same in
all else. -/
theorem atNode_inExport {E : Frame} (hE : E.label = .named .exportStatement) :
    atNode src' ⟨(D.moved k).withField .declaration, [E, P']⟩
      = (atNode src ⟨D, [P]⟩).withExported true := by
  have hnotValue : E.label ≠ .named .variableDeclarator := by
    rw [hE]
    decide
  have hnotValue' : P.label ≠ .named .variableDeclarator := by
    rw [hP]
    decide
  have hreads' : (D.withField .declaration).ReadsSame src src' k :=
    Tree.readsSame_withField.mpr hreads
  have hsame : Cursor.SameSurroundings src src' k ⟨D.withField .declaration, [P]⟩
      ⟨(D.withField .declaration).moved k, [E, P']⟩ := by
    have htarget : (⟨D.withField .declaration, [P]⟩ : Cursor).target? = none := by
      rw [Cursor.target?, Cursor.enclosingDeclarator?_of_ne hnotValue']
      rfl
    refine ⟨?_, fun p hp => ?_, ?_⟩
    · rw [htarget, Cursor.target?, Cursor.enclosingDeclarator?_of_ne hnotValue]
      rfl
    · rw [htarget] at hp
      cases hp
    · rw [Cursor.docComment?_of_ne hnotValue, Cursor.docComment?_of_ne hnotValue',
        Cursor.declarationDoc_export hE, Cursor.declarationDoc_of_ne (by rw [hP]; decide), hdoc]
  have hexported : (⟨(D.withField .declaration).moved k, [E, P']⟩ : Cursor).isExported = true := by
    show E.isKind .exportStatement = true
    rw [Frame.isKind, hE]
    rfl
  have hclass : (D.withField .declaration).isKind .classExpression = false := by
    rw [Tree.isKind, Tree.label_withField]
    exact beq_false_of_ne (Label.ne_of_introducesNames hD rfl)
  rw [← Tree.moved_withField, atNode_moved hreads' hsame (.inl hclass), hexported,
    atNode_withField src hnotValue']

/-- Nothing in the declaration has another record. -/
theorem belowAmong_inExport {E : Frame} (hE : E.label = .named .exportStatement) :
    belowAmong src' D.label (some .declaration) (D.span.moved k) [E, P'] []
        (Tree.movedAll k D.children)
      = belowAmong src D.label D.field D.span [P] [] D.children := by
  have houter : Cursor.declarationDoc src' [E, P'] = Cursor.declarationDoc src [P] := by
    rw [Cursor.declarationDoc_export hE, Cursor.declarationDoc_of_ne (by rw [hP]; decide), hdoc]
  exact belowAmong_moved D.children (fun _ hu => hreads.child hu) (List.forall_mem_nil _)
    fun _ _ hframe => .declared hframe hD houter

theorem below_declaration {E : Frame} (hE : E.label = .named .exportStatement) :
    below src' [E, P'] ((D.moved k).withField .declaration)
      = (atNode src ⟨D, [P]⟩).withExported true
        ++ belowAmong src D.label D.field D.span [P] [] D.children := by
  rw [← atNode_inExport hD hreads hP hdoc hE, ← belowAmong_inExport hD hreads hP hdoc hE]
  obtain ⟨l, f, s, cs⟩ := D
  rfl

/-- The export statement has the records of the declaration in it, and those of its names. -/
theorem below_inExport (hline : src'.line D.span.start = src.line D.span.start) :
    below src' [P'] (D.inExport k)
      = { (atNode src ⟨D, [P]⟩).withExported true with exports := D.declaredExports src }
        ++ belowAmong src D.label D.field D.span [P] [] D.children := by
  have hstatement : atNode src' ⟨D.inExport k, [P']⟩
      = { empty with exports := D.declaredExports src } := by
    rw [← Tree.exportRecords_inExport hD hreads hline]
    rfl
  have hnone : ((atNode src ⟨D, [P]⟩).withExported true).exports = [] :=
    exports_atNode_of_introducesNames hD
  rw [Tree.inExport, below, ← Tree.inExport, hstatement, belowAmong, belowAmong, belowAmong,
    below_declaration hD hreads hP hdoc rfl, append_empty]
  show _ ++ (empty ++ (_ ++ _)) = _
  rw [empty_append, ← append_assoc, append_exports, hnone, List.append_nil]

end Extraction

end Declaration

/-! ## The program -/

/-- A declaration at the top of a program. -/
structure TopDeclaration where
  field : Option Field
  span : Span
  before : List Tree
  declaration : Tree
  after : List Tree
  introduces : declaration.label.introducesNames = true

/-- The keyword, and what stands between it and the declaration. -/
def exportText (gap : List Char) : List Char := "export".toList ++ gap

namespace TopDeclaration

variable (d : TopDeclaration)

def program : Tree := .node (.named .program) d.field d.span (d.before ++ d.declaration :: d.after)

/-- The cursor at the declaration. -/
def cursor : Cursor :=
  ⟨d.declaration, [⟨.named .program, d.field, d.span, d.before.reverse, d.after⟩]⟩

/-- The text in which the declaration is exported. -/
def exportingText (src : Source) (gap : List Char) : Source :=
  src.insertAt d.declaration.span.start (exportText gap)

/-- The program in which the declaration is exported. -/
def exporting (gap : List Char) : Tree :=
  .node (.named .program) d.field ⟨d.span.start, d.span.stop + (exportText gap).length⟩
    (d.before ++ d.declaration.inExport (exportText gap).length
      :: d.after.map (Tree.moved (exportText gap).length))

variable {d} {src : Source} {gap : List Char}

theorem start_le_size (h : d.program.IsTreeOf src) : d.declaration.span.start ≤ src.size := by
  obtain ⟨-, hD, hafter⟩ := Tree.areLaidOut_append_cons.mp h.isLaidOut
  exact Nat.le_trans (Tree.start_le_stop _ hD)
    (Nat.le_trans (Tree.le_of_areLaidOut d.after hafter) h.stop_le)

/-- The program in which the declaration is exported is a tree of its text. -/
theorem isTreeOf_exporting (h : d.program.IsTreeOf src) (gap : List Char) :
    (d.exporting gap).IsTreeOf (d.exportingText src gap) := by
  obtain ⟨hbefore, hD, hafter⟩ := Tree.areLaidOut_append_cons.mp h.isLaidOut
  have hkeyword : 6 ≤ (exportText gap).length := by
    rw [exportText, List.length_append]
    exact Nat.le_add_right 6 _
  refine ⟨Tree.areLaidOut_append_cons.mpr ⟨hbefore, ?_, ?_⟩, ?_⟩
  · refine ⟨Nat.le_refl _, Nat.le_add_right _ 6, ?_, ?_, ?_⟩
    · rw [Tree.span_withField, Tree.span_moved]
      exact Nat.add_le_add_left hkeyword _
    · exact Tree.isLaidOut_withField.mpr (Tree.isLaidOut_moved _ _ hD)
    · rw [Tree.span_withField, Tree.span_moved]
      exact Nat.le_refl _
  · rw [← Tree.movedAll_eq_map]
    exact Tree.areLaidOut_moved _ d.after hafter
  · rw [exportingText, Source.size_insertAt (start_le_size h)]
    exact Nat.add_le_add_right h.stop_le _

/-- What is in front of the declaration reads the same as before, and so do the declaration
and what is behind it. -/
theorem readsSame_exporting (h : d.program.IsTreeOf src) (hgap : '\n' ∉ gap) :
    (∀ t ∈ d.before, t.ReadsSame src (d.exportingText src gap) 0)
      ∧ d.declaration.ReadsSame src (d.exportingText src gap) (exportText gap).length
      ∧ ∀ t ∈ d.after, t.ReadsSame src (d.exportingText src gap) (exportText gap).length := by
  obtain ⟨hbefore, hD, hafter⟩ := Tree.areLaidOut_append_cons.mp h.isLaidOut
  have htext : '\n' ∉ exportText gap := by
    rw [exportText, List.mem_append, not_or]
    exact ⟨by decide, hgap⟩
  have hrest : Tree.AreLaidOut d.declaration.span.start d.span.stop (d.declaration :: d.after) :=
    ⟨Nat.le_refl _, hD, hafter⟩
  refine ⟨Tree.readsSame_of_stop_le (start_le_size h) hbefore (Nat.le_refl _), ?_⟩
  exact List.forall_mem_cons.mp
    (Tree.readsSame_of_le_start (start_le_size h) hrest (Nat.le_refl _) htext)

/-- Where a declaration is put into an export statement, all records stay the same and in
their places, but that the function or class that it is becomes exported; and the records of
its names are added in its place. -/
theorem ofTree_exporting (d : TopDeclaration) (src : Source) (gap : List Char)
    (h : d.program.IsTreeOf src) (hgap : '\n' ∉ gap) :
    (d.exporting gap).IsTreeOf (d.exportingText src gap)
      ∧ (Extraction.atNode src d.cursor).exports = []
      ∧ ∃ front behind, (Cursor.ofTree d.program).walk = front ++ d.cursor :: behind
        ∧ Extraction.ofTree src d.program
          = Extraction.ofNodes src front
            ++ (Extraction.atNode src d.cursor ++ Extraction.ofNodes src behind)
        ∧ Extraction.ofTree (d.exportingText src gap) (d.exporting gap)
          = Extraction.ofNodes src front
            ++ ({ (Extraction.atNode src d.cursor).withExported true with
                exports := d.declaration.declaredExports src }
              ++ Extraction.ofNodes src behind) := by
  refine ⟨isTreeOf_exporting h gap, Extraction.exports_atNode_of_introducesNames d.introduces, ?_⟩
  obtain ⟨hbefore, hD, hafter⟩ := readsSame_exporting h hgap
  have hline : (d.exportingText src gap).line d.declaration.span.start
      = src.line d.declaration.span.start :=
    Source.line_insertAt_of_le (start_le_size h) (Nat.le_refl _)
  have hquiet : (d.declaration.inExport (exportText gap).length).documentation?
      (d.exportingText src gap) = d.declaration.documentation? src :=
    Eq.symm (if_neg fun hkind => Label.ne_of_introducesNames d.introduces rfl (eq_of_beq hkind))
  have hdoc : Cursor.docBefore (d.exportingText src gap) [⟨.named .program, d.field,
      ⟨d.span.start, d.span.stop + (exportText gap).length⟩, d.before.reverse,
      d.after.map (Tree.moved (exportText gap).length)⟩] = Cursor.docBefore src d.cursor.above :=
    Cursor.docBefore_moved (Tree.map_moved_zero _).symm
      fun t ht => hbefore t (List.mem_reverse.mp ht)
  obtain ⟨front, behind, hwalk, hrecords⟩ := Extraction.exists_around d.field d.span
    ⟨d.span.start, d.span.stop + (exportText gap).length⟩ d.before d.after d.declaration
    (d.declaration.inExport (exportText gap).length) hbefore hafter hquiet
  rw [Cursor.preorderFrom_eq, List.cons_append] at hwalk
  refine ⟨front, _, hwalk, ?_, hrecords.trans ?_⟩
  · rw [Extraction.ofTree, program, hwalk, Extraction.ofNodes_append, Extraction.ofNodes_cons]
    rfl
  · rw [Extraction.below_inExport d.introduces hD rfl hdoc hline, Extraction.append_assoc,
      Extraction.ofNodes_append, ← Extraction.belowAmong_eq]
    rfl

/-- A documented function that returns one. -/
def laterFunction : TopDeclaration where
  field := none
  span := ⟨0, 54⟩
  before := [.leaf .comment 0 17]
  declaration := .node (.named .functionDeclaration) none ⟨18, 54⟩ [
    .ofToken "function" 18 26,
    (Tree.leaf .identifier 27 32).withField .name,
    .node (.named .formalParameters) (some .parameters) ⟨32, 35⟩ [
      .ofToken "(" 32 33, .leaf .identifier 33 34, .ofToken ")" 34 35],
    .node (.named .statementBlock) (some .body) ⟨36, 54⟩ [
      .ofToken "\x7b" 36 37,
      .node (.named .returnStatement) none ⟨38, 52⟩ [
        .ofToken "return" 38 44,
        .node (.named .arrowFunction) none ⟨45, 52⟩ [
          .node (.named .formalParameters) (some .parameters) ⟨45, 47⟩ [
            .ofToken "(" 45 46, .ofToken ")" 46 47],
          .ofToken "=>" 48 50,
          (Tree.leaf .identifier 51 52).withField .body]],
      .ofToken "\x7d" 53 54]]
  after := []
  introduces := rfl

def laterText : Source :=
  .ofString "/** Runs later */\nfunction later(f) \x7b return () => f \x7d"

theorem isTreeOf_laterFunction : laterFunction.program.IsTreeOf laterText :=
  ⟨by simp [laterFunction, program, Tree.IsLaidOut, Tree.AreLaidOut, Tree.ofToken, Tree.leaf,
    Tree.withField, Tree.span], by decide⟩

/-- The function becomes exported and is documented as before; the one in it stays as it was. -/
theorem ofTree_exporting_laterFunction :
    laterFunction.program.IsTreeOf laterText ∧ '\n' ∉ [' ']
      ∧ (∃ front behind, Extraction.ofTree (laterFunction.exportingText laterText [' '])
          (laterFunction.exporting [' ']) = Extraction.ofNodes laterText front
            ++ ({ (Extraction.atNode laterText laterFunction.cursor).withExported true with
                exports := laterFunction.declaration.declaredExports laterText }
              ++ Extraction.ofNodes laterText behind))
      ∧ (Extraction.atNode laterText laterFunction.cursor).functions.map (·.docComment)
        = [some "* Runs later"]
      ∧ laterFunction.declaration.declaredExports laterText = [⟨"later", .named, 2⟩] := by
  have hgap : '\n' ∉ [' '] := by decide
  obtain ⟨-, -, front, behind, -, -, hrecords⟩ :=
    ofTree_exporting laterFunction laterText [' '] isTreeOf_laterFunction hgap
  exact ⟨isTreeOf_laterFunction, hgap, ⟨front, behind, hrecords⟩, by decide +kernel,
    by decide +kernel⟩

end TopDeclaration

end CodeSurvey
