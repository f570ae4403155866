import CodeSurvey.Proofs.ExportedRecords
import CodeSurvey.Proofs.StatementShape

/-!
# Exports of ambient declarations

An export statement with a declaration has a record for each name that the declaration
introduces. The names are looked up at the child that holds the field `declaration`. Where
the keyword `declare` stands in front, this child is the node around the declaration, which
holds no name of its own, and the statement has no record.

So the statement says less than the one without the keyword (`Tree.exporting`), unless the
declaration introduces no names at all (`missesAmbient_parse`). Only declarations of
variables can be of that kind, by patterns that bind none. A constant that is not listed is
in `ambientConstant`.
-/

namespace CodeSurvey

/-! ## Names of declarations -/

namespace Label

/-- A declaration of variables. -/
def isVariables (l : Label) : Bool :=
  l == .named .lexicalDeclaration || l == .named .variableDeclaration

/-- A declaration that introduces names. -/
def introducesNames (l : Label) : Bool := l.declaresName || l.isVariables

theorem ne_of_introducesNames {l l' : Label} (h : l.introducesNames = true)
    (h' : l'.introducesNames = false) : l ≠ l' := by
  rintro rfl
  rw [h] at h'
  cases h'

theorem ne_token_of_introducesNames {l : Label} (h : l.introducesNames = true) (text : String) :
    l ≠ .token text := ne_of_introducesNames h rfl

end Label

namespace Tree

/-- The declaration introduces the name. -/
inductive Introduces (src : Source) (t : Tree) (name : String) : Prop where
  /-- It is that of a function, a class, a type, an enumeration or a module. -/
  | declared {u : Tree} (hlabel : t.label.declaresName = true) (hchild : t.child? .name = some u)
    (htext : u.text src = name)
  /-- It is that of a variable: the pattern of a declarator binds it. -/
  | bound {declarator pattern : Tree} (hlabel : t.label.isVariables = true)
    (hmem : declarator ∈ t.namedChildren) (hkind : declarator.label = .named .variableDeclarator)
    (hpattern : declarator.child? .name = some pattern) (hbinds : name ∈ pattern.boundNames src)

variable {src : Source} {t : Tree}

theorem declaredNames_of_isVariables (h : t.label.isVariables = true) :
    t.declaredNames src = (t.namedChildren.filter (·.isKind .variableDeclarator)).flatMap
      fun declarator => ((declarator.child? .name).map (·.boundNames src)).getD [] := by
  simp only [Label.isVariables, Bool.or_eq_true, beq_iff_eq] at h
  rcases h with h | h
  all_goals
    rw [declaredNames, h]
    refine congrArg (List.flatMap · _) (funext fun declarator => ?_)
    cases declarator.child? .name <;> rfl

theorem declaredNames_of_not_isVariables (h : t.label.isVariables = false) :
    t.declaredNames src = (t.child? .name).toList.map (·.text src) := by
  unfold declaredNames
  split
  · rename_i hlabel
    rw [hlabel] at h
    cases h
  · rename_i hlabel
    rw [hlabel] at h
    cases h
  · cases t.child? .name <;> rfl

theorem not_isVariables_of_declaresName {l : Label} (h : l.declaresName = true) :
    l.isVariables = false := by
  unfold Label.declaresName at h
  split at h <;> first | rfl | cases h

/-- The names that are listed for a declaration are those that it introduces. -/
theorem mem_declaredNames_iff (h : t.label.introducesNames = true) {name : String} :
    name ∈ t.declaredNames src ↔ t.Introduces src name := by
  rcases Bool.or_eq_true_iff.mp h with hlabel | hlabel
  · have hother := not_isVariables_of_declaresName hlabel
    rw [declaredNames_of_not_isVariables hother, List.mem_map]
    constructor
    · rintro ⟨u, hu, htext⟩
      exact .declared hlabel (Option.mem_toList.mp hu) htext
    · intro hname
      cases hname with
      | declared _ hchild htext => exact ⟨_, Option.mem_toList.mpr hchild, htext⟩
      | bound hvariables _ _ _ _ =>
          rw [hother] at hvariables
          cases hvariables
  · rw [declaredNames_of_isVariables hlabel, List.mem_flatMap]
    constructor
    · rintro ⟨declarator, hmem, hname⟩
      obtain ⟨hmem, hkind⟩ := List.mem_filter.mp hmem
      cases hpattern : declarator.child? .name with
      | none =>
          rw [hpattern] at hname
          cases hname
      | some pattern =>
          rw [hpattern] at hname
          exact .bound hlabel hmem (eq_of_beq hkind) hpattern hname
    · intro hname
      cases hname with
      | declared hdeclares _ _ =>
          rw [not_isVariables_of_declaresName hdeclares] at hlabel
          cases hlabel
      | bound _ hmem hkind hpattern hbinds =>
          refine ⟨_, List.mem_filter.mpr ⟨hmem, beq_of_eq hkind⟩, ?_⟩
          rw [hpattern]
          exact hbinds

/-- All declarations but those of variables introduce a name. -/
theorem exists_introduces (hparts : HasParts t.label t.children)
    (hlabel : t.label.declaresName = true) : ∃ name, t.Introduces src name := by
  obtain ⟨u, hu, hfield⟩ := hparts.name hlabel
  obtain ⟨name, -, hchild, -⟩ := exists_child?_of_field hu hfield
  exact ⟨_, .declared hlabel hchild rfl⟩

/-- The node around an ambient declaration has no name. -/
theorem declaredNames_ambient (hparts : HasParts t.label t.children)
    (hlabel : t.label = .named .ambientDeclaration) : t.declaredNames src = [] := by
  have hnone : t.child? .name = none :=
    List.find?_eq_none.mpr fun u hu hfield => hparts.ambient hlabel u hu (eq_of_beq hfield)
  rw [declaredNames_of_not_isVariables (by rw [hlabel]; rfl), hnone]
  rfl

theorem declaredNames_withField (f : Field) (t : Tree) :
    (t.withField f).declaredNames src = t.declaredNames src := by
  obtain ⟨l, g, s, cs⟩ := t
  rfl

end Tree

/-! ## Export statements -/

/-- The tree is an export statement of the declaration, and not of a default. -/
structure Tree.ExportsDeclaration (t declaration : Tree) : Prop where
  isExport : t.label = .named .exportStatement
  child : t.child? .declaration = some declaration
  named : t.children.any (·.isToken "default") = false

namespace Tree

variable {src : Source} {t a D : Tree}

/-- The export statement with the declaration `D` in place of its own. -/
def exporting (t D : Tree) : Tree :=
  t.withChildren (t.children.map fun c =>
    if c.field = some .declaration then D.withField .declaration else c)

theorem children_exporting (t D : Tree) : (t.exporting D).children = t.children.map fun c =>
    if c.field = some .declaration then D.withField .declaration else c := by
  obtain ⟨l, f, s, cs⟩ := t
  rfl

theorem startLine_exporting (t D : Tree) : (t.exporting D).startLine src = t.startLine src := by
  obtain ⟨l, f, s, cs⟩ := t
  rfl

theorem ExportsDeclaration.exporting (h : t.ExportsDeclaration a)
    (hD : D.label.introducesNames = true) :
    (t.exporting D).ExportsDeclaration (D.withField .declaration) where
  isExport := by
    obtain ⟨l, f, s, cs⟩ := t
    exact h.isExport
  child := by
    -- the first child with the field is the one that is replaced first
    have hfield : (fun c : Tree => (if c.field = some Field.declaration
        then D.withField .declaration else c).field == some .declaration)
        = fun c : Tree => c.field == some .declaration := by
      funext c
      split
      · rename_i hc
        rw [field_withField, hc]
      · rfl
    rw [child?, children_exporting, List.find?_map, Function.comp_def, hfield]
    obtain ⟨-, hholds⟩ := mem_of_child? h.child
    rw [show t.children.find? (fun c => c.field == some .declaration) = some a from h.child,
      Option.map_some, if_pos hholds]
  named := by
    refine List.any_eq_false.mpr fun c hc => ?_
    rw [children_exporting] at hc
    obtain ⟨u, hu, rfl⟩ := List.mem_map.mp hc
    split
    · rw [isToken, label_withField]
      exact Bool.not_eq_true _ ▸ beq_false_of_ne (Label.ne_token_of_introducesNames hD _)
    · exact List.any_eq_false.mp h.named u hu

theorem exportRecords_of_declaration (h : t.ExportsDeclaration a) : t.exportRecords src
    = (a.declaredNames src).map fun name => ⟨name, .named, t.startLine src⟩ := by
  rw [exportRecords, exportedNames, h.named, h.child]
  dsimp only
  rw [if_neg Bool.false_ne_true, List.map_map]
  rfl

theorem exportRecords_exporting (h : t.ExportsDeclaration a) (hD : D.label.introducesNames = true) :
    (t.exporting D).exportRecords src
      = (D.declaredNames src).map fun name => ⟨name, .named, t.startLine src⟩ := by
  rw [exportRecords_of_declaration (h.exporting hD), declaredNames_withField, startLine_exporting]

end Tree

/-! ## The records of all texts -/

/-- The tree is an export statement of the ambient declaration `a`. -/
structure Tree.ExportsAmbient (t a : Tree) : Prop extends t.ExportsDeclaration a where
  ambient : a.label = .named .ambientDeclaration

/-- How the records of exports in a tree miss what is declared with the keyword `declare`. -/
structure MissesAmbient (src : Source) (t : Tree) : Prop where
  /-- The export statement of an ambient declaration has no records. -/
  silent : ∀ c ∈ (Cursor.ofTree t).walk, ∀ a, c.tree.ExportsAmbient a →
    c.exportRecordsAt src = []
  /-- Without the keyword it has a record for each name, on the line of the statement. -/
  plain : ∀ c ∈ (Cursor.ofTree t).walk, ∀ a, c.tree.ExportsAmbient a →
    ∀ D ∈ a.children, D.label.introducesNames = true →
      (∀ name, name ∈ D.declaredNames src ↔ D.Introduces src name)
        ∧ (c.tree.exporting D).exportRecords src
          = (D.declaredNames src).map fun name => ⟨name, .named, c.tree.startLine src⟩
  /-- Both have the same records exactly if the declaration introduces no names. -/
  agree_iff : ∀ c ∈ (Cursor.ofTree t).walk, ∀ a, c.tree.ExportsAmbient a →
    ∀ D ∈ a.children, D.label.introducesNames = true →
      (c.exportRecordsAt src = (c.tree.exporting D).exportRecords src
        ↔ ¬∃ name, D.Introduces src name)
  /-- A declaration that is not of variables introduces one. -/
  introduces : ∀ c ∈ (Cursor.ofTree t).walk, ∀ a, c.tree.ExportsAmbient a →
    ∀ D ∈ a.children, D.label.declaresName = true → ∃ name, D.Introduces src name

theorem Tree.ExportsAmbient.exportRecords {src : Source} {t a : Tree} (h : t.ExportsAmbient a)
    (hparts : t.Everywhere HasParts) : t.exportRecords src = [] := by
  have hroot := (hparts.child (mem_of_child? h.child).1).root
  rw [exportRecords_of_declaration h.toExportsDeclaration, declaredNames_ambient hroot h.ambient]
  rfl

/-- In the tree of a text the export statement of an ambient declaration has no records, so
it has those of the statement without the keyword for the declarations that introduce no
names, and for no others. -/
theorem missesAmbient_parse (src : Source) (d : Dialect) : MissesAmbient src (src.parse d) := by
  have hparts : ∀ c ∈ (Cursor.ofTree (src.parse d)).walk, c.tree.Everywhere HasParts :=
    fun c hc => (hasParts_parse src d).of_mem (Cursor.tree_mem_preorder hc)
  have hsilent : ∀ c ∈ (Cursor.ofTree (src.parse d)).walk, ∀ a, c.tree.ExportsAmbient a →
      c.exportRecordsAt src = [] := by
    intro c hc a ha
    rw [Cursor.exportRecordsAt_eq ha.isExport]
    exact ha.exportRecords (hparts c hc)
  refine ⟨hsilent, fun c hc a ha D hD hlabel => ?_, fun c hc a ha D hD hlabel => ?_,
    fun c hc a ha D hD hlabel => ?_⟩
  · exact ⟨fun name => Tree.mem_declaredNames_iff hlabel,
      Tree.exportRecords_exporting ha.toExportsDeclaration hlabel⟩
  · rw [hsilent c hc a ha, Tree.exportRecords_exporting ha.toExportsDeclaration hlabel, eq_comm,
      List.map_eq_nil_iff, List.eq_nil_iff_forall_not_mem, not_exists]
    exact forall_congr' fun name => not_congr (Tree.mem_declaredNames_iff hlabel)
  · have houter := (hparts c hc).child (Tree.mem_of_child? ha.child).1
    exact Tree.exists_introduces (houter.child hD).root hlabel

/-- The declaration in the export statement of `ambientConstant`. -/
def constantDeclaration : Tree :=
  .node (.named .lexicalDeclaration) none ⟨15, 31⟩
    [(Tree.ofToken "const" 15 20).withField .kind,
      .node (.named .variableDeclarator) none ⟨21, 30⟩
        [(Tree.leaf .identifier 21 22).withField .name,
          .node (.named .typeAscription) (some .type) ⟨22, 30⟩
            [Tree.ofToken ":" 22 23,
              .node (.named .predefinedType) none ⟨24, 30⟩ [Tree.ofToken "number" 24 30]]],
      Tree.ofToken ";" 30 31]

/-- The export statement in `ambientConstantText`. -/
def ambientConstant : Tree :=
  .node (.named .exportStatement) none ⟨0, 31⟩
    [Tree.ofToken "export" 0 6,
      .node (.named .ambientDeclaration) (some .declaration) ⟨7, 31⟩
        [Tree.ofToken "declare" 7 14, constantDeclaration]]

def ambientConstantText : Source := .ofString "export declare const x: number;"

/-- The constant has a record without the keyword. -/
theorem exports_ambientConstant :
    (Extraction.ofTree ambientConstantText
        (.node (.named .program) none ⟨0, 31⟩ [ambientConstant])).exports = []
      ∧ (Extraction.ofTree ambientConstantText (.node (.named .program) none ⟨0, 31⟩
          [ambientConstant.exporting constantDeclaration])).exports = [⟨"x", .named, 1⟩] := by
  rw [Extraction.ofTree_eq_below, Extraction.ofTree_eq_below]
  exact ⟨rfl, rfl⟩

end CodeSurvey
