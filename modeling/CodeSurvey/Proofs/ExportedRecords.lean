import CodeSurvey.Proofs.ExportShape
import CodeSurvey.Proofs.Extraction

/-!
# Exported records and the records of exports

Whether a function or a class is exported is read off its parent, and what an
export statement makes public off its children. Both agree by the shape of the
statement: it has a record for a declaration and for a default, and none for what
is assigned, which only the typed dialects have. So an exported function or class
is among the exports, unless it is assigned (`recordsAgree_parse`).

The exception is real. The class in `assignedClass` counts as exported, and has a
record because it does, though it is no default and the tree has no export.
-/

namespace CodeSurvey

/-! ## Functions and classes -/

namespace Tree

theorem isRecordable_of_isFunctionKind {t : Tree} (h : t.isFunctionKind = true) :
    t.label.isRecordable = true := by
  unfold isFunctionKind at h
  split at h <;> simp_all [Label.isRecordable, Label.isDeclaration, Label.isValue]

theorem isRecordable_of_isClassKind {t : Tree} (h : t.isClassKind = true) :
    t.label.isRecordable = true := by
  unfold isClassKind at h
  split at h <;> simp_all [Label.isRecordable, Label.isDeclaration, Label.isValue]

end Tree

/-! ## The records of an export statement -/

namespace Tree

variable {src : Source} {t : Tree}

theorem any_isToken {text : String} {ts : List Tree} :
    ts.any (·.isToken text) = true ↔ ∃ u ∈ ts, u.label = .token text := by
  simp [isToken]

theorem mem_of_child? {f : Field} {u : Tree} (h : t.child? f = some u) :
    u ∈ t.children ∧ u.field = some f := by
  have hholds := List.find?_some h
  exact ⟨List.mem_of_find?_eq_some h, eq_of_beq hholds⟩

/-- A field that a child holds is found, at a child that holds it. -/
theorem exists_child?_of_field {f : Field} {u : Tree} (hu : u ∈ t.children)
    (hfield : u.field = some f) :
    ∃ v ∈ t.children, t.child? f = some v ∧ v.field = some f := by
  obtain ⟨v, hchild⟩ : ∃ v, t.child? f = some v := by
    refine Option.isSome_iff_exists.mp (List.find?_isSome.mpr ⟨u, hu, ?_⟩)
    rw [hfield]
    exact beq_self_eq_true _
  obtain ⟨hv, hholds⟩ := mem_of_child? hchild
  exact ⟨v, hv, hchild, hholds⟩

/-- The record of a default export is there whatever is exported. -/
theorem exportedNames_of_default (h : ∃ u ∈ t.children, u.label = .token "default") :
    t.exportedNames src ≠ [] := by
  rw [exportedNames, if_pos (any_isToken.mpr h)]
  exact List.cons_ne_nil _ _

/-- A function or a class that is declared has a name. -/
theorem declaredNames_ne_nil (hlabel : t.label.isDeclaration = true)
    (hname : ∃ u ∈ t.children, u.field = some .name) : t.declaredNames src ≠ [] := by
  obtain ⟨u, hu, hfield⟩ := hname
  obtain ⟨name, -, hchild, -⟩ := exists_child?_of_field hu hfield
  unfold declaredNames
  split
  · rename_i hvariables
    rw [hvariables] at hlabel
    cases hlabel
  · rename_i hvariables
    rw [hvariables] at hlabel
    cases hlabel
  · rw [hchild]
    exact List.cons_ne_nil _ _

theorem exportedNames_of_declaration {declaration : Tree}
    (hchild : t.child? .declaration = some declaration)
    (hnames : declaration.declaredNames src ≠ []) : t.exportedNames src ≠ [] := by
  unfold exportedNames
  split
  · exact List.cons_ne_nil _ _
  · rw [hchild]
    exact fun h => hnames (List.map_eq_nil_iff.mp h)

/-- Where no child has a part, there is no record. -/
theorem exportedNames_of_silent
    (h : ∀ u ∈ t.children, u.label.isSilent = true ∧ u.field ≠ some .declaration) :
    t.exportedNames src = [] := by
  have hsilent : ∀ u ∈ t.children, (u.isToken "default" = false ∧ u.isToken "*" = false)
      ∧ u.isKind .exportClause = false ∧ u.isKind .namespaceExport = false := by
    intro u hu
    have hlabel := (h u hu).1
    simp only [Label.isSilent, Bool.and_eq_true, decide_eq_true_eq] at hlabel
    obtain ⟨⟨⟨hdefault, hstar⟩, hclause⟩, hnamespace⟩ := hlabel
    exact ⟨⟨beq_false_of_ne hdefault, beq_false_of_ne hstar⟩, beq_false_of_ne hclause,
      beq_false_of_ne hnamespace⟩
  have hdefault : t.children.any (·.isToken "default") = false :=
    List.any_eq_false.mpr fun u hu => by simp [(hsilent u hu).1.1]
  have hstar : t.children.any (·.isToken "*") = false :=
    List.any_eq_false.mpr fun u hu => by simp [(hsilent u hu).1.2]
  have hdeclaration : t.child? .declaration = none :=
    List.find?_eq_none.mpr fun u hu hfield => (h u hu).2 (eq_of_beq hfield)
  have hclause : t.childOfKind? .exportClause = none :=
    List.find?_eq_none.mpr fun u hu => by simp [(hsilent u hu).2.1]
  have hnamespace : t.childOfKind? .namespaceExport = none :=
    List.find?_eq_none.mpr fun u hu => by simp [(hsilent u hu).2.2]
  simp only [exportedNames, hdefault, hdeclaration, hclause, hnamespace, hstar]
  rfl

end Tree

/-! ## Exported records -/

namespace Cursor

/-- The export statement at `p` assigns to the exports. -/
structure IsAssignment (d : Dialect) (p : Cursor) : Prop where
  isExport : p.tree.label = .named .exportStatement
  typed : d.isTyped = true
  sign : ∃ u ∈ p.tree.children, u.label = .token "="

/-- The node at `c` is the value of the default export at `p`. -/
structure IsDefaultValue (c p : Cursor) : Prop where
  isExport : p.tree.label = .named .exportStatement
  isDefault : ∃ u ∈ p.tree.children, u.label = .token "default"
  value : c.tree.field = some .value

/-- What the exports of the tree `t` say of the export statement at `p`. -/
inductive Listed (src : Source) (d : Dialect) (t : Tree) (p : Cursor) : Prop where
  /-- There are records of it, all on its line. -/
  | recorded (isExport : p.tree.label = .named .exportStatement)
    (hne : p.exportRecordsAt src ≠ [])
    (hrecords : ∀ e ∈ p.exportRecordsAt src, e ∈ (Extraction.ofTree src t).exports
      ∧ e.line = p.tree.startLine src)
  /-- There is none. -/
  | assigned (h : p.IsAssignment d) (hnone : p.exportRecordsAt src = [])

variable {src : Source} {d : Dialect} {t : Tree} {c p : Cursor}

theorem Listed.isExport (h : Listed src d t p) : p.tree.label = .named .exportStatement := by
  cases h with
  | recorded isExport _ _ => exact isExport
  | assigned h _ => exact h.isExport

theorem tree_mem_preorder (hc : c ∈ (ofTree t).walk) : c.tree ∈ t.preorder := by
  rw [← map_tree_preorderFrom [] t, ← walk_ofTree]
  exact List.mem_map_of_mem hc

/-- The walk comes by the export statement that stands around a node. -/
theorem exists_parent_of_isExported (hc : c ∈ (ofTree t).walk) (h : c.isExported = true) :
    ∃ p ∈ (ofTree t).walk, c.parent? = some p ∧ p.tree.label = .named .exportStatement
      ∧ c.tree ∈ p.tree.children := by
  rw [walk_ofTree] at hc ⊢
  obtain ⟨u, _ | ⟨frame, above⟩⟩ := c
  · cases h
  · rcases exists_parent_of_mem_preorderFrom [] t hc with heq | ⟨p, hparent, hp⟩
    · cases heq
    · obtain rfl := Option.some.inj hparent
      refine ⟨_, hp, rfl, eq_of_beq h, ?_⟩
      exact List.mem_append_right _ List.mem_cons_self

theorem isExported_of_parent (hparent : c.parent? = some p)
    (h : p.tree.label = .named .exportStatement) : c.isExported = true := by
  obtain ⟨u, _ | ⟨frame, above⟩⟩ := c
  · cases hparent
  · obtain rfl := Option.some.inj hparent
    exact beq_of_eq h

theorem exportRecordsAt_eq (h : p.tree.label = .named .exportStatement) :
    p.exportRecordsAt src = p.tree.exportRecords src := by
  rw [exportRecordsAt, Tree.isKind, h]
  rfl

theorem listed_of_exportedNames (hp : p ∈ (ofTree t).walk)
    (h : p.tree.label = .named .exportStatement) (hnames : p.tree.exportedNames src ≠ []) :
    Listed src d t p := by
  refine .recorded h ?_ fun e he => ⟨List.mem_flatMap.mpr ⟨p, hp, he⟩, ?_⟩
  · rw [exportRecordsAt_eq h]
    exact fun hnil => hnames (List.map_eq_nil_iff.mp hnil)
  · rw [exportRecordsAt_eq h] at he
    obtain ⟨⟨name, kind⟩, -, rfl⟩ := List.mem_map.mp he
    rfl

/-- An export statement with a function or a class in it is listed. -/
theorem listed_of_isRecordable (hp : p ∈ (ofTree t).walk)
    (h : p.tree.label = .named .exportStatement) (hshape : p.tree.Everywhere (HasShape d))
    {u : Tree} (hu : u ∈ p.tree.children) (hrecordable : u.label.isRecordable = true) :
    Listed src d t p := by
  cases hshape.root.export_ h with
  | plain hplain =>
      rw [hplain u hu] at hrecordable
      cases hrecordable
  | default hdefault _ => exact listed_of_exportedNames hp h (Tree.exportedNames_of_default hdefault)
  | declaration hfield hdeclaration =>
      obtain ⟨declaration, hmem, hchild, hholds⟩ :=
        Tree.exists_child?_of_field hu (hfield u hu hrecordable)
      have hlabel := hdeclaration declaration hmem hholds
      have hname := (hshape.child hmem).root.name hlabel
      exact listed_of_exportedNames hp h
        (Tree.exportedNames_of_declaration hchild (Tree.declaredNames_ne_nil hlabel hname))
  | assignment htyped hsign hsilent =>
      refine .assigned ⟨h, htyped, hsign⟩ ?_
      rw [exportRecordsAt_eq h, Tree.exportRecords, Tree.exportedNames_of_silent hsilent]
      rfl

/-- A class in an expression stands in an export statement as the default value, or
is assigned. -/
theorem isDefaultValue_or_isAssignment (h : p.tree.label = .named .exportStatement)
    (hshape : HasShape d p.tree.label p.tree.children) (hchild : c.tree ∈ p.tree.children)
    (hclass : c.tree.label = .named .classExpression) :
    c.IsDefaultValue p ∨ p.IsAssignment d := by
  have hrecordable : c.tree.label.isRecordable = true := by
    rw [hclass]
    rfl
  cases hshape.export_ h with
  | plain hplain =>
      rw [hplain c.tree hchild] at hrecordable
      cases hrecordable
  | default hdefault hvalue => exact .inl ⟨h, hdefault, hvalue c.tree hchild hclass⟩
  | declaration hfield hdeclaration =>
      have hlabel := hdeclaration c.tree hchild (hfield c.tree hchild hrecordable)
      rw [hclass] at hlabel
      cases hlabel
  | assignment htyped hsign _ => exact .inr ⟨h, htyped, hsign⟩

/-! ### Records of functions and classes -/

theorem of_functionRecord {r : FunctionRecord} (h : c.functionRecord? src = some r) :
    c.tree.label.isRecordable = true ∧ r.isExported = c.isExported := by
  obtain ⟨hkind, h⟩ := Option.ite_none_right_eq_some.mp h
  obtain rfl := Option.some.inj h
  exact ⟨Tree.isRecordable_of_isFunctionKind hkind, rfl⟩

theorem of_classRecordAt {r : ClassRecord} (h : c.classRecordAt? src = some r) :
    c.tree.label.isRecordable = true ∧ r.isExported = c.isExported := by
  obtain ⟨hkind, h⟩ := Option.ite_none_right_eq_some.mp h
  obtain ⟨-, h⟩ := Option.ite_none_left_eq_some.mp h
  obtain ⟨body, -, rfl⟩ := Option.map_eq_some_iff.mp h
  exact ⟨Tree.isRecordable_of_isClassKind hkind, rfl⟩

theorem isSome_classRecordAt_iff (h : c.tree.label = .named .classExpression) :
    (c.classRecordAt? src).isSome = true
      ↔ (c.tree.child? .body).isSome = true ∧ c.isExported = true := by
  have hclass : c.tree.isClassKind = true := by
    rw [Tree.isClassKind, h]
  have hexpression : c.tree.isKind .classExpression = true := beq_of_eq h
  rw [classRecordAt?, if_pos hclass, classRecord?, hexpression, Bool.true_and]
  cases hexported : c.isExported with
  | true => simp
  | false => simp

end Cursor

/-- What the records of functions and classes say of exports, in terms of the
export statements of the tree `t`. -/
structure RecordsAgree (src : Source) (d : Dialect) (t : Tree) : Prop where
  functions : ∀ c ∈ (Cursor.ofTree t).walk, ∀ r, c.functionRecord? src = some r →
    (r.isExported = true ↔ ∃ p ∈ (Cursor.ofTree t).walk, c.parent? = some p ∧ p.Listed src d t)
  classes : ∀ c ∈ (Cursor.ofTree t).walk, ∀ r, c.classRecordAt? src = some r →
    (r.isExported = true ↔ ∃ p ∈ (Cursor.ofTree t).walk, c.parent? = some p ∧ p.Listed src d t)
  /-- Of the classes in expressions, those with a body that are default values, or
  assigned, have a record. -/
  expressions : ∀ c ∈ (Cursor.ofTree t).walk, c.tree.label = .named .classExpression →
    ((c.classRecordAt? src).isSome = true ↔ (c.tree.child? .body).isSome = true
      ∧ ∃ p ∈ (Cursor.ofTree t).walk, c.parent? = some p
        ∧ (c.IsDefaultValue p ∨ p.IsAssignment d))

/-- In the tree of a text, the functions and classes that count as exported are those
in an export statement that has records, and those that are assigned to the
exports. -/
theorem recordsAgree_parse (src : Source) (d : Dialect) : RecordsAgree src d (src.parse d) := by
  have hshape : ∀ p ∈ (Cursor.ofTree (src.parse d)).walk, p.tree.Everywhere (HasShape d) :=
    fun p hp => (hasShape_parse src d).of_mem (Cursor.tree_mem_preorder hp)
  have hlisted : ∀ c ∈ (Cursor.ofTree (src.parse d)).walk, c.tree.label.isRecordable = true →
      (c.isExported = true ↔ ∃ p ∈ (Cursor.ofTree (src.parse d)).walk,
        c.parent? = some p ∧ p.Listed src d (src.parse d)) := by
    intro c hc hrecordable
    constructor
    · intro hexported
      obtain ⟨p, hp, hparent, hlabel, hchild⟩ := Cursor.exists_parent_of_isExported hc hexported
      exact ⟨p, hp, hparent,
        Cursor.listed_of_isRecordable hp hlabel (hshape p hp) hchild hrecordable⟩
    · rintro ⟨p, -, hparent, h⟩
      exact Cursor.isExported_of_parent hparent h.isExport
  refine ⟨fun c hc r hr => ?_, fun c hc r hr => ?_, fun c hc hclass => ?_⟩
  · obtain ⟨hrecordable, heq⟩ := Cursor.of_functionRecord hr
    rw [heq, hlisted c hc hrecordable]
  · obtain ⟨hrecordable, heq⟩ := Cursor.of_classRecordAt hr
    rw [heq, hlisted c hc hrecordable]
  · rw [Cursor.isSome_classRecordAt_iff hclass]
    refine and_congr_right fun _ => ⟨fun hexported => ?_, ?_⟩
    · obtain ⟨p, hp, hparent, hlabel, hchild⟩ := Cursor.exists_parent_of_isExported hc hexported
      exact ⟨p, hp, hparent,
        Cursor.isDefaultValue_or_isAssignment hlabel (hshape p hp).root hchild hclass⟩
    · rintro ⟨p, -, hparent, h | h⟩
      · exact Cursor.isExported_of_parent hparent h.isExport
      · exact Cursor.isExported_of_parent hparent h.isExport

/-- The tree of `export = class {};` in the typed dialects. -/
def assignedClass : Tree :=
  .node (.named .program) none ⟨0, 18⟩
    [.node (.named .exportStatement) none ⟨0, 18⟩
      [Tree.ofToken "export" 0 6,
        Tree.ofToken "=" 7 8,
        .node (.named .classExpression) none ⟨9, 17⟩
          [Tree.ofToken "class" 9 14,
            .node (.named .classBody) (some .body) ⟨15, 17⟩
              [Tree.ofToken "\x7b" 15 16, Tree.ofToken "\x7d" 16 17]],
        Tree.ofToken ";" 17 18]]

def assignedClassText : Source := .ofString "export = class \x7b\x7d;"

/-- The class has a record and counts as exported, though it is no default, and the
statement has no record. -/
theorem records_assignedClass :
    (Extraction.ofTree assignedClassText assignedClass).classes.map (·.isExported) = [true]
      ∧ (Extraction.ofTree assignedClassText assignedClass).exports = [] := by
  rw [Extraction.ofTree_eq_below]
  exact ⟨rfl, rfl⟩

end CodeSurvey
