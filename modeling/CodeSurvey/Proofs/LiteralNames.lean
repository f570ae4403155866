import CodeSurvey.Proofs.CommentedRecords
import CodeSurvey.Proofs.ExportedRecords
import CodeSurvey.Proofs.QuotedLiteral
import CodeSurvey.Proofs.StatementShape

/-!
# Names that are read off literals

The record of an import names the module as a literal of the text does, and so does the
record of an export with its public name where that is a string. There are five such
places: import statements, the clauses of those that require a module, the calls that do
either, the lists of names to export, and the name for a whole namespace.

In each of them there is a record, and its name is the content of the literal without the
quotes at its ends, those of other kinds and escaped ones included (`Tree.Names`). So it is
the content of the literal if that has no quotes at its ends, and for no other literal
(`readsLiterals_parse`). That there are others is seen in `imports_quotedName`.
-/

namespace CodeSurvey

/-! ## What a literal names -/

/-- The name that is read off the literal. -/
structure Tree.Names (src : Source) (t : Tree) (name : String) : Prop where
  quoted : t.span.IsQuoted src
  trimmed : name = String.ofList (trimBoth isQuote (t.content src).toList)
  /-- It is the content if there are no quotes at the ends of the content. -/
  exact_iff : name = t.content src ↔ (∀ c ∈ (t.content src).toList.head?, isQuote c = false)
    ∧ ∀ c ∈ (t.content src).toList.getLast?, isQuote c = false

namespace Tree

variable {src : Source} {t u : Tree}

theorem names_unquoted (h : t.span.IsQuoted src) : t.Names src (t.unquoted src) :=
  ⟨h, unquoted_eq h, unquoted_eq_content_iff h⟩

theorem QuotesLiterals.of_mem (h : t.QuotesLiterals src) (hu : u ∈ t.preorder) :
    u.QuotesLiterals src := fun v hv => h v (mem_preorder_trans t hu hv)

theorem QuotesLiterals.child (h : t.QuotesLiterals src) (hu : u ∈ t.children) :
    u.QuotesLiterals src := by
  obtain ⟨l, f, s, cs⟩ := t
  exact (quotesLiterals_node.mp h).2 u hu

theorem QuotesLiterals.names (h : t.QuotesLiterals src) (hlabel : t.label.isLiteral = true) :
    t.Names src (t.unquoted src) := names_unquoted (h t t.mem_preorder_self hlabel)

theorem isLiteral_of_isLiteralText (h : t.isLiteralText = true) : t.label.isLiteral = true := by
  unfold isLiteralText at h
  split at h
  · rename_i hlabel
    rw [hlabel]
    rfl
  · rename_i hlabel
    rw [hlabel]
    rfl
  · cases h

theorem isLiteral_of_string (h : t.label = .named .stringLiteral) : t.label.isLiteral = true := by
  rw [h]
  rfl

/-! ## Where a literal stands -/

/-- The string by which an import statement names the module. -/
inductive NamesModule (t s : Tree) : ImportKind → Prop where
  /-- It is the statement's own. -/
  | statement (hsource : t.child? .source = some s)
    (honly : t.childOfKind? .importRequireClause = none) : NamesModule t s .static
  /-- It is that of the clause that requires the module. -/
  | clause {clause : Tree} (honly : t.child? .source = none)
    (hclause : t.childOfKind? .importRequireClause = some clause)
    (hsource : clause.child? .source = some s) : NamesModule t s .require

/-- The literal by which a call names the module that it imports: its first argument. -/
structure CallsModule (src : Source) (t s : Tree) (kind : ImportKind) : Prop where
  call : t.label = .named .callExpression
  importing : t.importingCall? src = some kind
  first : (t.child? .arguments).bind (·.namedChildren.head?) = some s
  literal : s.isLiteralText = true

/-- The public names of a list of specifiers. -/
def publicNames (t : Tree) : List Tree :=
  (t.namedChildren.filter (·.isKind .exportSpecifier)).filterMap fun specifier =>
    specifier.child? .alias <|> specifier.child? .name

theorem specifierNames_eq (src : Source) (t : Tree) :
    t.specifierNames src = t.publicNames.map (·.unquoted src) := by
  rw [publicNames, List.map_filterMap]
  rfl

theorem mem_children_of_namedChildren {t : Tree} (h : u ∈ t.namedChildren) : u ∈ t.children :=
  (List.mem_filter.mp h).1

theorem mem_of_childOfKind? {k : NodeKind} (h : t.childOfKind? k = some u) :
    u ∈ t.children ∧ u.label = .named k := by
  have hkind := List.find?_some h
  exact ⟨List.mem_of_find?_eq_some h, eq_of_beq hkind⟩

theorem QuotesLiterals.publicName (h : t.QuotesLiterals src) (hu : u ∈ t.publicNames) :
    u.QuotesLiterals src := by
  obtain ⟨specifier, hspecifier, hname⟩ := List.mem_filterMap.mp hu
  have hchild := h.child (mem_children_of_namedChildren (List.mem_filter.mp hspecifier).1)
  rw [Option.orElse_eq_orElse, Option.orElse_eq_or] at hname
  rcases Option.or_eq_some_iff.mp hname with hname | ⟨-, hname⟩
  · exact hchild.child (mem_of_child? hname).1
  · exact hchild.child (mem_of_child? hname).1

end Tree

/-! ## Records of imports -/

namespace Tree

variable {src : Source} {t : Tree}

/-- An import statement names its module by one string. -/
theorem exists_namesModule (hparts : t.Everywhere HasParts)
    (hlabel : t.label = .named .importStatement) :
    ∃ s kind, t.NamesModule s kind ∧ s.label = .named .stringLiteral
      ∧ (∀ src, t.QuotesLiterals src → s.QuotesLiterals src) := by
  have honce := hparts.root.importsOnce hlabel
  cases hsource : t.child? .source with
  | some s =>
      obtain ⟨hs, hfield⟩ := mem_of_child? hsource
      refine ⟨s, .static, .statement hsource ?_, hparts.root.source (.inl hlabel) s hs hfield,
        fun _ h => h.child hs⟩
      refine Option.eq_none_iff_forall_ne_some.mpr fun clause hclause => ?_
      exact honce ⟨⟨s, hs, hfield⟩, clause, mem_of_childOfKind? hclause⟩
  | none =>
      have hnone : ∀ u ∈ t.children, u.field ≠ some .source := by
        intro u hu hfield
        obtain ⟨v, -, hchild, -⟩ := exists_child?_of_field hu hfield
        rw [hsource] at hchild
        cases hchild
      obtain ⟨u, hu, hfield | hclause⟩ := hparts.root.imports hlabel
      · exact absurd hfield (hnone u hu)
      · obtain ⟨clause, hfound⟩ : ∃ clause, t.childOfKind? .importRequireClause = some clause :=
          Option.isSome_iff_exists.mp
            (List.find?_isSome.mpr ⟨u, hu, by rw [isKind, hclause]; rfl⟩)
        obtain ⟨hmem, hkind⟩ := mem_of_childOfKind? hfound
        have hclauseParts := (hparts.child hmem).root
        obtain ⟨v, hv, hvfield⟩ := hclauseParts.requires hkind
        obtain ⟨s, hs, hchild, hfield⟩ := exists_child?_of_field hv hvfield
        exact ⟨s, .require, .clause hsource hfound hchild, hclauseParts.source (.inr hkind) s hs hfield,
          fun _ h => (h.child hmem).child hs⟩

theorem importRecord?_of_namesModule (src : Source) {s : Tree} {kind : ImportKind}
    (h : t.NamesModule s kind) :
    ∃ names, t.importRecord? src = some ⟨s.unquoted src, names, kind⟩ := by
  rw [importRecord?_eq]
  cases h with
  | statement hsource _ =>
      rw [hsource]
      exact ⟨_, rfl⟩
  | clause honly hclause hsource =>
      rw [honly, hclause]
      dsimp only
      rw [Option.bind_some, hsource]
      exact ⟨_, rfl⟩

end Tree

theorem Cursor.importRecordAt?_of_callsModule {src : Source} {c : Cursor} {s : Tree}
    {kind : ImportKind} (h : c.tree.CallsModule src s kind) :
    ∃ names, c.importRecordAt? src = some ⟨s.unquoted src, names, kind⟩ := by
  rw [importRecordAt?, h.call]
  dsimp only
  rw [callImportRecord?, h.importing]
  dsimp only
  rw [h.first]
  dsimp only
  rw [if_pos h.literal]
  exact ⟨_, rfl⟩

/-- Only calls with a literal for a module have a record. -/
theorem Cursor.exists_callsModule {src : Source} {c : Cursor} {r : ImportRecord}
    (hlabel : c.tree.label = .named .callExpression) (h : c.importRecordAt? src = some r) :
    ∃ s, c.tree.CallsModule src s r.kind ∧ r.sourceModule = s.unquoted src := by
  rw [importRecordAt?, hlabel] at h
  dsimp only at h
  rw [callImportRecord?] at h
  split at h
  · cases h
  · rename_i kind hkind
    split at h
    · cases h
    · rename_i s hfirst
      split at h
      · rename_i hliteral
        obtain rfl := Option.some.inj h
        exact ⟨s, ⟨hlabel, hkind, hfirst, hliteral⟩, rfl⟩
      · cases h

/-! ## Records of exports -/

namespace Tree

variable {src : Source} {t : Tree}

/-- A list of names stands in an export statement alone. -/
theorem exportedNames_of_list (hparts : HasParts t.label t.children)
    (hlabel : t.label = .named .exportStatement) {list : Tree} (hmem : list ∈ t.children)
    (hlist : list.label.isExportList = true) :
    t.children.any (·.isToken "default") = false ∧ t.child? .declaration = none := by
  have halone := hparts.exports hlabel ⟨list, hmem, hlist⟩
  refine ⟨List.any_eq_false.mpr fun u hu => ?_, List.find?_eq_none.mpr fun u hu hfield => ?_⟩
  · exact Bool.not_eq_true _ ▸ beq_false_of_ne (halone u hu).1
  · exact (halone u hu).2 (eq_of_beq hfield)

theorem exportRecords_of_clause (hparts : HasParts t.label t.children)
    (hlabel : t.label = .named .exportStatement) {clause : Tree}
    (hclause : t.childOfKind? .exportClause = some clause) : t.exportRecords src
      = clause.publicNames.map fun s => ⟨s.unquoted src, .named, t.startLine src⟩ := by
  obtain ⟨hmem, hkind⟩ := mem_of_childOfKind? hclause
  obtain ⟨hdefault, hdeclaration⟩ :=
    exportedNames_of_list hparts hlabel hmem (by rw [hkind]; rfl)
  rw [exportRecords, exportedNames, hdefault, hdeclaration, hclause]
  dsimp only
  rw [if_neg Bool.false_ne_true, specifierNames_eq, List.map_map, List.map_map]
  rfl

theorem exportRecords_of_namespace (hparts : HasParts t.label t.children)
    (hlabel : t.label = .named .exportStatement) {name s : Tree}
    (hname : t.childOfKind? .namespaceExport = some name)
    (hfirst : name.namedChildren.head? = some s) :
    t.exportRecords src = [⟨s.unquoted src, .named, t.startLine src⟩] := by
  obtain ⟨hmem, hkind⟩ := mem_of_childOfKind? hname
  obtain ⟨hdefault, hdeclaration⟩ :=
    exportedNames_of_list hparts hlabel hmem (by rw [hkind]; rfl)
  have hclause : t.childOfKind? .exportClause = none := by
    refine Option.eq_none_iff_forall_ne_some.mpr fun clause hclause => ?_
    exact hparts.exportsOnce hlabel
      ⟨⟨clause, mem_of_childOfKind? hclause⟩, name, mem_of_childOfKind? hname⟩
  rw [exportRecords, exportedNames_of_leading hfirst src hdefault hdeclaration hclause hname]
  rfl

end Tree

/-! ## The names of all texts -/

/-- How the records of a tree get names from literals. -/
structure ReadsLiterals (src : Source) (t : Tree) : Prop where
  /-- An import statement names its module by a string, and has a record. -/
  imports : ∀ c ∈ (Cursor.ofTree t).walk, c.tree.label = .named .importStatement →
    ∃ s r, c.tree.NamesModule s r.kind ∧ s.label = .named .stringLiteral
      ∧ c.importRecordAt? src = some r ∧ s.Names src r.sourceModule
  /-- A call that names a module by a literal has a record. -/
  calls : ∀ c ∈ (Cursor.ofTree t).walk, ∀ s kind, c.tree.CallsModule src s kind →
    ∃ r, c.importRecordAt? src = some r ∧ r.kind = kind ∧ s.Names src r.sourceModule
  /-- No other call has one. -/
  onlyCalls : ∀ c ∈ (Cursor.ofTree t).walk, c.tree.label = .named .callExpression →
    ∀ r, c.importRecordAt? src = some r →
      ∃ s, c.tree.CallsModule src s r.kind ∧ s.Names src r.sourceModule
  /-- Every specifier of an export clause has a record, in their order. -/
  specifiers : ∀ c ∈ (Cursor.ofTree t).walk, c.tree.label = .named .exportStatement →
    ∀ clause, c.tree.childOfKind? .exportClause = some clause →
      c.exportRecordsAt src
          = clause.publicNames.map (fun s => ⟨s.unquoted src, .named, c.tree.startLine src⟩)
        ∧ ∀ s ∈ clause.publicNames, s.label = .named .stringLiteral →
          s.Names src (s.unquoted src)
  /-- A namespace has one record, with the name that stands first. -/
  namespaces : ∀ c ∈ (Cursor.ofTree t).walk, c.tree.label = .named .exportStatement →
    ∀ ns s, c.tree.childOfKind? .namespaceExport = some ns → ns.namedChildren.head? = some s →
      s.label = .named .stringLiteral →
        ∃ e, c.exportRecordsAt src = [e] ∧ e.kind = .named ∧ e.line = c.tree.startLine src
          ∧ s.Names src e.name

theorem Tree.CallsModule.quotesLiterals {src : Source} {t s : Tree} {kind : ImportKind}
    (h : t.CallsModule src s kind) (ht : t.QuotesLiterals src) : s.QuotesLiterals src := by
  obtain ⟨args, hargs, hfirst⟩ := Option.bind_eq_some_iff.mp h.first
  have hmem := List.mem_of_head? hfirst
  exact (ht.child (mem_of_child? hargs).1).child (mem_children_of_namedChildren hmem)

/-- In the tree of a text the names of modules and the public names of exports that are
literals are read off without the quotes at their ends, and so are the contents of exactly
those literals whose contents have no quotes there. -/
theorem readsLiterals_parse (src : Source) (d : Dialect) : ReadsLiterals src (src.parse d) := by
  have hquotes : ∀ c ∈ (Cursor.ofTree (src.parse d)).walk, c.tree.QuotesLiterals src :=
    fun c hc => (quotesLiterals_parse src d).of_mem (Cursor.tree_mem_preorder hc)
  have hparts : ∀ c ∈ (Cursor.ofTree (src.parse d)).walk, c.tree.Everywhere HasParts :=
    fun c hc => (hasParts_parse src d).of_mem (Cursor.tree_mem_preorder hc)
  refine ⟨fun c hc hlabel => ?_, fun c hc s kind hcall => ?_, fun c hc hlabel r hr => ?_,
    fun c hc hlabel clause hclause => ?_, fun c hc hlabel ns s hns hfirst hs => ?_⟩
  · obtain ⟨s, kind, hnames, hstring, hquoted⟩ := Tree.exists_namesModule (hparts c hc) hlabel
    obtain ⟨names, hrecord⟩ := Tree.importRecord?_of_namesModule src hnames
    refine ⟨s, ⟨s.unquoted src, names, kind⟩, hnames, hstring, ?_, ?_⟩
    · rw [Cursor.importRecordAt?, hlabel]
      exact hrecord
    · exact (hquoted src (hquotes c hc)).names (Tree.isLiteral_of_string hstring)
  · obtain ⟨names, hrecord⟩ := Cursor.importRecordAt?_of_callsModule hcall
    have hquoted := hcall.quotesLiterals (hquotes c hc)
    exact ⟨_, hrecord, rfl, hquoted.names (Tree.isLiteral_of_isLiteralText hcall.literal)⟩
  · obtain ⟨s, hcall, heq⟩ := Cursor.exists_callsModule hlabel hr
    have hquoted := hcall.quotesLiterals (hquotes c hc)
    refine ⟨s, hcall, ?_⟩
    rw [heq]
    exact hquoted.names (Tree.isLiteral_of_isLiteralText hcall.literal)
  · rw [Cursor.exportRecordsAt_eq hlabel]
    refine ⟨Tree.exportRecords_of_clause (hparts c hc).root hlabel hclause, fun s hs hstring => ?_⟩
    have hquoted := (hquotes c hc).child (Tree.mem_of_childOfKind? hclause).1
    exact (hquoted.publicName hs).names (Tree.isLiteral_of_string hstring)
  · rw [Cursor.exportRecordsAt_eq hlabel,
      Tree.exportRecords_of_namespace (hparts c hc).root hlabel hns hfirst]
    have hquoted := (hquotes c hc).child (Tree.mem_of_childOfKind? hns).1
    have hmem := Tree.mem_children_of_namedChildren (List.mem_of_head? hfirst)
    exact ⟨_, rfl, rfl, rfl, (hquoted.child hmem).names (Tree.isLiteral_of_string hs)⟩

/-- The tree of an import of a module whose name is in quotes itself. -/
def quotedName : Tree :=
  .node (.named .program) none ⟨0, 13⟩
    [.node (.named .importStatement) none ⟨0, 13⟩
      [Tree.ofToken "import" 0 6,
        (Tree.leaf .stringLiteral 7 12).withField .source,
        Tree.ofToken ";" 12 13]]

def quotedNameText : Source := .ofString "import \x22'a'\x22;"

/-- The quotes that belong to the name are taken off with the others. -/
theorem imports_quotedName :
    (Extraction.ofTree quotedNameText quotedName).imports = [⟨"a", [], .static⟩]
      ∧ (Tree.leaf .stringLiteral 7 12).content quotedNameText = "'a'" := by
  rw [Extraction.ofTree_eq_below]
  exact ⟨rfl, rfl⟩

end CodeSurvey
