import CodeSurvey.Proofs.AmbientExports
import CodeSurvey.Proofs.LiteralNames
import CodeSurvey.Proofs.PatternShape
import CodeSurvey.Proofs.TiledReading

/-!
# Names that patterns bind

A pattern binds its names, but for those in a key or in a default value. Said of a node by
itself: it is bound if it is a name, no node from it up to the pattern is a key or a default
value, and only patterns are around it (`Cursor.isBound`). The function that lists the names
goes down by fields and positions instead, and never looks at keys. Both meet because the
grammar leaves a child no other place (`Tree.boundNames_eq_bindings`).

One kind of name is passed over: the word `undefined`, where it is read as an expression
first. That is the case for elements, values of keys and rests, and not for the names of
objects or for a name alone. So the names that are listed are those that are bound if that
word is none of them, and only then (`listsBindings_parse`). The records of exports and of
imports take their names from there. One that is missing is in `undefinedElement`.
-/

namespace CodeSurvey

/-! ## The names that a pattern binds -/

namespace Label

/-- A name, as it stands in a pattern. -/
def isPatternName : Label → Bool
  | .named .identifier | .named .shorthandPropertyIdentifierPattern
  | .named .undefinedName => true
  | _ => false

/-- A pattern with others in it. -/
def isPattern : Label → Bool
  | .named .objectPattern | .named .arrayPattern | .named .pairPattern
  | .named .assignmentPattern | .named .objectAssignmentPattern | .named .restPattern => true
  | _ => false

theorem isPattern_of_isPatternName {l : Label} (h : l.isPatternName = true) :
    l.isPattern = false := by
  unfold isPatternName at h
  split at h <;> first | rfl | cases h

end Label

/-- The place of a key or of a default value. -/
def Field.isAside : Field → Bool
  | .key | .right => true
  | _ => false

/-- What is below the node is part of a pattern. -/
def Frame.isPattern (frame : Frame) : Bool :=
  frame.label.isPattern && !frame.field.any Field.isAside

/-- The node is a name that the tree binds. -/
def Cursor.isBound (c : Cursor) : Bool :=
  c.tree.label.isPatternName && !c.tree.field.any Field.isAside && c.above.all Frame.isPattern

namespace Tree

/-- The names that a pattern binds, in the order of the walk. -/
def boundNodes (t : Tree) : List Tree := ((Cursor.ofTree t).walk.filter (·.isBound)).map (·.tree)

mutual

/-- The same by recursion. -/
def bindings : Tree → List Tree
  | .node l f s cs =>
    if f.any Field.isAside then []
    else if l.isPatternName then [.node l f s cs]
    else if l.isPattern then bindingsAmong cs
    else []

def bindingsAmong : List Tree → List Tree
  | [] => []
  | t :: ts => t.bindings ++ bindingsAmong ts

end

end Tree

namespace Cursor

mutual

theorem map_filter_isBound_preorderFrom (above : List Frame) : (t : Tree) →
    ((preorderFrom above t).filter (·.isBound)).map (·.tree)
      = if above.all Frame.isPattern then t.bindings else []
  | .node l f s cs => by
      have hself : isBound ⟨.node l f s cs, above⟩
          = (l.isPatternName && !f.any Field.isAside && above.all Frame.isPattern) := rfl
      have hname := @Label.isPattern_of_isPatternName l
      rw [preorderFrom, List.filter_cons, apply_ite (List.map _), List.map_cons,
        map_filter_isBound_preorderAmong l f s above [] cs, hself, Tree.bindings]
      cases hl : l.isPatternName <;> cases hf : f.any Field.isAside
        <;> cases ha : above.all Frame.isPattern <;> simp_all

theorem map_filter_isBound_preorderAmong (l : Label) (f : Option Field) (s : Span)
    (above : List Frame) (before : List Tree) : (ts : List Tree) →
    ((preorderAmong l f s above before ts).filter (·.isBound)).map (·.tree)
      = if l.isPattern && !f.any Field.isAside && above.all Frame.isPattern
        then Tree.bindingsAmong ts else []
  | [] => by simp [preorderAmong, Tree.bindingsAmong]
  | t :: ts => by
      have hopen : (⟨l, f, s, before, ts⟩ :: above : List Frame).all Frame.isPattern
          = (l.isPattern && !f.any Field.isAside && above.all Frame.isPattern) := rfl
      rw [preorderAmong, List.filter_append, List.map_append,
        map_filter_isBound_preorderFrom _ t, hopen,
        map_filter_isBound_preorderAmong l f s above (t :: before) ts, Tree.bindingsAmong]
      split <;> rfl

end

end Cursor

namespace Tree

theorem boundNodes_eq_bindings (t : Tree) : t.boundNodes = t.bindings := by
  rw [boundNodes, Cursor.walk_ofTree, Cursor.map_filter_isBound_preorderFrom]
  rfl

variable {src : Source} {t u : Tree} {ts : List Tree}

theorem bindings_eq (t : Tree) : t.bindings
    = if t.field.any Field.isAside then []
      else if t.label.isPatternName then [t]
      else if t.label.isPattern then bindingsAmong t.children
      else [] := by
  obtain ⟨l, f, s, cs⟩ := t
  rw [bindings]
  rfl

theorem bindings_of_isAside (h : t.field.any Field.isAside = true) : t.bindings = [] := by
  rw [bindings_eq, if_pos h]

/-- Tokens bind nothing. -/
theorem bindings_of_not_isNamed (h : t.isNamed = false) : t.bindings = [] := by
  have hlabel : t.label.isPatternName = false ∧ t.label.isPattern = false := by
    cases hl : t.label with
    | named k =>
        rw [isNamed, hl] at h
        cases h
    | token text => exact ⟨rfl, rfl⟩
    | missing text => exact ⟨rfl, rfl⟩
  rw [bindings_eq, hlabel.1, hlabel.2]
  simp

/-! ## The names that are listed -/

/-- There are no comments in the tree. -/
def IsUncommented (t : Tree) : Prop := ∀ u ∈ t.preorder, u.label.isComment = false

theorem IsUncommented.child (h : t.IsUncommented) (hu : u ∈ t.children) : u.IsUncommented :=
  fun v hv => h v (mem_preorder_trans t (mem_preorder_of_mem_children hu) hv)

/-- Without comments the parts of a pattern are its children. -/
theorem IsUncommented.fill (h : t.IsUncommented) (hshape : PatternShape t.label t.children)
    {k : NodeKind} {slots : List Slot} (hlabel : t.label = .named k)
    (hslots : k.slots? = some slots) : Fill slots t.children := by
  have hall : ∀ u ∈ t.children, (!u.label.isComment) = true := by
    intro u hu
    rw [h.child hu u u.mem_preorder_self]
    rfl
  have hparts := hshape.parts k slots hlabel hslots
  rw [tops, List.filter_eq_self.mpr hall] at hparts
  exact List.forall₂_map_right_iff.mp hparts

/-- The names of the nodes, but for the word `undefined` where it is no identifier. -/
def identifierNames (src : Source) (ts : List Tree) : List String :=
  (ts.filter fun u => !u.isKind .undefinedName).map (·.text src)

theorem identifierNames_append (ts us : List Tree) :
    identifierNames src (ts ++ us) = identifierNames src ts ++ identifierNames src us := by
  rw [identifierNames, List.filter_append, List.map_append]
  rfl

theorem boundNamesOfNamed_eq (h : ∀ t ∈ ts, t.boundNames src = identifierNames src t.bindings) :
    boundNamesOfNamed src ts = identifierNames src (bindingsAmong ts) := by
  induction ts with
  | nil => rfl
  | cons t ts ih =>
      obtain ⟨ht, hts⟩ := List.forall_mem_cons.mp h
      rw [boundNamesOfNamed, bindingsAmong, identifierNames_append, ih hts]
      cases hnamed : t.isNamed with
      | true => rw [if_pos rfl, ht]
      | false =>
          rw [if_neg Bool.false_ne_true, bindings_of_not_isNamed hnamed]
          rfl

section Parts

variable (h : ∀ t ∈ ts, t.field.any Field.isAside = false →
  t.boundNames src = identifierNames src t.bindings)

include h

theorem boundNamesOfField_of_pair
    (hfill : Fill [Slot.node.holding .key, .token, Slot.node.holding .value] ts) :
    boundNamesOfField src .value ts = identifierNames src (bindingsAmong ts) := by
  obtain ⟨key, _, rfl, -, (hkey : key.field = some .key), hfill⟩ := hfill.first
  obtain ⟨colon, _, rfl, (hcolon : colon.isNamed = false), (hbare : colon.field = none),
    hfill⟩ := hfill.first
  obtain ⟨value, _, rfl, -, (hvalue : value.field = some .value), hfill⟩ := hfill.first
  obtain rfl := hfill.eq_nil
  have hnames : bindingsAmong [key, colon, value] = value.bindings := by
    have hkeyNames : key.bindings = [] := bindings_of_isAside (by rw [hkey]; rfl)
    simp [bindingsAmong, hkeyNames, bindings_of_not_isNamed hcolon]
  rw [hnames, ← h value (by simp) (by rw [hvalue]; rfl)]
  simp [boundNamesOfField, hkey, hbare, hvalue]

theorem boundNamesOfField_of_default
    (hfill : Fill [Slot.node.holding .left, .token, Slot.node.holding .right] ts) :
    boundNamesOfField src .left ts = identifierNames src (bindingsAmong ts) := by
  obtain ⟨target, _, rfl, -, (htarget : target.field = some .left), hfill⟩ := hfill.first
  obtain ⟨sign, _, rfl, (hsign : sign.isNamed = false), -, hfill⟩ := hfill.first
  obtain ⟨value, _, rfl, -, (hvalue : value.field = some .right), hfill⟩ := hfill.first
  obtain rfl := hfill.eq_nil
  have hnames : bindingsAmong [target, sign, value] = target.bindings := by
    have hvalueNames : value.bindings = [] := bindings_of_isAside (by rw [hvalue]; rfl)
    simp [bindingsAmong, hvalueNames, bindings_of_not_isNamed hsign]
  rw [hnames, ← h target (by simp) (by rw [htarget]; rfl)]
  simp [boundNamesOfField, htarget]

theorem boundNamesOfFirstNamed_of_rest (hfill : Fill [.token, .node] ts) :
    boundNamesOfFirstNamed src ts = identifierNames src (bindingsAmong ts) := by
  obtain ⟨dots, _, rfl, (hdots : dots.isNamed = false), -, hfill⟩ := hfill.first
  obtain ⟨target, _, rfl, (htarget : target.isNamed = true), (hbare : target.field = none),
    hfill⟩ := hfill.first
  obtain rfl := hfill.eq_nil
  have hnames : bindingsAmong [dots, target] = target.bindings := by
    simp [bindingsAmong, bindings_of_not_isNamed hdots]
  rw [hnames, ← h target (by simp) (by rw [hbare]; rfl)]
  simp [boundNamesOfFirstNamed, hdots, htarget]

end Parts

/-- The names that are listed for a pattern are those that it binds, but for the word
`undefined` where it is no identifier. -/
theorem boundNames_eq_bindings (hshape : t.Everywhere PatternShape) (hfree : t.IsUncommented)
    (hfield : t.field.any Field.isAside = false) :
    t.boundNames src = identifierNames src t.bindings := by
  induction t using Tree.induct with
  | step t ih =>
      have hchild : ∀ c ∈ t.children, c.field.any Field.isAside = false →
          c.boundNames src = identifierNames src c.bindings :=
        fun c hc => ih c hc (hshape.child hc) (hfree.child hc)
      have hlist : ∀ k : NodeKind, t.label = .named k → k.isPatternList = true →
          boundNamesOfNamed src t.children = identifierNames src (bindingsAmong t.children) := by
        refine fun k hlabel hk => boundNamesOfNamed_eq fun c hc => hchild c hc ?_
        rw [hshape.root.elements k hlabel hk c hc]
        rfl
      have hfill : ∀ {k : NodeKind} {slots}, t.label = .named k → k.slots? = some slots →
          Fill slots t.children := fun hlabel hslots => hfree.fill hshape.root hlabel hslots
      rw [boundNames_eq, bindings_eq, hfield, if_neg Bool.false_ne_true]
      split
      case h_1 hlabel | h_2 hlabel =>
        rw [hlabel]
        simp [identifierNames, isKind, hlabel, Label.isPatternName]
      case h_3 hlabel | h_4 hlabel =>
        rw [hlabel]
        exact hlist _ hlabel rfl
      case h_5 hlabel =>
        rw [hlabel]
        exact boundNamesOfField_of_pair hchild (hfill hlabel rfl)
      case h_6 hlabel | h_7 hlabel =>
        rw [hlabel]
        exact boundNamesOfField_of_default hchild (hfill hlabel rfl)
      case h_8 hlabel =>
        rw [hlabel]
        exact boundNamesOfFirstNamed_of_rest hchild (hfill hlabel rfl)
      case h_9 =>
        have hpattern : t.label.isPattern = false := by
          unfold Label.isPattern
          split <;> simp_all
        have hname : t.label.isPatternName = true → t.label = .named .undefinedName := by
          unfold Label.isPatternName
          split <;> simp_all
        rw [hpattern, if_neg Bool.false_ne_true]
        split
        · rename_i hundefined
          simp [identifierNames, isKind, hname hundefined]
        · rfl

/-! ## The order of the names -/

theorem bindingsAmong_eq_flatMap (ts : List Tree) : bindingsAmong ts = ts.flatMap bindings := by
  induction ts with
  | nil => rfl
  | cons t ts ih => rw [bindingsAmong, ih, List.flatMap_cons]

theorem mem_preorder_of_mem_bindings (h : u ∈ t.bindings) : u ∈ t.preorder := by
  rw [← boundNodes_eq_bindings] at h
  obtain ⟨c, hc, rfl⟩ := List.mem_map.mp h
  exact Cursor.tree_mem_preorder (List.mem_filter.mp hc).1

theorem mem_preorderOfAll_of_mem_bindingsAmong (h : u ∈ bindingsAmong ts) :
    u ∈ preorderOfAll ts := by
  rw [bindingsAmong_eq_flatMap] at h
  obtain ⟨t, ht, hu⟩ := List.mem_flatMap.mp h
  exact mem_preorderOfAll.mpr ⟨t, ht, mem_preorder_of_mem_bindings hu⟩

mutual

/-- No name stands in another one, so each begins behind those in front of it. -/
theorem pairwise_bindings : (t : Tree) → t.IsLaidOut →
    t.bindings.Pairwise fun u v => u.span.stop ≤ v.span.start
  | .node l f s cs, h => by
      rw [bindings]
      split
      · exact .nil
      · split
        · exact List.pairwise_singleton _ _
        · split
          · exact pairwise_bindingsAmong cs h
          · exact .nil

theorem pairwise_bindingsAmong {i stop : Nat} : (ts : List Tree) → AreLaidOut i stop ts →
    (bindingsAmong ts).Pairwise fun u v => u.span.stop ≤ v.span.start
  | [], _ => .nil
  | t :: ts, ⟨_, ht, hts⟩ => by
      rw [bindingsAmong, List.pairwise_append]
      refine ⟨pairwise_bindings t ht, pairwise_bindingsAmong ts hts, fun u hu v hv => ?_⟩
      have hleft := standsIn_of_mem_preorder t ht (mem_preorder_of_mem_bindings hu)
      have hright :=
        standsIn_of_mem_preorderOfAll ts hts (mem_preorderOfAll_of_mem_bindingsAmong hv)
      exact Nat.le_trans hleft.le_stop hright.start_le

end

/-! ## Patterns of declarations -/

/-- The names of all nodes are listed if and only if the word `undefined` is none of them. -/
theorem identifierNames_eq_map_iff : identifierNames src ts = ts.map (·.text src)
    ↔ ∀ u ∈ ts, u.label ≠ .named .undefinedName := by
  constructor
  · intro h
    have hlength := congrArg List.length h
    rw [identifierNames, List.length_map, List.length_map, List.length_filter_eq_length_iff]
      at hlength
    intro u hu hlabel
    have hkept := hlength u hu
    rw [isKind, hlabel] at hkept
    cases hkept
  · intro h
    rw [identifierNames, List.filter_eq_self.mpr]
    intro u hu
    exact bne_iff_ne.mpr (h u hu)

/-- The targets of a declaration of variables. -/
def patterns (t : Tree) : List Tree :=
  (t.namedChildren.filter (·.isKind .variableDeclarator)).filterMap (·.child? .name)

/-- How the names that a pattern binds are listed. -/
structure ListsNames (src : Source) (t : Tree) : Prop where
  names : t.boundNames src = identifierNames src t.boundNodes
  /-- They are in the order in which they stand in the text. -/
  order : t.boundNodes.Pairwise fun u v => u.span.stop ≤ v.span.start
  all_iff : t.boundNames src = t.boundNodes.map (·.text src)
    ↔ ∀ u ∈ t.boundNodes, u.label ≠ .named .undefinedName

theorem boundNames_of_target {declarator p : Tree} (hshape : declarator.Everywhere PatternShape)
    (hp : declarator.child? .name = some p) (hfree : p.IsUncommented) :
    p.boundNames src = identifierNames src p.boundNodes := by
  obtain ⟨hmem, hfield⟩ := mem_of_child? hp
  rw [boundNodes_eq_bindings]
  exact boundNames_eq_bindings (hshape.child hmem) hfree (by rw [hfield]; rfl)

theorem flatMap_boundNames_of_targets {ds : List Tree}
    (hshape : ∀ d ∈ ds, d.Everywhere PatternShape)
    (hfree : ∀ p ∈ ds.filterMap (·.child? .name), p.IsUncommented) :
    (ds.flatMap fun d => ((d.child? .name).map (·.boundNames src)).getD [])
      = identifierNames src ((ds.filterMap (·.child? .name)).flatMap boundNodes) := by
  induction ds with
  | nil => rfl
  | cons d ds ih =>
      obtain ⟨hd, hds⟩ := List.forall_mem_cons.mp hshape
      rw [List.flatMap_cons]
      cases hp : d.child? .name with
      | none =>
          simp only [List.filterMap_cons, hp] at hfree ⊢
          exact ih hds hfree
      | some p =>
          simp only [List.filterMap_cons, hp] at hfree ⊢
          obtain ⟨hpfree, hrest⟩ := List.forall_mem_cons.mp hfree
          rw [ih hds hrest, List.flatMap_cons, identifierNames_append,
            ← boundNames_of_target hd hp hpfree]
          rfl

theorem declaredNames_of_patterns (hshape : t.Everywhere PatternShape)
    (hlabel : t.label.isVariables = true) (hfree : ∀ p ∈ t.patterns, p.IsUncommented) :
    t.declaredNames src = identifierNames src (t.patterns.flatMap boundNodes) := by
  rw [declaredNames_of_isVariables hlabel]
  refine flatMap_boundNames_of_targets (fun d hd => ?_) hfree
  exact hshape.child (mem_children_of_namedChildren (List.mem_filter.mp hd).1)

end Tree

/-! ## The records of all texts -/

/-- How the names that declarations bind get into the records of a tree. -/
structure ListsBindings (src : Source) (t : Tree) : Prop where
  /-- A declarator has a target. Without comments the names of the target are listed. -/
  targets : ∀ c ∈ (Cursor.ofTree t).walk, c.tree.label = .named .variableDeclarator →
    ∃ p, c.tree.child? .name = some p ∧ (p.IsUncommented → p.ListsNames src)
  /-- The export statement of a declaration of variables has a record for each name that is
  listed, in their order, on the line of the statement. -/
  exports : ∀ c ∈ (Cursor.ofTree t).walk, ∀ a, c.tree.ExportsDeclaration a →
    a.label.isVariables = true → (∀ p ∈ a.patterns, p.IsUncommented) →
      c.exportRecordsAt src
        = (Tree.identifierNames src (a.patterns.flatMap (·.boundNodes))).map
          fun name => ⟨name, .named, c.tree.startLine src⟩
  /-- A call of `require` that is the value of a declarator has the names of its target. -/
  requires : ∀ c ∈ (Cursor.ofTree t).walk, ∀ s, c.tree.CallsModule src s .require →
    ∀ declarator p, c.enclosingDeclarator? = some declarator →
      declarator.tree.child? .name = some p → p.IsUncommented →
        c.importRecordAt? src
          = some ⟨s.unquoted src, Tree.identifierNames src p.boundNodes, .require⟩

theorem Cursor.parent?_of_enclosingDeclarator? {c d : Cursor}
    (h : c.enclosingDeclarator? = some d) : c.parent? = some d := by
  unfold enclosingDeclarator? at h
  split at h
  · exact h
  · cases h

theorem Cursor.callImportRecord?_of_require {src : Source} {c d : Cursor} {s p : Tree}
    (h : c.tree.CallsModule src s .require) (hd : c.enclosingDeclarator? = some d)
    (hp : d.tree.child? .name = some p) :
    c.importRecordAt? src = some ⟨s.unquoted src, p.boundNames src, .require⟩ := by
  rw [importRecordAt?, h.call]
  dsimp only
  rw [callImportRecord?, h.importing]
  dsimp only
  rw [h.first]
  dsimp only
  rw [if_pos h.literal, requiredNames, hd, Option.bind_some, hp]

/-- In the tree of a text a declaration lists the names that its patterns bind, once for each
and in the order of the text, and no others; those are all, but for the word `undefined`
where it is no identifier. The records of an export and of a call of `require` have just
these. -/
theorem listsBindings_parse (src : Source) (d : Dialect) : ListsBindings src (src.parse d) := by
  have hshape : ∀ c ∈ (Cursor.ofTree (src.parse d)).walk, c.tree.Everywhere PatternShape :=
    fun c hc => (patternShape_parse src d).of_mem (Cursor.tree_mem_preorder hc)
  have hlaid : ∀ c ∈ (Cursor.ofTree (src.parse d)).walk,
      c.tree.label = .named .variableDeclarator → ∀ p ∈ c.tree.children, p.IsLaidOut := by
    intro c hc hlabel p hp
    have hmem := Cursor.tree_mem_preorder hc
    rcases parse_cases src d with htree | ⟨place, hfault⟩
    · have hbelow := Tree.mem_preorder_trans _ hmem (Tree.mem_preorder_of_mem_children hp)
      exact Tree.isLaidOut_of_mem_preorder _ htree.isLaidOut hbelow
    · -- there is no declarator in the tree that shows a fault
      rw [hfault] at hmem
      rcases List.mem_cons.mp hmem with hroot | hbelow
      · rw [hroot] at hlabel
        cases hlabel
      · rw [List.mem_singleton.mp hbelow] at hlabel
        cases hlabel
  refine ⟨fun c hc hlabel => ?_, fun c hc a ha hlabel hfree => ?_,
    fun c hc s hcall declarator p hd hp hfree => ?_⟩
  · obtain ⟨u, hu, hfield⟩ := (hshape c hc).root.target hlabel
    obtain ⟨p, -, hp, -⟩ := Tree.exists_child?_of_field hu hfield
    refine ⟨p, hp, fun hfree => ?_⟩
    have hnames : p.boundNames src = Tree.identifierNames src p.boundNodes :=
      Tree.boundNames_of_target (hshape c hc) hp hfree
    refine ⟨hnames, ?_, by rw [hnames, Tree.identifierNames_eq_map_iff]⟩
    rw [Tree.boundNodes_eq_bindings]
    exact Tree.pairwise_bindings _ (hlaid c hc hlabel _ (Tree.mem_of_child? hp).1)
  · have hchild := (hshape c hc).child (Tree.mem_of_child? ha.child).1
    rw [Cursor.exportRecordsAt_eq ha.isExport, Tree.exportRecords_of_declaration ha,
      Tree.declaredNames_of_patterns hchild hlabel hfree]
  · have hmem := Cursor.parent?_mem_walk hc (Cursor.parent?_of_enclosingDeclarator? hd)
    rw [Cursor.callImportRecord?_of_require hcall hd hp,
      Tree.boundNames_of_target (hshape declarator hmem) hp hfree]

/-- The pattern in `undefinedElement`. -/
def undefinedPattern : Tree :=
  .node (.named .arrayPattern) (some .name) ⟨13, 24⟩
    [Tree.ofToken "[" 13 14, Tree.leaf .undefinedName 14 23, Tree.ofToken "]" 23 24]

/-- The tree of `undefinedElementText`. -/
def undefinedElement : Tree :=
  .node (.named .program) none ⟨0, 29⟩
    [.node (.named .exportStatement) none ⟨0, 29⟩
      [Tree.ofToken "export" 0 6,
        .node (.named .lexicalDeclaration) (some .declaration) ⟨7, 29⟩
          [(Tree.ofToken "const" 7 12).withField .kind,
            .node (.named .variableDeclarator) none ⟨13, 28⟩
              [undefinedPattern, Tree.ofToken "=" 25 26,
                (Tree.leaf .identifier 27 28).withField .value],
            Tree.ofToken ";" 28 29]]]

def undefinedElementText : Source := .ofString "export const [undefined] = e;"

/-- The pattern binds the name, and the statement has no record of it. -/
theorem exports_undefinedElement :
    (Extraction.ofTree undefinedElementText undefinedElement).exports = []
      ∧ undefinedPattern.boundNodes.map (·.text undefinedElementText) = ["undefined"] := by
  rw [Extraction.ofTree_eq_below, Tree.boundNodes_eq_bindings]
  exact ⟨rfl, rfl⟩

end CodeSurvey
