import CodeSurvey.Proofs.TreeShape

/-!
# The shape of export statements

A function or a class stands in an export statement as its declaration, as its
default value, or as what is assigned to the exports, and in no other way. In a
declaration it is alone and has a name; where something is assigned, nothing else
in the statement looks like an export (`ExportShape`).

This is a matter of the grammar. The rules are known by the roots of their trees,
as far as an export statement can hold them (`Rule.top`), and all forms but that
of the export statement are settled by the checks of `TreeShape`
(`keepsShape_form`, `allTops_operand`). The forms of the export statement are gone
through one by one (`shape_exportStatement`). So the tree of every text is of this
shape (`hasShape_parse`).
-/

namespace CodeSurvey

/-! ## Functions and classes -/

namespace Label

/-- A function or a class that is a statement of its own. -/
def isDeclaration : Label → Bool
  | .named .functionDeclaration | .named .generatorFunctionDeclaration
  | .named .classDeclaration | .named .abstractClassDeclaration => true
  | _ => false

/-- A function or a class in an expression. -/
def isValue : Label → Bool
  | .named .functionExpression | .named .generatorFunction | .named .arrowFunction
  | .named .classExpression => true
  | _ => false

def isRecordable (l : Label) : Bool := l.isDeclaration || l.isValue

/-- What the record of an export does not look at. -/
def isSilent (l : Label) : Bool :=
  l ≠ .token "default" && l ≠ .token "*" && l ≠ .named .exportClause
    && l ≠ .named .namespaceExport

end Label

/-! ## The shape of an export statement -/

/-- How functions and classes stand among the children of an export statement. -/
inductive ExportShape (d : Dialect) (cs : List Tree) : Prop where
  /-- There is none. -/
  | plain (h : ∀ t ∈ cs, t.label.isRecordable = false)
  /-- As a default; a class in an expression is the value. -/
  | default (hdefault : ∃ t ∈ cs, t.label = .token "default")
    (hvalue : ∀ t ∈ cs, t.label = .named .classExpression → t.field = some .value)
  /-- As the declaration. -/
  | declaration (h : ∀ t ∈ cs, t.label.isRecordable = true → t.field = some .declaration)
    (hdeclaration : ∀ t ∈ cs, t.field = some .declaration → t.label.isDeclaration = true)
  /-- As what is assigned to the exports. -/
  | assignment (htyped : d.isTyped = true) (hsign : ∃ t ∈ cs, t.label = .token "=")
    (hsilent : ∀ t ∈ cs, t.label.isSilent = true ∧ t.field ≠ some .declaration)

/-- What the grammar says of the nodes around functions and classes. -/
structure HasShape (d : Dialect) (l : Label) (cs : List Tree) : Prop where
  /-- A declaration has a name. -/
  name : l.isDeclaration = true → ∃ t ∈ cs, t.field = some .name
  export_ : l = .named .exportStatement → ExportShape d cs

theorem ExportShape.of_sameTops {d : Dialect} {cs cs' : List Tree} (htops : Tree.SameTops cs cs')
    (h : ExportShape d cs) : ExportShape d cs' := by
  cases h with
  | plain h =>
      exact .plain (htops.forall_mem (Q := fun l _ => l.isRecordable = false) rfl rfl h)
  | default hdefault hvalue =>
      refine .default (htops.exists_mem (Q := fun l _ => l = .token "default") hdefault) ?_
      exact htops.forall_mem
        (Q := fun l f => l = .named .classExpression → f = some .value)
        (fun h => nomatch h) (fun h => nomatch h) hvalue
  | declaration h hdeclaration =>
      refine .declaration ?_ ?_
      · exact htops.forall_mem (Q := fun l f => l.isRecordable = true → f = some .declaration)
          (fun h => nomatch h) (fun h => nomatch h) h
      · exact htops.forall_mem (Q := fun l f => f = some .declaration → l.isDeclaration = true)
          (fun h => nomatch h) (fun h => nomatch h) hdeclaration
  | assignment htyped hsign hsilent =>
      refine .assignment htyped (htops.exists_mem (Q := fun l _ => l = .token "=") hsign) ?_
      exact htops.forall_mem
        (Q := fun l f => l.isSilent = true ∧ f ≠ some .declaration)
        ⟨by decide, fun h => (nomatch h)⟩ ⟨by decide, fun h => (nomatch h)⟩ hsilent

theorem toleratesComments_hasShape (d : Dialect) : Tree.ToleratesComments (HasShape d) where
  comment t ht := by
    obtain ⟨hlabel | hlabel, -, -⟩ := ht.top
    · rw [hlabel]
      exact ⟨fun h => (nomatch h), fun h => (nomatch h)⟩
    · rw [hlabel]
      exact ⟨fun h => (nomatch h), fun h => (nomatch h)⟩
  place l cs cs' htops h := by
    refine ⟨fun hl => ?_, fun hl => (h.export_ hl).of_sameTops htops⟩
    exact htops.exists_mem (Q := fun _ f => f = some .name) (h.name hl)

/-! ## The trees of the rules -/

namespace Rule

/-- The rules whose trees can stand for a value: they hold no field. -/
def isOperand : Rule → Bool
  | .expression | .operand | .arrowFunction | .assignment | .reach | .primary
  | .functionExpression | .classExpression | .parenthesized | .array | .object | .templateString
  | .markupElement => true
  | _ => false

/-- What is known of the roots of the trees of a rule. -/
def top (r : Rule) : Top :=
  match r with
  | .decorators => fun l f => l = .named .decorator && f = some .decorator
  | .declaration => fun l f => !l.isValue && f.isNone
  | r => fun l f => !r.isOperand || (l.isSilent && f.isNone)

theorem top_of_isOperand {r : Rule} (h : r.isOperand = true) :
    r.top = fun l f => l.isSilent && f.isNone := by
  unfold top
  split
  · cases h
  · cases h
  · rw [h]
    rfl

/-- The trees of a rule: all nodes have their shape, the roots are as is known, and
a declaration is one tree. -/
structure Yields (d : Dialect) (r : Rule) (ts : List Tree) : Prop where
  shape : ∀ t ∈ ts, t.Everywhere (HasShape d)
  top : ∀ t ∈ ts, t.hasTop r.top = true
  count : r = .declaration → ts.length = 1

end Rule

namespace Form

/-- The labels below which anything may be. -/
def isFree (l : Label) : Bool := !l.isDeclaration && l != .named .exportStatement

/-- A declaration with a name. -/
def isNamedDeclaration (k : NodeKind) (a : Form) : Bool :=
  k != .exportStatement && a.someTop fun _ f => f == some .name

theorem keepsShape_form (r : Rule) (hr : r ≠ .exportStatement) :
    r.form.keepsShape isFree isNamedDeclaration = true := by
  cases r
  case exportStatement => exact absurd rfl hr
  all_goals decide +kernel

theorem allTops_operand (r : Rule) (hr : r.isOperand = true) :
    r.form.allTops Rule.isOperand (fun l f => l.isSilent && f.isNone) = true := by
  revert hr
  cases r <;> decide +kernel

section Closed

variable {d : Dialect} {ts : List Tree}

theorem hasShape_of_isFree {l : Label} (h : isFree l = true) (cs : List Tree) : HasShape d l cs := by
  obtain ⟨hdeclaration, hexport⟩ : l.isDeclaration = false ∧ l ≠ .named .exportStatement := by
    simpa [isFree] using h
  exact ⟨fun hl => absurd hl (by simp [hdeclaration]), fun hl => absurd hl hexport⟩

theorem hasShape_of_isNamedDeclaration {k : NodeKind} {a : Form}
    (h : isNamedDeclaration k a = true) (hts : a.Contributes (Rule.Yields d) d ts) :
    HasShape d (.named k) ts := by
  obtain ⟨hkind, hname⟩ : k ≠ .exportStatement ∧ a.someTop (fun _ f => f == some .name) = true := by
    simpa [isNamedDeclaration] using h
  refine ⟨fun _ => ?_, fun hl => absurd (Label.named.inj hl) hkind⟩
  obtain ⟨t, ht, htop⟩ := exists_top_of_someTop hname hts
  exact ⟨t, ht, eq_of_beq htop⟩

theorem shape_of_keepsShape {a : Form} (h : a.keepsShape isFree isNamedDeclaration = true)
    (hts : a.Contributes (Rule.Yields d) d ts) : ∀ t ∈ ts, t.Everywhere (HasShape d) := by
  have hfree : ∀ l, isFree l = true → ∀ cs, HasShape d l cs :=
    fun _ hl cs => hasShape_of_isFree hl cs
  have hshaped : ∀ k a, isNamedDeclaration k a = true → ∀ ts,
      a.Contributes (Rule.Yields d) d ts → HasShape d (.named k) ts :=
    fun _ _ hk _ hts => hasShape_of_isNamedDeclaration hk hts
  exact everywhere_of_keepsShape hfree hshaped (fun _ _ hr => hr.shape) h hts

/-- The trees of a rule whose roots hold no field, put into one. -/
theorem exists_of_field {f : Field} {r : Rule}
    (hfield : ∀ t : Tree, t.hasTop r.top = true → t.field = none)
    (hts : (field f r).Contributes (Rule.Yields d) d ts) :
    ∃ xs, Rule.Yields d r xs ∧ ts = xs.map (Tree.withField f) := by
  obtain ⟨xs, hxs, rfl⟩ := hts
  refine ⟨xs, hxs, List.map_congr_left fun x hx => ?_⟩
  rw [hfield x (hxs.top x hx)]
  rfl

end Closed

end Form

/-! ## What an export statement holds -/

/-- A child of an export statement that has no part in what it makes public. -/
structure IsAside (t : Tree) : Prop where
  notRecordable : t.label.isRecordable = false
  silent : t.label.isSilent = true
  notDeclaration : t.field ≠ some .declaration

theorem isAside_token {text : String} (hdefault : text ≠ "default") (hstar : text ≠ "*")
    (start stop : Nat) : IsAside (Tree.ofToken text start stop) where
  notRecordable := rfl
  silent := by simp [Label.isSilent, Tree.ofToken, Tree.label, hdefault, hstar]
  notDeclaration := nofun

theorem isAside_decorator {t : Tree} (h : t.hasTop Rule.decorators.top = true) : IsAside t := by
  obtain ⟨hlabel, hfield⟩ : t.label = .named .decorator ∧ t.field = some .decorator := by
    simpa [Tree.hasTop, Rule.top] using h
  refine ⟨?_, ?_, ?_⟩
  · rw [hlabel]
    rfl
  · rw [hlabel]
    rfl
  · rw [hfield]
    decide

/-- Children with others in front of them that have no part. -/
theorem ExportShape.append {d : Dialect} {front cs : List Tree} (hfront : ∀ t ∈ front, IsAside t)
    (h : ExportShape d cs) : ExportShape d (front ++ cs) := by
  cases h with
  | plain h =>
      exact .plain (List.forall_mem_append.mpr ⟨fun t ht => (hfront t ht).notRecordable, h⟩)
  | default hdefault hvalue =>
      obtain ⟨t, ht, hlabel⟩ := hdefault
      refine .default ⟨t, List.mem_append_right front ht, hlabel⟩ ?_
      refine List.forall_mem_append.mpr ⟨fun t ht hclass => ?_, hvalue⟩
      have hrecordable := (hfront t ht).notRecordable
      rw [hclass] at hrecordable
      cases hrecordable
  | declaration h hdeclaration =>
      refine .declaration ?_ ?_
      · refine List.forall_mem_append.mpr ⟨fun t ht hrecordable => ?_, h⟩
        rw [(hfront t ht).notRecordable] at hrecordable
        cases hrecordable
      · refine List.forall_mem_append.mpr ⟨fun t ht hfield => ?_, hdeclaration⟩
        exact absurd hfield (hfront t ht).notDeclaration
  | assignment htyped hsign hsilent =>
      obtain ⟨t, ht, hlabel⟩ := hsign
      refine .assignment htyped ⟨t, List.mem_append_right front ht, hlabel⟩ ?_
      exact List.forall_mem_append.mpr
        ⟨fun t ht => ⟨(hfront t ht).silent, (hfront t ht).notDeclaration⟩, hsilent⟩

namespace Form

variable {d : Dialect} {ts : List Tree}

theorem isAside_terminator {afterOperand : Bool}
    (hts : (terminator afterOperand).Contributes (Rule.Yields d) d ts) : ∀ t ∈ ts, IsAside t := by
  rcases hts with hts | ⟨start, stop, rfl⟩
  · obtain rfl := hts
    exact fun _ ht => nomatch ht
  · exact List.forall_mem_singleton.mpr (isAside_token (by decide) (by decide) start stop)

theorem of_top_declaration {t : Tree} (h : t.hasTop Rule.declaration.top = true) :
    t.label.isValue = false ∧ t.field = none := by
  simpa [Tree.hasTop, Rule.top] using h

theorem of_top_expression {t : Tree} (h : t.hasTop Rule.expression.top = true) :
    t.label.isSilent = true ∧ t.field = none := by
  rw [Rule.top_of_isOperand rfl] at h
  simpa [Tree.hasTop] using h

theorem exportShape_of_allTops {a : Form}
    (h : a.allTops noRule (fun l _ => !l.isRecordable) = true)
    (hts : a.Contributes (Rule.Yields d) d ts) : ExportShape d ts := by
  refine .plain fun t ht => ?_
  simpa [Tree.hasTop] using top_of_noRule h hts t ht

/-- A declaration is exported under its names, a function or a class under its own. -/
theorem exportShape_of_declaration
    (hts : (field .declaration Rule.declaration).Contributes (Rule.Yields d) d ts) :
    ExportShape d ts := by
  obtain ⟨xs, hxs, rfl⟩ := exists_of_field (fun _ ht => (of_top_declaration ht).2) hts
  obtain ⟨x, rfl⟩ := List.length_eq_one_iff.mp (hxs.count rfl)
  obtain ⟨hvalue, -⟩ := of_top_declaration (hxs.top x (List.mem_singleton.mpr rfl))
  have hlabel : (x.withField .declaration).label = x.label := Tree.label_withField _ x
  have hfield : (x.withField .declaration).field = some .declaration := Tree.field_withField _ x
  rw [List.map_singleton]
  cases hdeclaration : x.label.isDeclaration with
  | true =>
      refine .declaration (List.forall_mem_singleton.mpr fun _ => hfield) ?_
      exact List.forall_mem_singleton.mpr fun _ => hlabel ▸ hdeclaration
  | false =>
      refine .plain (List.forall_mem_singleton.mpr ?_)
      rw [hlabel, Label.isRecordable, hdeclaration, hvalue]
      rfl

/-- The only class in an expression that a default export holds is its value. -/
theorem exportShape_of_default
    (hts : (seq (kw "default") (alt (field .declaration Rule.declaration)
      (inOrder [field .value Rule.expression, terminator true]))).Contributes (Rule.Yields d) d ts) :
    ExportShape d ts := by
  obtain ⟨xs, ys, ⟨text, start, stop, htext, rfl⟩, hys, rfl⟩ := hts
  obtain rfl := List.mem_singleton.mp htext
  refine .default ⟨_, List.mem_append_left ys (List.mem_singleton.mpr rfl), rfl⟩ ?_
  refine List.forall_mem_append.mpr ⟨List.forall_mem_singleton.mpr fun h => (nomatch h), ?_⟩
  rcases hys with hys | ⟨zs, us, hzs, hus, rfl⟩
  · obtain ⟨xs, hxs, rfl⟩ := exists_of_field (fun _ ht => (of_top_declaration ht).2) hys
    refine List.forall_mem_map.mpr fun x hx hclass => ?_
    obtain ⟨hvalue, -⟩ := of_top_declaration (hxs.top x hx)
    rw [← Tree.label_withField .declaration x, hclass] at hvalue
    cases hvalue
  · refine List.forall_mem_append.mpr ⟨?_, fun t ht hclass => ?_⟩
    · obtain ⟨xs, -, rfl⟩ := exists_of_field (fun _ ht => (of_top_expression ht).2) hzs
      exact List.forall_mem_map.mpr fun x _ _ => Tree.field_withField .value x
    · have hrecordable := (isAside_terminator hus t ht).notRecordable
      rw [hclass] at hrecordable
      cases hrecordable

/-- What is assigned to the exports has no part in what the statement makes public. -/
theorem exportShape_of_assignment (htyped : d.isTyped = true)
    (hts : (inOrder [op "=", rule .expression, terminator true]).Contributes
      (Rule.Yields d) d ts) :
    ExportShape d ts := by
  obtain ⟨xs, ys, ⟨text, start, stop, htext, rfl⟩, ⟨zs, us, hzs, hus, rfl⟩, rfl⟩ := hts
  obtain rfl := List.mem_singleton.mp htext
  refine .assignment htyped ⟨_, List.mem_append_left _ (List.mem_singleton.mpr rfl), rfl⟩ ?_
  have hsilent : ∀ t ∈ zs ++ us, t.label.isSilent = true ∧ t.field ≠ some .declaration := by
    refine List.forall_mem_append.mpr ⟨fun t ht => ?_, fun t ht => ?_⟩
    · obtain ⟨hlabel, hfield⟩ := of_top_expression (hzs.top t ht)
      exact ⟨hlabel, by simp [hfield]⟩
    · have haside := isAside_terminator hus t ht
      exact ⟨haside.silent, haside.notDeclaration⟩
  have hsign : IsAside (Tree.ofToken "=" start stop) :=
    isAside_token (by decide) (by decide) start stop
  exact List.forall_mem_cons.mpr ⟨⟨hsign.silent, hsign.notDeclaration⟩, hsilent⟩

theorem shape_exportStatement (hts : exportStatement.Contributes (Rule.Yields d) d ts) :
    ∀ t ∈ ts, t.Everywhere (HasShape d) := by
  obtain ⟨xs, ys, hxs, ⟨span, cs, hcs, rfl⟩, rfl⟩ := hts
  obtain rfl := hxs
  have hbelow := shape_of_keepsShape (by decide +kernel) hcs
  refine List.forall_mem_singleton.mpr (Tree.everywhere_node.mpr ⟨?_, hbelow⟩)
  refine ⟨fun h => (nomatch h), fun _ => ?_⟩
  obtain ⟨decorators, cs, hdecorators, ⟨zs, cs, ⟨text, start, stop, htext, rfl⟩,
    ⟨us, cs, hus, hcs, rfl⟩, rfl⟩, rfl⟩ := hcs
  obtain rfl := List.mem_singleton.mp htext
  obtain rfl := hus
  refine .append (fun t ht => isAside_decorator (hdecorators.top t ht)) (.append ?_ ?_)
  · exact List.forall_mem_singleton.mpr (isAside_token (by decide) (by decide) start stop)
  · rw [List.nil_append]
    rcases hcs with hlisted | (hdefault | hdeclaration) | ⟨⟨m, rfl, htyped⟩, hassigned | hrest⟩
    · exact exportShape_of_allTops (by decide +kernel) hlisted
    · exact exportShape_of_default hdefault
    · exact exportShape_of_declaration hdeclaration
    · exact exportShape_of_assignment htyped hassigned
    · exact exportShape_of_allTops (by decide +kernel) hrest

end Form

/-! ## The trees of all texts -/

namespace Rule

variable {d : Dialect} {ts : List Tree}

theorem top_of_contributes (r : Rule) (hts : r.form.Contributes (Yields d) d ts) :
    ∀ t ∈ ts, t.hasTop r.top = true := by
  cases hoperand : r.isOperand with
  | true =>
      have hknown : ∀ r : Rule, r.isOperand = true → ∀ ts, Yields d r ts →
          ∀ t ∈ ts, t.hasTop (fun l f => l.isSilent && f.isNone) = true := by
        intro r hr ts hts
        rw [← top_of_isOperand hr]
        exact hts.top
      rw [top_of_isOperand hoperand]
      exact Form.top_of_allTops hknown (Form.allTops_operand r hoperand) hts
  | false =>
      intro t ht
      unfold top
      split
      · exact Form.top_of_noRule (by decide +kernel) hts t ht
      · exact Form.top_of_noRule (by decide +kernel) hts t ht
      · rw [Tree.hasTop, hoperand]
        rfl

/-- What holds of the trees of the rules is kept by the forms. -/
theorem yields_of_contributes (r : Rule) (ts : List Tree)
    (hts : r.form.Contributes (Yields d) d ts) : Yields d r ts where
  shape := by
    by_cases hr : r = .exportStatement
    · subst hr
      exact Form.shape_exportStatement hts
    · exact Form.shape_of_keepsShape (Form.keepsShape_form r hr) hts
  top := top_of_contributes r hts
  count := by
    rintro rfl
    have hnone : ∀ r n, (fun _ : Rule => (none : Option Nat)) r = some n → ∀ ts, Yields d r ts →
        ts.length = n := fun _ _ h => nomatch h
    exact Form.length_of_count? hnone (by decide +kernel) hts

end Rule

/-- In the tree of a text all nodes have their shape. -/
theorem hasShape_parse (src : Source) (d : Dialect) : (src.parse d).Everywhere (HasShape d) := by
  refine everywhere_parse Rule.yields_of_contributes (fun ts hts => hts.shape)
    (toleratesComments_hasShape d) (fun src place => ?_) src
  refine Tree.everywhere_node.mpr ⟨Form.hasShape_of_isFree rfl _, ?_⟩
  refine List.forall_mem_singleton.mpr (Tree.everywhere_node.mpr ?_)
  exact ⟨⟨fun h => (nomatch h), fun h => (nomatch h)⟩, fun _ h => nomatch h⟩

end CodeSurvey
