import CodeSurvey.Proofs.TreeShape

/-!
# The parts of import and export statements

What the records of imports and exports look for in a statement is there, and nothing else
is that could be taken for it (`HasParts`):

- an import statement names its module by a string, of its own or in the clause that
  requires it, and not by both;
- an export statement with a list of names, or with a name for all, has one of the two, and
  neither a default nor a declaration;
- a declaration that introduces a name holds it, and an ambient declaration holds none, as
  the name is that of the declaration in it.

The trees of nearly all rules stand for themselves: they hold no field, and are no list of
names (`Rule.isBare`). With this all forms but that of the export statement are settled by
checks. Two of them are made here: `Form.holdsOne` for a field that is held by one tree for
certain, and `Form.apart` for two sorts of trees of which at most one occurs.
-/

namespace CodeSurvey

/-! ## Checks on forms -/

namespace Form

variable {rules : Contributions} {d : Dialect}

/-- One of the trees that the form contributes holds the field. -/
def holdsOne (f : Field) : Form → Bool
  | field g a =>
    g == f && a.count? (fun _ => none) == some 1 && a.allTops noRule fun _ h => h.isNone
  | seq a b => a.holdsOne f || b.holdsOne f
  | _ => false

theorem exists_field_of_holdsOne {f : Field} {a : Form} (h : a.holdsOne f = true) {ts : List Tree}
    (hts : a.Contributes rules d ts) : ∃ t ∈ ts, t.field = some f := by
  induction a generalizing ts with
  | field g a _ =>
      simp only [holdsOne, Bool.and_eq_true] at h
      obtain ⟨⟨hfield, hcount⟩, htops⟩ := h
      obtain rfl := eq_of_beq hfield
      obtain ⟨xs, hxs, rfl⟩ := hts
      have hnone : ∀ r n, (fun _ : Rule => (none : Option Nat)) r = some n → ∀ ts, rules r ts →
          ts.length = n := fun _ _ h => nomatch h
      have hone : xs.length = 1 := length_of_count? hnone (eq_of_beq hcount) hxs
      obtain ⟨x, rfl⟩ := List.length_eq_one_iff.mp hone
      have hfree : x.field.isNone = true := top_of_noRule htops hxs x (List.mem_singleton.mpr rfl)
      refine ⟨x.withField g, ?_, Tree.field_withField g x⟩
      rw [List.map_singleton, if_pos hfree]
      exact List.mem_singleton.mpr rfl
  | seq a b iha ihb =>
      obtain ⟨xs, ys, hxs, hys, rfl⟩ := hts
      rcases Bool.or_eq_true_iff.mp h with h | h
      · obtain ⟨t, ht, hfield⟩ := iha h hxs
        exact ⟨t, List.mem_append_left _ ht, hfield⟩
      · obtain ⟨t, ht, hfield⟩ := ihb h hys
        exact ⟨t, List.mem_append_right _ ht, hfield⟩
  | _ => cases h

/-- None of the trees that the form contributes meets the condition. -/
def lacks (q : Top) (a : Form) : Bool := a.allTops noRule fun l f => !q l f

theorem not_top_of_lacks {q : Top} {a : Form} (h : a.lacks q = true) {ts : List Tree}
    (hts : a.Contributes rules d ts) : ¬∃ t ∈ ts, t.hasTop q = true := by
  rintro ⟨t, ht, htop⟩
  have hnot := top_of_noRule h hts t ht
  simp only [Tree.hasTop] at hnot htop
  rw [htop] at hnot
  cases hnot

/-- Of the trees that the form contributes, some may meet the one condition or the other,
but not both. -/
def apart (p q : Top) : Form → Bool
  | seq a b => (a.apart p q && b.apart p q)
    && ((a.lacks p || b.lacks q) && (a.lacks q || b.lacks p))
  | alt a b => a.apart p q && b.apart p q
  | a => a.lacks p || a.lacks q

theorem not_both_of_lacks {p q : Top} {a : Form} (h : (a.lacks p || a.lacks q) = true)
    {ts : List Tree} (hts : a.Contributes rules d ts) :
    ¬((∃ t ∈ ts, t.hasTop p = true) ∧ ∃ t ∈ ts, t.hasTop q = true) := by
  rintro ⟨hp, hq⟩
  rcases Bool.or_eq_true_iff.mp h with h | h
  · exact not_top_of_lacks h hts hp
  · exact not_top_of_lacks h hts hq

theorem not_both_of_apart {p q : Top} {a : Form} (h : a.apart p q = true) {ts : List Tree}
    (hts : a.Contributes rules d ts) :
    ¬((∃ t ∈ ts, t.hasTop p = true) ∧ ∃ t ∈ ts, t.hasTop q = true) := by
  induction a generalizing ts with
  | seq a b iha ihb =>
      simp only [apart, Bool.and_eq_true] at h
      obtain ⟨⟨ha, hb⟩, hpq, hqp⟩ := h
      obtain ⟨xs, ys, hxs, hys, rfl⟩ := hts
      rintro ⟨⟨t, ht, hp⟩, u, hu, hq⟩
      rcases List.mem_append.mp ht with ht | ht
      · rcases List.mem_append.mp hu with hu | hu
        · exact iha ha hxs ⟨⟨t, ht, hp⟩, u, hu, hq⟩
        · rcases Bool.or_eq_true_iff.mp hpq with h | h
          · exact not_top_of_lacks h hxs ⟨t, ht, hp⟩
          · exact not_top_of_lacks h hys ⟨u, hu, hq⟩
      · rcases List.mem_append.mp hu with hu | hu
        · rcases Bool.or_eq_true_iff.mp hqp with h | h
          · exact not_top_of_lacks h hxs ⟨u, hu, hq⟩
          · exact not_top_of_lacks h hys ⟨t, ht, hp⟩
        · exact ihb hb hys ⟨⟨t, ht, hp⟩, u, hu, hq⟩
  | alt a b iha ihb =>
      obtain ⟨ha, hb⟩ := Bool.and_eq_true_iff.mp h
      rcases hts with hts | hts
      · exact iha ha hts
      · exact ihb hb hts
  | _ => exact not_both_of_lacks h hts

end Form

/-! ## Import statements and declarations -/

namespace Label

/-- A declaration that introduces one name. -/
def declaresName : Label → Bool
  | .named .functionDeclaration | .named .generatorFunctionDeclaration | .named .functionSignature
  | .named .classDeclaration | .named .abstractClassDeclaration | .named .interfaceDeclaration
  | .named .typeAliasDeclaration | .named .enumDeclaration | .named .module
  | .named .internalModule => true
  | _ => false

/-- What says by which names an export statement makes something public. -/
def isExportList : Label → Bool
  | .named .exportClause | .named .namespaceExport => true
  | _ => false

end Label

/-- What the grammar says of the parts of statements and declarations. -/
structure HasParts (l : Label) (cs : List Tree) : Prop where
  /-- What is imported is named by strings. -/
  source : l = .named .importStatement ∨ l = .named .importRequireClause →
    ∀ t ∈ cs, t.field = some .source → t.label = .named .stringLiteral
  imports : l = .named .importStatement →
    ∃ t ∈ cs, t.field = some .source ∨ t.label = .named .importRequireClause
  importsOnce : l = .named .importStatement →
    ¬((∃ t ∈ cs, t.field = some .source) ∧ ∃ t ∈ cs, t.label = .named .importRequireClause)
  requires : l = .named .importRequireClause → ∃ t ∈ cs, t.field = some .source
  /-- A list of names stands alone. -/
  exports : l = .named .exportStatement → (∃ t ∈ cs, t.label.isExportList = true) →
    ∀ t ∈ cs, t.label ≠ .token "default" ∧ t.field ≠ some .declaration
  exportsOnce : l = .named .exportStatement →
    ¬((∃ t ∈ cs, t.label = .named .exportClause) ∧ ∃ t ∈ cs, t.label = .named .namespaceExport)
  name : l.declaresName = true → ∃ t ∈ cs, t.field = some .name
  /-- The name is that of the declaration in it. -/
  ambient : l = .named .ambientDeclaration → ∀ t ∈ cs, t.field ≠ some .name

/-- Of other nodes no more is asked than a name. -/
theorem hasParts_of_other {l : Label} {cs : List Tree}
    (hname : l.declaresName = true → ∃ t ∈ cs, t.field = some .name)
    (himport : l ≠ .named .importStatement) (hrequire : l ≠ .named .importRequireClause)
    (hexport : l ≠ .named .exportStatement) (hambient : l ≠ .named .ambientDeclaration) :
    HasParts l cs where
  source h := absurd h (not_or.mpr ⟨himport, hrequire⟩)
  imports h := absurd h himport
  importsOnce h := absurd h himport
  requires h := absurd h hrequire
  exports h := absurd h hexport
  exportsOnce h := absurd h hexport
  name := hname
  ambient h := absurd h hambient

theorem hasParts_importStatement {cs : List Tree}
    (hsource : ∀ t ∈ cs, t.field = some .source → t.label = .named .stringLiteral)
    (himports : ∃ t ∈ cs, t.field = some .source ∨ t.label = .named .importRequireClause)
    (honce : ¬((∃ t ∈ cs, t.field = some .source)
      ∧ ∃ t ∈ cs, t.label = .named .importRequireClause)) :
    HasParts (.named .importStatement) cs where
  source _ := hsource
  imports _ := himports
  importsOnce _ := honce
  requires := nofun
  exports := nofun
  exportsOnce := nofun
  name := nofun
  ambient := nofun

theorem hasParts_importRequireClause {cs : List Tree}
    (hsource : ∀ t ∈ cs, t.field = some .source → t.label = .named .stringLiteral)
    (hrequires : ∃ t ∈ cs, t.field = some .source) :
    HasParts (.named .importRequireClause) cs where
  source _ := hsource
  imports := nofun
  importsOnce := nofun
  requires _ := hrequires
  exports := nofun
  exportsOnce := nofun
  name := nofun
  ambient := nofun

theorem hasParts_exportStatement {cs : List Tree}
    (hexports : (∃ t ∈ cs, t.label.isExportList = true) →
      ∀ t ∈ cs, t.label ≠ .token "default" ∧ t.field ≠ some .declaration)
    (honce : ¬((∃ t ∈ cs, t.label = .named .exportClause)
      ∧ ∃ t ∈ cs, t.label = .named .namespaceExport)) :
    HasParts (.named .exportStatement) cs where
  source := nofun
  imports := nofun
  importsOnce := nofun
  requires := nofun
  exports _ := hexports
  exportsOnce _ := honce
  name := nofun
  ambient := nofun

theorem hasParts_ambientDeclaration {cs : List Tree} (h : ∀ t ∈ cs, t.field ≠ some .name) :
    HasParts (.named .ambientDeclaration) cs where
  source := nofun
  imports := nofun
  importsOnce := nofun
  requires := nofun
  exports := nofun
  exportsOnce := nofun
  name := nofun
  ambient _ := h

theorem toleratesComments_hasParts : Tree.ToleratesComments HasParts where
  comment t ht := by
    obtain ⟨hlabel | hlabel, -, -⟩ := ht.top
    all_goals
      rw [hlabel]
      exact hasParts_of_other nofun nofun nofun nofun nofun
  place _ _ _ htops h := {
    source := fun hl => htops.forall_mem
      (Q := fun l f => f = some .source → l = .named .stringLiteral) nofun nofun (h.source hl)
    imports := fun hl => htops.exists_mem
      (Q := fun l f => f = some .source ∨ l = .named .importRequireClause) (h.imports hl)
    importsOnce := fun hl hboth => h.importsOnce hl
      ⟨htops.exists_old (Q := fun _ f => f = some .source) nofun nofun hboth.1,
        htops.exists_old (Q := fun l _ => l = .named .importRequireClause) nofun nofun hboth.2⟩
    requires := fun hl => htops.exists_mem (Q := fun _ f => f = some .source) (h.requires hl)
    exports := fun hl hlist => htops.forall_mem
      (Q := fun l f => l ≠ .token "default" ∧ f ≠ some .declaration) ⟨nofun, nofun⟩ ⟨nofun, nofun⟩
      (h.exports hl (htops.exists_old (Q := fun l _ => l.isExportList = true) nofun nofun hlist))
    exportsOnce := fun hl hboth => h.exportsOnce hl
      ⟨htops.exists_old (Q := fun l _ => l = .named .exportClause) nofun nofun hboth.1,
        htops.exists_old (Q := fun l _ => l = .named .namespaceExport) nofun nofun hboth.2⟩
    name := fun hl => htops.exists_mem (Q := fun _ f => f = some .name) (h.name hl)
    ambient := fun hl => htops.forall_mem (Q := fun _ f => f ≠ some .name) nofun nofun
      (h.ambient hl) }

/-! ## The trees of the rules -/

namespace Rule

/-- The rules whose trees hold no field and are no list of names. -/
def isBare : Rule → Bool
  | .decorators | .callSignature | .plainCallSignature => false
  | _ => true

def bareTop : Top := fun l f => f.isNone && !l.isExportList

def decoratorTop : Top := fun l f => l == .named .decorator && f == some .decorator

/-- The trees of a rule: all nodes have their parts, and the roots are as is known. -/
structure YieldsParts (r : Rule) (ts : List Tree) : Prop where
  parts : ∀ t ∈ ts, t.Everywhere HasParts
  bare : r.isBare = true → ∀ t ∈ ts, t.hasTop bareTop = true
  decorators : r = .decorators → ∀ t ∈ ts, t.hasTop decoratorTop = true

end Rule

namespace Form

/-- The labels of which nothing is asked. -/
def isOther (l : Label) : Bool :=
  !l.declaresName && l != .named .importStatement && l != .named .importRequireClause
    && l != .named .exportStatement && l != .named .ambientDeclaration

def sourceTop : Top := fun _ f => f == some .source

def requireTop : Top := fun l _ => l == .named .importRequireClause

/-- Nodes of the kind have their parts if they are of the form. -/
def givesParts (k : NodeKind) (a : Form) : Bool :=
  match k with
  | .importStatement =>
    (a.allTops noRule fun l f => f != some .source || l == .named .stringLiteral)
      && (a.someTop (fun l f => f == some .source || l == .named .importRequireClause)
        && a.apart sourceTop requireTop)
  | .importRequireClause =>
    (a.allTops noRule fun l f => f != some .source || l == .named .stringLiteral)
      && a.someTop sourceTop
  | .exportStatement => false
  | .ambientDeclaration => a.allTops Rule.isBare fun _ f => f != some .name
  | _ => a.holdsOne .name

theorem keepsParts_form (r : Rule) (hr : r ≠ .exportStatement) :
    r.form.keepsShape isOther givesParts = true := by
  cases r
  case exportStatement => exact absurd rfl hr
  all_goals decide +kernel

theorem allTops_bare (r : Rule) (hr : r.isBare = true) :
    r.form.allTops Rule.isBare Rule.bareTop = true := by
  revert hr
  cases r <;> decide +kernel

section Closed

variable {d : Dialect} {ts : List Tree}

theorem hasParts_of_isOther {l : Label} (h : isOther l = true) (cs : List Tree) : HasParts l cs := by
  simp only [isOther, Bool.and_eq_true, Bool.not_eq_true', bne_iff_ne] at h
  obtain ⟨⟨⟨⟨hname, himport⟩, hrequire⟩, hexport⟩, hambient⟩ := h
  refine hasParts_of_other (fun hl => ?_) himport hrequire hexport hambient
  rw [hname] at hl
  cases hl

theorem source_of_allTops {a : Form}
    (h : (a.allTops noRule fun l f => f != some .source || l == .named .stringLiteral) = true)
    (hts : a.Contributes Rule.YieldsParts d ts) :
    ∀ t ∈ ts, t.field = some .source → t.label = .named .stringLiteral := by
  intro t ht hfield
  have htop := top_of_noRule h hts t ht
  simpa [Tree.hasTop, hfield] using htop

theorem hasParts_of_givesParts {k : NodeKind} {a : Form} (h : givesParts k a = true)
    (hts : a.Contributes Rule.YieldsParts d ts) : HasParts (.named k) ts := by
  unfold givesParts at h
  split at h
  · obtain ⟨hsource, hrest⟩ := Bool.and_eq_true_iff.mp h
    obtain ⟨himports, hapart⟩ := Bool.and_eq_true_iff.mp hrest
    obtain ⟨t, ht, htop⟩ := exists_top_of_someTop himports hts
    have hboth := not_both_of_apart hapart hts
    refine hasParts_importStatement (source_of_allTops hsource hts) ⟨t, ht, ?_⟩ ?_
    · simpa [Tree.hasTop] using htop
    · simpa [Tree.hasTop, sourceTop, requireTop] using hboth
  · obtain ⟨hsource, hrequires⟩ := Bool.and_eq_true_iff.mp h
    obtain ⟨t, ht, htop⟩ := exists_top_of_someTop hrequires hts
    exact hasParts_importRequireClause (source_of_allTops hsource hts) ⟨t, ht, eq_of_beq htop⟩
  · cases h
  · have hbare : ∀ r : Rule, r.isBare = true → ∀ ts, Rule.YieldsParts r ts →
        ∀ t ∈ ts, t.hasTop (fun _ f => f != some .name) = true := by
      intro r hr ts hts t ht
      have htop := hts.bare hr t ht
      simp only [Tree.hasTop, Rule.bareTop, Bool.and_eq_true, Option.isNone_iff_eq_none] at htop
      rw [Tree.hasTop, htop.1]
      rfl
    refine hasParts_ambientDeclaration fun t ht => ?_
    simpa [Tree.hasTop] using top_of_allTops hbare h hts t ht
  · rename_i himport hrequire hexport hambient
    have hne : ∀ {k'}, (k = k' → False) → Label.named k ≠ .named k' :=
      fun hk hl => hk (Label.named.inj hl)
    exact hasParts_of_other (fun _ => exists_field_of_holdsOne h hts) (hne himport) (hne hrequire)
      (hne hexport) (hne hambient)

theorem parts_of_keepsShape {a : Form} (h : a.keepsShape isOther givesParts = true)
    (hts : a.Contributes Rule.YieldsParts d ts) : ∀ t ∈ ts, t.Everywhere HasParts := by
  have hfree : ∀ l, isOther l = true → ∀ cs, HasParts l cs := fun _ hl => hasParts_of_isOther hl
  have hshaped : ∀ k a, givesParts k a = true → ∀ ts, a.Contributes Rule.YieldsParts d ts →
      HasParts (.named k) ts := fun _ _ hk _ => hasParts_of_givesParts hk
  exact everywhere_of_keepsShape hfree hshaped (fun _ _ hr => hr.parts) h hts

end Closed

end Form

/-! ## Export statements -/

/-- How names are listed among the children of an export statement. -/
inductive ListsNames (cs : List Tree) : Prop where
  /-- There is no list. -/
  | unlisted (h : ∀ t ∈ cs, t.label.isExportList = false)
  /-- There is one, and neither a default nor a declaration. -/
  | listed (h : ∀ t ∈ cs, t.label ≠ .token "default" ∧ t.field ≠ some .declaration)
    (honce : ¬((∃ t ∈ cs, t.label = .named .exportClause) ∧ ∃ t ∈ cs, t.label = .named .namespaceExport))

/-- Children of an export statement that are no matter to a list of names. -/
theorem ListsNames.append {front cs : List Tree}
    (hfront : ∀ t ∈ front, t.label.isExportList = false
      ∧ (t.label ≠ .token "default" ∧ t.field ≠ some .declaration))
    (h : ListsNames cs) : ListsNames (front ++ cs) := by
  have hmem : ∀ {l}, l.isExportList = true → (∃ t ∈ front ++ cs, t.label = l) → ∃ t ∈ cs, t.label = l := by
    rintro l hl ⟨t, ht, rfl⟩
    rcases List.mem_append.mp ht with ht | ht
    · rw [(hfront t ht).1] at hl
      cases hl
    · exact ⟨t, ht, rfl⟩
  cases h with
  | unlisted h =>
      exact .unlisted (List.forall_mem_append.mpr ⟨fun t ht => (hfront t ht).1, h⟩)
  | listed h honce =>
      refine .listed (List.forall_mem_append.mpr ⟨fun t ht => (hfront t ht).2, h⟩) ?_
      exact fun hboth => honce ⟨hmem rfl hboth.1, hmem rfl hboth.2⟩

theorem ListsNames.hasParts {cs : List Tree} (h : ListsNames cs) :
    HasParts (.named .exportStatement) cs := by
  have hlist : ∀ {t : Tree}, t.label = .named .exportClause → t.label.isExportList = true :=
    fun h => by rw [h]; rfl
  refine hasParts_exportStatement ?_ ?_
  · cases h with
    | unlisted h =>
        rintro ⟨t, ht, hlabel⟩
        rw [h t ht] at hlabel
        cases hlabel
    | listed h _ => exact fun _ => h
  · cases h with
    | unlisted h =>
        rintro ⟨⟨t, ht, hlabel⟩, -⟩
        have hnone := h t ht
        rw [hlist hlabel] at hnone
        cases hnone
    | listed _ honce => exact honce

namespace Form

variable {d : Dialect} {ts : List Tree}

theorem not_isExportList_of_bare {t : Tree} (h : t.hasTop Rule.bareTop = true) :
    t.label.isExportList = false := by
  simp only [Tree.hasTop, Rule.bareTop, Bool.and_eq_true, Bool.not_eq_true'] at h
  exact h.2

/-- The trees of a rule that stand for themselves, in a field or not. -/
theorem unlisted_of_rule {r : Rule} (hr : r.isBare = true) (hts : Rule.YieldsParts r ts) :
    ∀ t ∈ ts, t.label.isExportList = false :=
  fun t ht => not_isExportList_of_bare (hts.bare hr t ht)

theorem unlisted_of_field {f : Field} {r : Rule} (hr : r.isBare = true)
    (hts : (field f r).Contributes Rule.YieldsParts d ts) :
    ∀ t ∈ ts, t.label.isExportList = false := by
  obtain ⟨xs, hxs, rfl⟩ := hts
  intro t ht
  obtain ⟨x, hx, rfl⟩ := List.mem_map.mp ht
  have hunlisted := unlisted_of_rule hr hxs x hx
  split
  · rw [Tree.label_withField]
    exact hunlisted
  · exact hunlisted

theorem unlisted_of_allTops {a : Form}
    (h : (a.allTops noRule fun l _ => !l.isExportList) = true)
    (hts : a.Contributes Rule.YieldsParts d ts) : ∀ t ∈ ts, t.label.isExportList = false := by
  intro t ht
  simpa [Tree.hasTop] using top_of_noRule h hts t ht

theorem listsNames_of_checks {a : Form}
    (h : (a.allTops noRule fun l f => l != .token "default" && f != some .declaration) = true)
    (honce : a.apart (fun l _ => l == .named .exportClause)
      (fun l _ => l == .named .namespaceExport) = true)
    (hts : a.Contributes Rule.YieldsParts d ts) : ListsNames ts := by
  refine .listed (fun t ht => ?_) ?_
  · simpa [Tree.hasTop] using top_of_noRule h hts t ht
  · simpa [Tree.hasTop] using not_both_of_apart honce hts

theorem parts_exportStatement (hts : exportStatement.Contributes Rule.YieldsParts d ts) :
    ∀ t ∈ ts, t.Everywhere HasParts := by
  obtain ⟨xs, ys, hxs, ⟨span, cs, hcs, rfl⟩, rfl⟩ := hts
  obtain rfl := hxs
  have hbelow := parts_of_keepsShape (by decide +kernel) hcs
  refine List.forall_mem_singleton.mpr (Tree.everywhere_node.mpr ⟨ListsNames.hasParts ?_, hbelow⟩)
  obtain ⟨decorators, cs, hdecorators, ⟨zs, cs, ⟨text, start, stop, htext, rfl⟩,
    ⟨us, cs, hus, hcs, rfl⟩, rfl⟩, rfl⟩ := hcs
  obtain rfl := List.mem_singleton.mp htext
  obtain rfl := hus
  refine .append (fun t ht => ?_) (.append ?_ ?_)
  · have htop := hdecorators.decorators rfl t ht
    obtain ⟨hlabel, hfield⟩ : t.label = .named .decorator ∧ t.field = some .decorator := by
      simpa [Tree.hasTop, Rule.decoratorTop] using htop
    rw [hlabel, hfield]
    exact ⟨rfl, by simp, by simp⟩
  · refine List.forall_mem_singleton.mpr ⟨rfl, ?_⟩
    simp [Tree.ofToken, Tree.label, Tree.field]
  · rw [List.nil_append]
    have hterminator : ∀ {us}, (terminator true).Contributes Rule.YieldsParts d us →
        ∀ t ∈ us, t.label.isExportList = false := unlisted_of_allTops (by decide +kernel)
    rcases hcs with hlisted | (hdefault | hdeclaration) | ⟨-, hassigned | hrest⟩
    · exact listsNames_of_checks (by decide +kernel) (by decide +kernel) hlisted
    · obtain ⟨vs, us, hvs, hrest, rfl⟩ := hdefault
      refine .unlisted (List.forall_mem_append.mpr ⟨unlisted_of_allTops rfl hvs, ?_⟩)
      rcases hrest with hdeclaration | ⟨ws, us, hvalue, hus, rfl⟩
      · exact unlisted_of_field rfl hdeclaration
      · exact List.forall_mem_append.mpr ⟨unlisted_of_field rfl hvalue, hterminator hus⟩
    · exact .unlisted (unlisted_of_field rfl hdeclaration)
    · obtain ⟨vs, us, hvs, ⟨ws, us, hvalue, hus, rfl⟩, rfl⟩ := hassigned
      refine .unlisted (List.forall_mem_append.mpr ⟨unlisted_of_allTops rfl hvs, ?_⟩)
      exact List.forall_mem_append.mpr ⟨unlisted_of_rule rfl hvalue, hterminator hus⟩
    · exact .unlisted (unlisted_of_allTops (by decide +kernel) hrest)

end Form

/-! ## The trees of all texts -/

namespace Rule

theorem yieldsParts_of_contributes {d : Dialect} (r : Rule) (ts : List Tree)
    (hts : r.form.Contributes YieldsParts d ts) : YieldsParts r ts where
  parts := by
    by_cases hr : r = .exportStatement
    · subst hr
      exact Form.parts_exportStatement hts
    · exact Form.parts_of_keepsShape (Form.keepsParts_form r hr) hts
  bare hr := Form.top_of_allTops (fun _ hr _ hts => hts.bare hr) (Form.allTops_bare r hr) hts
  decorators := by
    rintro rfl
    exact Form.top_of_noRule (by decide +kernel) hts

end Rule

/-- In the tree of a text all statements have their parts. -/
theorem hasParts_parse (src : Source) (d : Dialect) : (src.parse d).Everywhere HasParts := by
  refine everywhere_parse (d := d) Rule.yieldsParts_of_contributes (fun ts hts => hts.parts)
    toleratesComments_hasParts (fun src place => ?_) src
  refine Tree.everywhere_node.mpr ⟨Form.hasParts_of_isOther rfl _, ?_⟩
  refine List.forall_mem_singleton.mpr (Tree.everywhere_node.mpr ?_)
  exact ⟨hasParts_of_other nofun nofun nofun nofun nofun, List.forall_mem_nil _⟩

end CodeSurvey
