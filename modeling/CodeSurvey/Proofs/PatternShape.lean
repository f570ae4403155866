import CodeSurvey.Proofs.TreeShape
import Mathlib.Data.List.Forall2

/-!
# The parts of binding patterns

What a node of a pattern holds, comments apart (`PatternShape`). A key with a pattern and a
pattern with a default value are three children in a fixed order, a rest is its dots and one
pattern, and the elements of a list hold no field. So the place of a child says whether it
can bind a name: all do but the keys and the default values.

This is read off the grammar by one more check, `Form.slots?`: which fields the trees of a
form hold in turn, if that is the same every time. It needs to know of a rule that its trees
are one node without a field, and the rules of expressions and patterns are of that sort
(`Rule.isSingle`).
-/

namespace CodeSurvey

/-! ## Which fields the trees of a form hold -/

/-- A place among children: that of a token or of a node, in a field or not. -/
structure Slot where
  isToken : Bool
  field : Option Field
  deriving DecidableEq

namespace Slot

def token : Slot := ⟨true, none⟩

def node : Slot := ⟨false, none⟩

/-- The place in a field, unless it is in another one already. -/
def holding (s : Slot) (f : Field) : Slot := ⟨s.isToken, some (s.field.getD f)⟩

/-- What a tree in the place is like. It is no comment. -/
def top (s : Slot) : Top := fun l f => (l.isNamed == !s.isToken) && (f == s.field) && !l.isComment

theorem of_hasTop {s : Slot} {t : Tree} (h : t.hasTop s.top = true) :
    (t.isNamed = !s.isToken) ∧ t.field = s.field ∧ t.label.isComment = false := by
  simp only [Tree.hasTop, top, Bool.and_eq_true, beq_iff_eq, Bool.not_eq_true'] at h
  exact ⟨h.1.1, h.1.2, h.2⟩

theorem hasTop_withField {s : Slot} {t : Tree} (f : Field) (h : t.hasTop s.top = true) :
    (if t.field.isNone then t.withField f else t).hasTop (s.holding f).top = true := by
  obtain ⟨isToken, field⟩ := s
  obtain ⟨hnamed, rfl, hcomment⟩ := of_hasTop h
  rw [Tree.isNamed] at hnamed
  rw [Top.hasTop_inField]
  simp [Tree.hasTop, Top.inField, top, holding, hnamed, hcomment]

end Slot

namespace Tree

/-- The trees stand in the places, one in each. -/
def Fill (slots : List Slot) (ts : List Tree) : Prop :=
  List.Forall₂ (fun s t => t.hasTop s.top = true) slots ts

/-- The tree in the first place, and the others. -/
theorem Fill.first {s : Slot} {slots : List Slot} {ts : List Tree} (h : Fill (s :: slots) ts) :
    ∃ t us, ts = t :: us ∧ (t.isNamed = !s.isToken) ∧ t.field = s.field ∧ Fill slots us := by
  obtain ⟨t, us, htop, hrest, rfl⟩ := List.forall₂_cons_left_iff.mp h
  obtain ⟨hnamed, hfield, -⟩ := Slot.of_hasTop htop
  exact ⟨t, us, rfl, hnamed, hfield, hrest⟩

theorem Fill.eq_nil {ts : List Tree} (h : Fill [] ts) : ts = [] := List.forall₂_nil_left_iff.mp h

theorem Fill.map_withField {slots : List Slot} {ts : List Tree} (f : Field) (h : Fill slots ts) :
    Fill (slots.map (·.holding f)) (ts.map fun t => if t.field.isNone then t.withField f else t) :=
  List.forall₂_map_left_iff.mpr <| List.forall₂_map_right_iff.mpr <|
    h.imp fun _ _ htop => Slot.hasTop_withField f htop

theorem Fill.append {slots slots' : List Slot} {ts us : List Tree} (h : Fill slots ts)
    (h' : Fill slots' us) : Fill (slots ++ slots') (ts ++ us) := List.rel_append h h'

end Tree

namespace Form

variable {rules : Contributions} {d : Dialect} {known : Rule → Bool}

/-- The place of the tree that the form contributes, if it is one. -/
def slot? (known : Rule → Bool) (a : Form) : Option Slot :=
  if a.allTops known Slot.node.top then some .node
  else if a.allTops noRule Slot.token.top then some .token
  else none

/-- The places of the trees that the form contributes, if there is at most one. -/
def fewSlots? (known : Rule → Bool) (a : Form) : Option (List Slot) :=
  match a.count? fun r => if known r then some 1 else none with
  | some 0 => some []
  | some 1 => (a.slot? known).map fun s => [s]
  | _ => none

/-- The places of the trees that the form contributes, if they are the same every time.
`known` are the rules that are known to contribute one node without a field. -/
def slots? (known : Rule → Bool) : Form → Option (List Slot)
  | seq a b => (a.slots? known).bind fun xs => (b.slots? known).map fun ys => xs ++ ys
  | alt a b => if a.slots? known = b.slots? known then a.slots? known else none
  | field f a => (a.slots? known).map fun xs => xs.map (·.holding f)
  | inMode _ a | when _ a | ofKind _ a => a.slots? known
  | a => a.fewSlots? known

section Fill

variable (hknown : ∀ r, known r = true → ∀ ts, rules r ts →
  ∃ t, ts = [t] ∧ t.hasTop Slot.node.top = true)

include hknown

theorem hasTop_of_slot? {a : Form} {s : Slot} (h : a.slot? known = some s) {ts : List Tree}
    (hts : a.Contributes rules d ts) : ∀ t ∈ ts, t.hasTop s.top = true := by
  unfold slot? at h
  split at h
  · rename_i htops
    obtain rfl := Option.some.inj h
    refine top_of_allTops (fun r hr ts hts => ?_) htops hts
    obtain ⟨t, rfl, htop⟩ := hknown r hr ts hts
    exact List.forall_mem_singleton.mpr htop
  · split at h
    · rename_i htops
      obtain rfl := Option.some.inj h
      exact top_of_noRule htops hts
    · cases h

theorem fill_of_fewSlots? {a : Form} {slots : List Slot} (h : a.fewSlots? known = some slots)
    {ts : List Tree} (hts : a.Contributes rules d ts) : Tree.Fill slots ts := by
  have hone : ∀ r n, (if known r then some 1 else none) = some n → ∀ ts, rules r ts →
      ts.length = n := by
    intro r n hr ts hts
    split at hr
    · rename_i hr'
      obtain ⟨t, rfl, -⟩ := hknown r hr' ts hts
      exact Option.some.inj hr
    · cases hr
  unfold fewSlots? at h
  split at h
  · rename_i hcount
    obtain rfl := Option.some.inj h
    obtain rfl := List.length_eq_zero_iff.mp (length_of_count? hone hcount hts)
    exact .nil
  · rename_i hcount
    obtain ⟨s, hs, rfl⟩ := Option.map_eq_some_iff.mp h
    obtain ⟨t, rfl⟩ := List.length_eq_one_iff.mp (length_of_count? hone hcount hts)
    exact .cons (hasTop_of_slot? hknown hs hts t (List.mem_singleton.mpr rfl)) .nil
  · cases h

theorem fill_of_slots? {a : Form} {slots : List Slot} (h : a.slots? known = some slots)
    {ts : List Tree} (hts : a.Contributes rules d ts) : Tree.Fill slots ts := by
  induction a generalizing slots ts with
  | seq a b iha ihb =>
      obtain ⟨xs, ys, hxs, hys, rfl⟩ := hts
      obtain ⟨xslots, hxslots, hrest⟩ := Option.bind_eq_some_iff.mp h
      obtain ⟨yslots, hyslots, rfl⟩ := Option.map_eq_some_iff.mp hrest
      exact (iha hxslots hxs).append (ihb hyslots hys)
  | alt a b iha ihb =>
      rw [slots?] at h
      split at h
      · rename_i heq
        rcases hts with hts | hts
        · exact iha h hts
        · exact ihb (heq ▸ h) hts
      · cases h
  | field f a ih =>
      obtain ⟨xs, hxs, rfl⟩ := hts
      obtain ⟨xslots, hxslots, rfl⟩ := Option.map_eq_some_iff.mp h
      exact (ih hxslots hxs).map_withField f
  | inMode change a ih => exact ih h hts
  | «when» holds a ih => exact ih h hts.2
  | ofKind kinds a ih => exact ih h hts.1
  | _ => exact fill_of_fewSlots? hknown h hts

end Fill

end Form

/-! ## The shape of a pattern -/

/-- The places in a node of a pattern that is no list. -/
def NodeKind.slots? : NodeKind → Option (List Slot)
  | .pairPattern => some [Slot.node.holding .key, .token, Slot.node.holding .value]
  | .assignmentPattern | .objectAssignmentPattern =>
    some [Slot.node.holding .left, .token, Slot.node.holding .right]
  | .restPattern => some [.token, .node]
  | _ => none

/-- The patterns that are lists of others. -/
def NodeKind.isPatternList : NodeKind → Bool
  | .objectPattern | .arrayPattern => true
  | _ => false

theorem NodeKind.slots?_of_isPatternList {k : NodeKind} (h : k.isPatternList = true) :
    k.slots? = none := by
  unfold isPatternList at h
  split at h
  · rfl
  · rfl
  · cases h

/-- What the grammar says of the nodes of a pattern, and of the declarator around it. -/
structure PatternShape (l : Label) (cs : List Tree) : Prop where
  parts : ∀ k slots, l = .named k → k.slots? = some slots →
    List.Forall₂ (fun s (top : Label × Option Field) => s.top top.1 top.2 = true) slots
      (Tree.tops cs)
  elements : ∀ k, l = .named k → k.isPatternList = true → ∀ t ∈ cs, t.field = none
  target : l = .named .variableDeclarator → ∃ t ∈ cs, t.field = some .name

/-- The labels of which nothing is asked. -/
def Label.isNoPattern : Label → Bool
  | .named k => k.slots?.isNone && !k.isPatternList && k != .variableDeclarator
  | _ => true

theorem patternShape_of_isNoPattern {l : Label} (h : l.isNoPattern = true) (cs : List Tree) :
    PatternShape l cs := by
  refine ⟨fun k slots hl hslots => ?_, fun k hl hlist => ?_, fun hl => ?_⟩
  · rw [hl, Label.isNoPattern, hslots] at h
    cases h
  · rw [hl, Label.isNoPattern, hlist, Bool.not_true, Bool.and_false, Bool.false_and] at h
    cases h
  · rw [hl] at h
    cases h

theorem toleratesComments_patternShape : Tree.ToleratesComments PatternShape where
  comment t ht := by
    obtain ⟨hlabel | hlabel, -, -⟩ := ht.top
    all_goals
      rw [hlabel]
      exact patternShape_of_isNoPattern rfl _
  place _ _ _ htops h := {
    parts := fun k slots hl hslots => htops.order ▸ h.parts k slots hl hslots
    elements := fun k hl hlist =>
      htops.forall_mem (Q := fun _ f => f = none) rfl rfl (h.elements k hl hlist)
    target := fun hl => htops.exists_mem (Q := fun _ f => f = some .name) (h.target hl) }

theorem Tree.Fill.forall₂_tops {slots : List Slot} {ts : List Tree} (h : Tree.Fill slots ts) :
    List.Forall₂ (fun s (top : Label × Option Field) => s.top top.1 top.2 = true) slots
      (Tree.tops ts) := by
  induction h with
  | nil => exact .nil
  | @cons s t slots ts htop _ ih =>
      rw [Tree.tops_cons, (Slot.of_hasTop htop).2.2]
      exact .cons htop ih

/-! ## The trees of the rules -/

namespace Rule

/-- The rules whose trees are one node without a field. -/
def isSingle : Rule → Bool
  | .expression | .operand | .arrowFunction | .assignment | .reach | .plainReach | .primary
  | .functionExpression | .classExpression | .parenthesized | .array | .object | .templateString
  | .markupElement | .propertyName | .pattern | .bindingTarget | .objectPattern
  | .arrayPattern => true
  | _ => false

/-- The trees of a rule: all patterns in them have their shape, and they are as is known. -/
structure YieldsPatterns (r : Rule) (ts : List Tree) : Prop where
  patterns : ∀ t ∈ ts, t.Everywhere PatternShape
  single : r.isSingle = true → ∃ t, ts = [t] ∧ t.hasTop Slot.node.top = true

end Rule

namespace Form

/-- The form of a node begins with a tree that holds the field. -/
def startsWithField (f : Field) : Form → Bool
  | seq a _ => a.slots? Rule.isSingle == some [Slot.node.holding f]
  | _ => false

/-- Nodes of the kind have their shape if they are of the form. -/
def givesPattern (k : NodeKind) (a : Form) : Bool :=
  match k.slots? with
  | some slots => a.slots? Rule.isSingle == some slots
  | none =>
    if k.isPatternList then a.allTops Rule.isSingle fun _ f => f.isNone
    else a.startsWithField .name

theorem slots_isSingle (r : Rule) (hr : r.isSingle = true) :
    r.form.slots? Rule.isSingle = some [.node] := by
  revert hr
  cases r <;> decide +kernel

theorem keepsPatterns_form (r : Rule) :
    r.form.keepsShape Label.isNoPattern givesPattern = true := by
  cases r <;> decide +kernel

section Closed

variable {d : Dialect} {ts : List Tree}

theorem fill_of_isSingle {a : Form} {slots : List Slot}
    (h : a.slots? Rule.isSingle = some slots) (hts : a.Contributes Rule.YieldsPatterns d ts) :
    Tree.Fill slots ts := fill_of_slots? (fun _ hr _ hts => hts.single hr) h hts

theorem exists_field_of_startsWithField {f : Field} {a : Form}
    (h : a.startsWithField f = true) (hts : a.Contributes Rule.YieldsPatterns d ts) :
    ∃ t ∈ ts, t.field = some f := by
  unfold startsWithField at h
  split at h
  · obtain ⟨xs, ys, hxs, -, rfl⟩ := hts
    obtain ⟨t, _, rfl, -, hfield, -⟩ := (fill_of_isSingle (eq_of_beq h) hxs).first
    exact ⟨t, List.mem_append_left _ List.mem_cons_self, hfield⟩
  · cases h

theorem elements_of_allTops {a : Form}
    (h : (a.allTops Rule.isSingle fun _ f => f.isNone) = true)
    (hts : a.Contributes Rule.YieldsPatterns d ts) : ∀ t ∈ ts, t.field = none := by
  intro t ht
  refine Option.isNone_iff_eq_none.mp (top_of_allTops (fun r hr us hus => ?_) h hts t ht)
  obtain ⟨u, rfl, htop⟩ := hus.single hr
  exact List.forall_mem_singleton.mpr (Option.isNone_iff_eq_none.mpr (Slot.of_hasTop htop).2.1)

theorem patternShape_of_givesPattern {k : NodeKind} {a : Form} (h : givesPattern k a = true)
    (hts : a.Contributes Rule.YieldsPatterns d ts) : PatternShape (.named k) ts := by
  unfold givesPattern at h
  split at h
  · rename_i slots hslots
    have hfill := (fill_of_isSingle (eq_of_beq h) hts).forall₂_tops
    refine ⟨fun k' slots' hk hslots' => ?_, fun k' hk hlist => ?_, fun hk => ?_⟩
    · obtain rfl := Label.named.inj hk
      obtain rfl := Option.some.inj (hslots.symm.trans hslots')
      exact hfill
    · obtain rfl := Label.named.inj hk
      rw [NodeKind.slots?_of_isPatternList hlist] at hslots
      cases hslots
    · obtain rfl := Label.named.inj hk
      cases hslots
  · rename_i hslots
    refine ⟨fun k' slots' hk hslots' => ?_, fun k' hk hlist => ?_, fun hk => ?_⟩
    · obtain rfl := Label.named.inj hk
      rw [hslots] at hslots'
      cases hslots'
    · obtain rfl := Label.named.inj hk
      rw [if_pos hlist] at h
      exact elements_of_allTops h hts
    · obtain rfl := Label.named.inj hk
      exact exists_field_of_startsWithField h hts

theorem patterns_of_keepsShape {a : Form}
    (h : a.keepsShape Label.isNoPattern givesPattern = true)
    (hts : a.Contributes Rule.YieldsPatterns d ts) : ∀ t ∈ ts, t.Everywhere PatternShape := by
  have hfree : ∀ l : Label, l.isNoPattern = true → ∀ cs, PatternShape l cs :=
    fun _ hl => patternShape_of_isNoPattern hl
  have hshaped : ∀ k a, givesPattern k a = true → ∀ ts, a.Contributes Rule.YieldsPatterns d ts →
      PatternShape (.named k) ts := fun _ _ hk _ => patternShape_of_givesPattern hk
  exact everywhere_of_keepsShape hfree hshaped (fun _ _ hr => hr.patterns) h hts

end Closed

end Form

/-! ## The trees of all texts -/

theorem Rule.yieldsPatterns_of_contributes {d : Dialect} (r : Rule) (ts : List Tree)
    (hts : r.form.Contributes YieldsPatterns d ts) : YieldsPatterns r ts where
  patterns := Form.patterns_of_keepsShape (Form.keepsPatterns_form r) hts
  single hr := by
    cases Form.fill_of_isSingle (Form.slots_isSingle r hr) hts with
    | cons htop hrest =>
        cases hrest
        exact ⟨_, rfl, htop⟩

/-- In the tree of a text all patterns have their shape. -/
theorem patternShape_parse (src : Source) (d : Dialect) :
    (src.parse d).Everywhere PatternShape := by
  refine everywhere_parse (d := d) Rule.yieldsPatterns_of_contributes
    (fun ts hts => hts.patterns) toleratesComments_patternShape (fun src place => ?_) src
  refine Tree.everywhere_node.mpr ⟨patternShape_of_isNoPattern rfl _, ?_⟩
  refine List.forall_mem_singleton.mpr (Tree.everywhere_node.mpr ?_)
  exact ⟨patternShape_of_isNoPattern rfl _, List.forall_mem_nil _⟩

end CodeSurvey
