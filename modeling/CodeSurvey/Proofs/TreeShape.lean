import CodeSurvey.Proofs.Contribution

/-!
# Shapes that a grammar gives its trees

What can be said of a tree before a text is read. Four checks on a form answer
questions about what it contributes, and each has one lemma that says so:

- `Form.count?`: how many trees are there? (`length_of_count?`)
- `Form.allTops`: do all trees have a label and a field of some sort?
  (`top_of_allTops`)
- `Form.someTop`: is there a tree with a label and a field of some sort for
  certain? (`exists_top_of_someTop`)
- `Form.keepsShape`: has every node at every depth the shape that is asked of its
  label? (`everywhere_of_keepsShape`)

A check is a computation on the grammar, so what it finds is evaluated and not
argued. It errs on the side of caution: of a rule it knows only what it is told.

A property of all nodes is stated as `Tree.Everywhere`, and looks at a label and
the children below it. The comments come last (`everywhere_placeComments`): they
are leaves of their own kind in between, so a property must not mind these.
-/

namespace CodeSurvey

/-! ## Properties of all nodes -/

namespace Tree

theorem mem_preorderOfAll {u : Tree} {ts : List Tree} :
    u ∈ preorderOfAll ts ↔ ∃ t ∈ ts, u ∈ t.preorder := by
  rw [preorderOfAll_eq_flatMap, List.mem_flatMap]

theorem mem_preorder_self (t : Tree) : t ∈ t.preorder := by
  obtain ⟨l, f, s, cs⟩ := t
  exact List.mem_cons_self

mutual

/-- The nodes of a node of the tree are nodes of the tree. -/
theorem mem_preorder_trans {u v : Tree} : (t : Tree) → u ∈ t.preorder → v ∈ u.preorder →
    v ∈ t.preorder
  | .node l f s cs, hu, hv => by
      rw [preorder] at hu
      rcases List.mem_cons.mp hu with rfl | hu
      · exact hv
      · exact List.mem_cons_of_mem _ (mem_preorderOfAll_trans cs hu hv)

theorem mem_preorderOfAll_trans {u v : Tree} : (ts : List Tree) → u ∈ preorderOfAll ts →
    v ∈ u.preorder → v ∈ preorderOfAll ts
  | t :: ts, hu, hv => by
      rw [preorderOfAll] at hu ⊢
      rcases List.mem_append.mp hu with hu | hu
      · exact List.mem_append_left _ (mem_preorder_trans t hu hv)
      · exact List.mem_append_right _ (mem_preorderOfAll_trans ts hu hv)

end

theorem mem_preorder_of_mem_children {t u : Tree} (h : u ∈ t.children) : u ∈ t.preorder := by
  obtain ⟨l, f, s, cs⟩ := t
  exact List.mem_cons_of_mem _ (mem_preorderOfAll.mpr ⟨u, h, u.mem_preorder_self⟩)

/-- What holds of all nodes of a tree holds of its root and of all nodes below. -/
theorem forall_mem_preorder {Q : Tree → Prop} {l : Label} {f : Option Field} {s : Span}
    {cs : List Tree} : (∀ u ∈ (node l f s cs).preorder, Q u)
      ↔ Q (node l f s cs) ∧ ∀ t ∈ cs, ∀ u ∈ t.preorder, Q u := by
  simp only [preorder, List.forall_mem_cons, mem_preorderOfAll]
  constructor
  · rintro ⟨hroot, hbelow⟩
    exact ⟨hroot, fun t ht u hu => hbelow u ⟨t, ht, hu⟩⟩
  · rintro ⟨hroot, hbelow⟩
    exact ⟨hroot, fun u ⟨t, ht, hu⟩ => hbelow t ht u hu⟩

/-- All nodes of the tree, its root included, have a property. -/
def Everywhere (P : Label → List Tree → Prop) (t : Tree) : Prop :=
  ∀ u ∈ t.preorder, P u.label u.children

variable {P : Label → List Tree → Prop}

theorem everywhere_node {l : Label} {f : Option Field} {s : Span} {cs : List Tree} :
    (node l f s cs).Everywhere P ↔ P l cs ∧ ∀ t ∈ cs, t.Everywhere P :=
  forall_mem_preorder

theorem Everywhere.root {t : Tree} (h : t.Everywhere P) : P t.label t.children :=
  h t t.mem_preorder_self

theorem Everywhere.of_mem {t u : Tree} (h : t.Everywhere P) (hu : u ∈ t.preorder) :
    u.Everywhere P := fun v hv => h v (mem_preorder_trans t hu hv)

theorem Everywhere.child {t u : Tree} (h : t.Everywhere P) (hu : u ∈ t.children) :
    u.Everywhere P := by
  obtain ⟨l, f, s, cs⟩ := t
  exact (everywhere_node.mp h).2 u hu

/-- The field that a tree holds is no matter of its own. -/
theorem everywhere_withField {f : Field} {t : Tree} :
    (t.withField f).Everywhere P ↔ t.Everywhere P := by
  obtain ⟨l, g, s, cs⟩ := t
  exact everywhere_node.trans everywhere_node.symm

theorem label_prependChild (first t : Tree) : (first.prependChild t).label = t.label := by
  obtain ⟨l, f, s, cs⟩ := t
  rfl

theorem field_prependChild (first t : Tree) : (first.prependChild t).field = t.field := by
  obtain ⟨l, f, s, cs⟩ := t
  rfl

theorem label_withField (f : Field) (t : Tree) : (t.withField f).label = t.label := by
  obtain ⟨l, g, s, cs⟩ := t
  rfl

theorem field_withField (f : Field) (t : Tree) : (t.withField f).field = some f := by
  obtain ⟨l, g, s, cs⟩ := t
  rfl

theorem span_withField (f : Field) (t : Tree) : (t.withField f).span = t.span := by
  obtain ⟨l, g, s, cs⟩ := t
  rfl

/-- A step of a chain gets a further child, which does no harm if anything may be
below its label. -/
theorem everywhere_prependChild {first t : Tree} (hfree : ∀ cs, P t.label cs)
    (hfirst : first.Everywhere P) (ht : t.Everywhere P) : (first.prependChild t).Everywhere P := by
  obtain ⟨l, f, s, cs⟩ := t
  have hbelow := (everywhere_node.mp ht).2
  refine everywhere_node.mpr ⟨hfree _, List.forall_mem_cons.mpr ⟨?_, hbelow⟩⟩
  split
  · split
    · exact everywhere_withField.mpr hfirst
    · exact hfirst
  · exact hfirst

end Tree

/-! ## Operations -/

namespace PendingOperation

/-- The nodes of operations. -/
def labels : List Label :=
  [.named .binaryExpression, .named .asExpression, .named .satisfiesExpression]

theorem label_close (p : PendingOperation) (right : Tree) : (p.close right).label ∈ labels := by
  unfold close
  dsimp only
  split <;> simp [labels, Tree.label]

theorem field_close (p : PendingOperation) (right : Tree) : (p.close right).field = none := by
  unfold close
  dsimp only
  split <;> rfl

theorem everywhere_close {P : Label → List Tree → Prop} (hfree : ∀ l ∈ labels, ∀ cs, P l cs)
    {p : PendingOperation} {right : Tree} (hleft : p.left.Everywhere P)
    (hoperator : p.operator.Everywhere P) (hright : right.Everywhere P) :
    (p.close right).Everywhere P := by
  unfold close
  dsimp only
  split
  all_goals
    refine Tree.everywhere_node.mpr ⟨hfree _ (by simp [labels]) _, ?_⟩
    simp only [List.forall_mem_cons, Tree.everywhere_withField]
    exact ⟨hleft, hoperator, hright, fun _ h => nomatch h⟩

section Group

variable {R : Tree → Prop}
variable (hclose : ∀ (p : PendingOperation) (right : Tree), R p.left → R p.operator → R right →
  R (p.close right))

include hclose

theorem foldl_close {pending : List PendingOperation} {t : Tree}
    (hpending : ∀ p ∈ pending, R p.left ∧ R p.operator) (ht : R t) :
    R (pending.foldl (fun t p => p.close t) t) := by
  induction pending generalizing t with
  | nil => exact ht
  | cons p ps ih =>
      obtain ⟨⟨hleft, hoperator⟩, hrest⟩ := List.forall_mem_cons.mp hpending
      exact ih hrest (hclose p t hleft hoperator ht)

theorem closeTighter_of_close {binding : Nat × Bool} {pending : List PendingOperation} {t : Tree}
    (hpending : ∀ p ∈ pending, R p.left ∧ R p.operator) (ht : R t) :
    (∀ p ∈ (closeTighter binding pending t).1, R p.left ∧ R p.operator)
      ∧ R (closeTighter binding pending t).2 := by
  induction pending generalizing t with
  | nil => exact ⟨hpending, ht⟩
  | cons p ps ih =>
      obtain ⟨⟨hleft, hoperator⟩, hrest⟩ := List.forall_mem_cons.mp hpending
      rw [closeTighter]
      split
      · exact ih hrest (hclose p t hleft hoperator ht)
      · exact ⟨hpending, ht⟩

/-- What operands and operators have, and closing an operation keeps, the grouped
tree has as well. -/
theorem group_of_close {pending : List PendingOperation} {t : Tree} {pairs : List (Tree × Tree)}
    (hpending : ∀ p ∈ pending, R p.left ∧ R p.operator) (ht : R t)
    (hpairs : ∀ pair ∈ pairs, R pair.1 ∧ R pair.2) : R (group pending t pairs) := by
  induction pairs generalizing pending t with
  | nil => exact foldl_close hclose hpending ht
  | cons pair rest ih =>
      obtain ⟨⟨hoperator, hright⟩, hrest⟩ := List.forall_mem_cons.mp hpairs
      obtain ⟨hpending', ht'⟩ := closeTighter_of_close hclose hpending ht
      rw [group]
      exact ih (List.forall_mem_cons.mpr ⟨⟨ht', hoperator⟩, hpending'⟩) hright hrest

end Group

/-- The root of grouped operands is an operation, unless there is one operand only. -/
theorem group_of_cons {Q : Tree → Prop} (hclose : ∀ p right, Q (close p right))
    {pending : List PendingOperation} (hne : pending ≠ []) (t : Tree)
    (pairs : List (Tree × Tree)) : Q (group pending t pairs) := by
  induction pairs generalizing pending t with
  | nil =>
      obtain ⟨p, ps, rfl⟩ := List.exists_cons_of_ne_nil hne
      have hfold : ∀ (ps : List PendingOperation) (t : Tree), Q t →
          Q (ps.foldl (fun t p => p.close t) t) := by
        intro ps
        induction ps with
        | nil => exact fun _ ht => ht
        | cons p ps ih => exact fun t _ => ih (p.close t) (hclose p t)
      exact hfold ps (p.close t) (hclose p t)
  | cons pair rest ih =>
      rw [group]
      exact ih (List.cons_ne_nil _ _) pair.2

theorem group_nil {Q : Tree → Prop} (hclose : ∀ p right, Q (close p right)) {t : Tree} (ht : Q t)
    (pairs : List (Tree × Tree)) : Q (group [] t pairs) := by
  cases pairs with
  | nil => exact ht
  | cons pair rest =>
      rw [group]
      exact group_of_cons hclose (List.cons_ne_nil _ _) pair.2 rest

end PendingOperation

/-! ## How many trees a form contributes -/

namespace Form

/-- The number of trees, if it is the same every time. `known` are the rules of
which it is known. -/
def count? (known : Rule → Option Nat) : Form → Option Nat
  | semicolon _ | endOfText | empty | ahead _ | butNot _ => some 0
  | rule r => known r
  | seq a b => (a.count? known).bind fun m => (b.count? known).map fun n => m + n
  | alt a b => if a.count? known = b.count? known then a.count? known else none
  | many a => if a.count? known = some 0 then some 0 else none
  | field _ a | inMode _ a | when _ a | chain a _ | operation a _ => a.count? known
  | _ => some 1

theorem length_of_count? {rules : Contributions} {d : Dialect} {known : Rule → Option Nat}
    (hknown : ∀ r n, known r = some n → ∀ ts, rules r ts → ts.length = n) {a : Form} {n : Nat}
    (h : a.count? known = some n) {ts : List Tree} (hts : a.Contributes rules d ts) :
    ts.length = n := by
  induction a generalizing n ts with
  | mark text | gluedMark text | namedWord kind word | literal kind shape
    | gluedLiteral kind shape | conditionalMark =>
      obtain ⟨start, stop, rfl⟩ := hts
      exact Option.some.inj h
  | operator among | keyword among =>
      obtain ⟨text, start, stop, -, rfl⟩ := hts
      exact Option.some.inj h
  | node kind a _ =>
      obtain ⟨span, xs, -, rfl⟩ := hts
      exact Option.some.inj h
  | semicolon _ | endOfText | empty | ahead _ _ | butNot _ _ =>
      obtain rfl := hts
      exact Option.some.inj h
  | rule r => exact hknown r n h ts hts
  | seq a b iha ihb =>
      obtain ⟨xs, ys, hxs, hys, rfl⟩ := hts
      obtain ⟨x, hx, hrest⟩ := Option.bind_eq_some_iff.mp h
      obtain ⟨y, hy, rfl⟩ := Option.map_eq_some_iff.mp hrest
      rw [List.length_append, iha hx hxs, ihb hy hys]
  | alt a b iha ihb =>
      rw [count?] at h
      split at h
      · rename_i heq
        rcases hts with hts | hts
        · exact iha h hts
        · exact ihb (heq ▸ h) hts
      · cases h
  | many a ih =>
      rw [count?] at h
      split at h
      · rename_i hzero
        obtain ⟨parts, hparts, rfl⟩ := hts
        obtain rfl := Option.some.inj h
        rw [List.length_eq_zero_iff, List.flatten_eq_nil_iff]
        exact fun part hpart => List.length_eq_zero_iff.mp (ih hzero (hparts part hpart))
      · cases h
  | field f a ih =>
      obtain ⟨xs, hxs, rfl⟩ := hts
      rw [List.length_map]
      exact ih h hxs
  | inMode change a ih => exact ih h hts
  | «when» holds a ih => exact ih h hts.2
  | ofKind kinds a _ =>
      obtain ⟨-, t, rfl, -⟩ := hts
      exact Option.some.inj h
  | chain first step ihf _ =>
      rcases hts with hts | ⟨head, steps, hhead, -, rfl⟩
      · exact ihf h hts
      · exact show [head].length = n from ihf h hhead
  | operation operand tail iho _ =>
      rcases hts with hts | ⟨head, pairs, hhead, -, rfl⟩
      · exact iho h hts
      · exact show [head].length = n from iho h hhead

end Form

/-! ## Labels and fields of what a form contributes -/

/-- A condition on the label and the field of a tree. -/
abbrev Top := Label → Option Field → Bool

/-- Whether a tree meets a condition on its label and its field. -/
def Tree.hasTop (q : Top) (t : Tree) : Bool := q t.label t.field

namespace Top

/-- The condition on a tree that is to hold the field `f`, if it holds none. -/
def inField (q : Top) (f : Field) : Top := fun l g => q l (some (g.getD f))

theorem hasTop_inField (q : Top) (f : Field) (t : Tree) :
    (if t.field.isNone then t.withField f else t).hasTop q = t.hasTop (q.inField f) := by
  obtain ⟨l, g, s, cs⟩ := t
  cases g <;> rfl

end Top

namespace Form

/-- No rule is known. -/
def noRule (_ : Rule) : Bool := false

/-- All trees that the form contributes meet a condition. `known` are the rules of
which this is known. -/
def allTops (known : Rule → Bool) (q : Top) : Form → Bool
  | mark text | gluedMark text => q (.token text) none
  | operator among | keyword among => among.all fun text => q (.token text) none
  | namedWord kind _ | literal kind _ | gluedLiteral kind _ | node kind _ => q (.named kind) none
  | conditionalMark => q (.token "?") none
  | semicolon _ | endOfText | empty | ahead _ | butNot _ => true
  | rule r => known r
  | seq a b | alt a b | chain a b => a.allTops known q && b.allTops known q
  | many a | ofKind _ a | inMode _ a | when _ a => a.allTops known q
  | field f a => a.allTops noRule (q.inField f)
  | operation a _ => a.allTops known q && PendingOperation.labels.all fun l => q l none

/-- One of the trees that the form contributes meets a condition. -/
def someTop (q : Top) : Form → Bool
  | mark text | gluedMark text => q (.token text) none
  | operator among | keyword among => among.all fun text => q (.token text) none
  | namedWord kind _ | literal kind _ | gluedLiteral kind _ | node kind _ => q (.named kind) none
  | conditionalMark => q (.token "?") none
  | seq a b => a.someTop q || b.someTop q
  | alt a b => a.someTop q && b.someTop q
  | field f a => a.someTop (q.inField f)
  | ofKind _ a | inMode _ a | when _ a => a.someTop q
  | _ => false

variable {rules : Contributions} {d : Dialect}

theorem top_of_allTops {known : Rule → Bool} {q : Top} {a : Form}
    (hknown : ∀ r, known r = true → ∀ ts, rules r ts → ∀ t ∈ ts, t.hasTop q = true)
    (h : a.allTops known q = true) {ts : List Tree} (hts : a.Contributes rules d ts) :
    ∀ t ∈ ts, t.hasTop q = true := by
  induction a generalizing known q ts with
  | mark text | gluedMark text | conditionalMark | namedWord kind word | literal kind shape
    | gluedLiteral kind shape =>
      obtain ⟨start, stop, rfl⟩ := hts
      exact List.forall_mem_singleton.mpr h
  | operator among | keyword among =>
      obtain ⟨text, start, stop, hmem, rfl⟩ := hts
      exact List.forall_mem_singleton.mpr (List.all_eq_true.mp h text hmem)
  | node kind a ih =>
      obtain ⟨span, xs, -, rfl⟩ := hts
      exact List.forall_mem_singleton.mpr h
  | semicolon _ | endOfText | empty | ahead _ _ | butNot _ _ =>
      obtain rfl := hts
      exact List.forall_mem_nil _
  | rule r => exact hknown r h ts hts
  | seq a b iha ihb =>
      obtain ⟨ha, hb⟩ := Bool.and_eq_true_iff.mp h
      obtain ⟨xs, ys, hxs, hys, rfl⟩ := hts
      exact List.forall_mem_append.mpr ⟨iha hknown ha hxs, ihb hknown hb hys⟩
  | alt a b iha ihb =>
      obtain ⟨ha, hb⟩ := Bool.and_eq_true_iff.mp h
      rcases hts with hts | hts
      · exact iha hknown ha hts
      · exact ihb hknown hb hts
  | chain first step ihf ihs =>
      obtain ⟨hf, hs⟩ := Bool.and_eq_true_iff.mp h
      rcases hts with hts | ⟨head, steps, hhead, hsteps, rfl⟩
      · exact ihf hknown hf hts
      · -- the outermost node is that of the last step
        have hfirst := ihf hknown hf hhead head (List.mem_singleton.mpr rfl)
        refine List.forall_mem_singleton.mpr
          (List.foldlRecOn (motive := fun t : Tree => t.hasTop q = true) steps _ hfirst ?_)
        intro t _ next hnext
        rw [Tree.hasTop, Tree.label_prependChild, Tree.field_prependChild]
        exact ihs hknown hs (hsteps next hnext) next (List.mem_singleton.mpr rfl)
  | many a ih =>
      obtain ⟨parts, hparts, rfl⟩ := hts
      intro t ht
      obtain ⟨part, hpart, ht⟩ := List.mem_flatten.mp ht
      exact ih hknown h (hparts part hpart) t ht
  | ofKind kinds a ih => exact ih hknown h hts.1
  | inMode change a ih => exact ih hknown h hts
  | «when» holds a ih => exact ih hknown h hts.2
  | field f a ih =>
      obtain ⟨xs, hxs, rfl⟩ := hts
      intro t ht
      obtain ⟨x, hx, rfl⟩ := List.mem_map.mp ht
      rw [Top.hasTop_inField]
      exact ih (fun _ hr => Bool.noConfusion hr) h hxs x hx
  | operation operand tail iho _ =>
      obtain ⟨ho, hlabels⟩ := Bool.and_eq_true_iff.mp h
      rcases hts with hts | ⟨head, pairs, hhead, -, rfl⟩
      · exact iho hknown ho hts
      · have hfirst := iho hknown ho hhead head (List.mem_singleton.mpr rfl)
        refine List.forall_mem_singleton.mpr
          (@PendingOperation.group_nil (fun t => t.hasTop q = true) (fun p right => ?_) head hfirst
            pairs)
        rw [Tree.hasTop, PendingOperation.field_close]
        exact List.all_eq_true.mp hlabels _ (PendingOperation.label_close p right)

/-- Roots of which it is known without any rule. -/
theorem top_of_noRule {q : Top} {a : Form} (h : a.allTops noRule q = true) {ts : List Tree}
    (hts : a.Contributes rules d ts) : ∀ t ∈ ts, t.hasTop q = true := by
  have hnone : ∀ r, noRule r = true → ∀ ts, rules r ts → ∀ t ∈ ts, t.hasTop q = true :=
    fun _ hr => Bool.noConfusion hr
  exact top_of_allTops hnone h hts

theorem exists_top_of_someTop {q : Top} {a : Form} (h : a.someTop q = true) {ts : List Tree}
    (hts : a.Contributes rules d ts) : ∃ t ∈ ts, t.hasTop q = true := by
  induction a generalizing q ts with
  | mark text | gluedMark text | conditionalMark | namedWord kind word | literal kind shape
    | gluedLiteral kind shape =>
      obtain ⟨start, stop, rfl⟩ := hts
      exact ⟨_, List.mem_singleton.mpr rfl, h⟩
  | operator among | keyword among =>
      obtain ⟨text, start, stop, hmem, rfl⟩ := hts
      exact ⟨_, List.mem_singleton.mpr rfl, List.all_eq_true.mp h text hmem⟩
  | node kind a ih =>
      obtain ⟨span, xs, -, rfl⟩ := hts
      exact ⟨_, List.mem_singleton.mpr rfl, h⟩
  | semicolon _ | endOfText | empty | ahead _ _ | butNot _ _ | rule _ => cases h
  | seq a b iha ihb =>
      obtain ⟨xs, ys, hxs, hys, rfl⟩ := hts
      rcases Bool.or_eq_true_iff.mp h with h | h
      · obtain ⟨t, ht, htop⟩ := iha h hxs
        exact ⟨t, List.mem_append_left _ ht, htop⟩
      · obtain ⟨t, ht, htop⟩ := ihb h hys
        exact ⟨t, List.mem_append_right _ ht, htop⟩
  | alt a b iha ihb =>
      obtain ⟨ha, hb⟩ := Bool.and_eq_true_iff.mp h
      rcases hts with hts | hts
      · exact iha ha hts
      · exact ihb hb hts
  | many a _ | chain a b _ _ | operation a b _ _ => cases h
  | ofKind kinds a ih => exact ih h hts.1
  | inMode change a ih => exact ih h hts
  | «when» holds a ih => exact ih h hts.2
  | field f a ih =>
      obtain ⟨xs, hxs, rfl⟩ := hts
      obtain ⟨x, hx, htop⟩ := ih h hxs
      exact ⟨_, List.mem_map.mpr ⟨x, hx, rfl⟩, (Top.hasTop_inField q f x).trans htop⟩

/-! ## Nodes at every depth -/

/-- Every node that the form builds has its shape. Anything may be below a label
that is `free`; of the other kinds `shaped` says of which forms the nodes have
their shape. The steps of a chain get a further child, so they are to be free. -/
def keepsShape (free : Label → Bool) (shaped : NodeKind → Form → Bool) : Form → Bool
  | mark text | gluedMark text => free (.token text)
  | operator among | keyword among => among.all fun text => free (.token text)
  | namedWord kind _ | literal kind _ | gluedLiteral kind _ => free (.named kind)
  | conditionalMark => free (.token "?")
  | semicolon _ | endOfText | empty | ahead _ | butNot _ | rule _ => true
  | seq a b | alt a b => a.keepsShape free shaped && b.keepsShape free shaped
  | many a | ofKind _ a | inMode _ a | when _ a | field _ a => a.keepsShape free shaped
  | node kind a => (free (.named kind) || shaped kind a) && a.keepsShape free shaped
  | chain a b => b.allTops noRule (fun l _ => free l)
    && (a.keepsShape free shaped && b.keepsShape free shaped)
  | operation a b => PendingOperation.labels.all free
    && (a.keepsShape free shaped && b.keepsShape free shaped)

variable {free : Label → Bool} {shaped : NodeKind → Form → Bool}
variable {P : Label → List Tree → Prop}

theorem everywhere_of_keepsShape (hfree : ∀ l, free l = true → ∀ cs, P l cs)
    (hshaped : ∀ k a, shaped k a = true → ∀ ts, a.Contributes rules d ts → P (.named k) ts)
    (hrules : ∀ r ts, rules r ts → ∀ t ∈ ts, t.Everywhere P) {a : Form}
    (h : a.keepsShape free shaped = true) {ts : List Tree} (hts : a.Contributes rules d ts) :
    ∀ t ∈ ts, t.Everywhere P := by
  have hleaf : ∀ {l : Label} {s : Span}, free l = true →
      ∀ t ∈ [Tree.node l none s []], t.Everywhere P := by
    intro l s hl
    refine List.forall_mem_singleton.mpr (Tree.everywhere_node.mpr ⟨hfree l hl [], ?_⟩)
    exact fun _ ht => nomatch ht
  induction a generalizing ts with
  | mark text | gluedMark text | conditionalMark | namedWord kind word | literal kind shape
    | gluedLiteral kind shape =>
      obtain ⟨start, stop, rfl⟩ := hts
      exact hleaf h
  | operator among | keyword among =>
      obtain ⟨text, start, stop, hmem, rfl⟩ := hts
      exact hleaf (List.all_eq_true.mp h text hmem)
  | semicolon _ | endOfText | empty | ahead _ _ | butNot _ _ =>
      obtain rfl := hts
      exact fun _ ht => nomatch ht
  | rule r => exact hrules r ts hts
  | seq a b iha ihb =>
      obtain ⟨ha, hb⟩ := Bool.and_eq_true_iff.mp h
      obtain ⟨xs, ys, hxs, hys, rfl⟩ := hts
      exact List.forall_mem_append.mpr ⟨iha ha hxs, ihb hb hys⟩
  | alt a b iha ihb =>
      obtain ⟨ha, hb⟩ := Bool.and_eq_true_iff.mp h
      rcases hts with hts | hts
      · exact iha ha hts
      · exact ihb hb hts
  | many a ih =>
      obtain ⟨parts, hparts, rfl⟩ := hts
      intro t ht
      obtain ⟨part, hpart, ht⟩ := List.mem_flatten.mp ht
      exact ih h (hparts part hpart) t ht
  | ofKind kinds a ih => exact ih h hts.1
  | inMode change a ih => exact ih h hts
  | «when» holds a ih => exact ih h hts.2
  | field f a ih =>
      obtain ⟨xs, hxs, rfl⟩ := hts
      intro t ht
      obtain ⟨x, hx, rfl⟩ := List.mem_map.mp ht
      split
      · exact Tree.everywhere_withField.mpr (ih h hxs x hx)
      · exact ih h hxs x hx
  | node kind a ih =>
      obtain ⟨hkind, ha⟩ := Bool.and_eq_true_iff.mp h
      obtain ⟨span, xs, hxs, rfl⟩ := hts
      refine List.forall_mem_singleton.mpr (Tree.everywhere_node.mpr ⟨?_, ih ha hxs⟩)
      rcases Bool.or_eq_true_iff.mp hkind with hkind | hkind
      · exact hfree _ hkind xs
      · exact hshaped kind a hkind xs hxs
  | chain first step ihf ihs =>
      obtain ⟨htops, hparts⟩ := Bool.and_eq_true_iff.mp h
      obtain ⟨hf, hs⟩ := Bool.and_eq_true_iff.mp hparts
      rcases hts with hts | ⟨head, steps, hhead, hsteps, rfl⟩
      · exact ihf hf hts
      · have hfirst := ihf hf hhead head (List.mem_singleton.mpr rfl)
        refine List.forall_mem_singleton.mpr
          (List.foldlRecOn (motive := Tree.Everywhere P) steps _ hfirst ?_)
        intro t ht next hnext
        have hlabel := top_of_noRule htops (hsteps next hnext) next (List.mem_singleton.mpr rfl)
        refine Tree.everywhere_prependChild (hfree _ hlabel) ht ?_
        exact ihs hs (hsteps next hnext) next (List.mem_singleton.mpr rfl)
  | operation operand tail iho iht =>
      obtain ⟨hlabels, hparts⟩ := Bool.and_eq_true_iff.mp h
      obtain ⟨ho, ht⟩ := Bool.and_eq_true_iff.mp hparts
      rcases hts with hts | ⟨head, pairs, hhead, hpairs, rfl⟩
      · exact iho ho hts
      · refine List.forall_mem_singleton.mpr (PendingOperation.group_of_close ?_ ?_ ?_ ?_)
        · exact fun p right => PendingOperation.everywhere_close
            fun l hl => hfree l (List.all_eq_true.mp hlabels l hl)
        · exact fun _ hp => nomatch hp
        · exact iho ho hhead head (List.mem_singleton.mpr rfl)
        · intro pair hpair
          have hboth := iht ht (hpairs pair hpair)
          exact ⟨hboth pair.1 (by simp), hboth pair.2 (by simp)⟩

end Form

/-! ## Comments among the children -/

def Label.isComment (l : Label) : Bool := l == .named .comment || l == .named .htmlComment

namespace Tree

/-- A comment, as it is put into a tree. -/
def IsCommentLeaf (t : Tree) : Prop :=
  ∃ start stop, t = leaf .comment start stop ∨ t = leaf .htmlComment start stop

theorem IsCommentLeaf.top {t : Tree} (h : t.IsCommentLeaf) :
    (t.label = .named .comment ∨ t.label = .named .htmlComment) ∧ t.field = none
      ∧ t.children = [] := by
  obtain ⟨start, stop, rfl | rfl⟩ := h
  · exact ⟨.inl rfl, rfl, rfl⟩
  · exact ⟨.inr rfl, rfl, rfl⟩

/-- What is left of the children without the comments, as far as label and field say. -/
def tops (cs : List Tree) : List (Label × Option Field) :=
  (cs.filter fun t => !t.label.isComment).map fun t => (t.label, t.field)

theorem tops_append (cs ds : List Tree) : tops (cs ++ ds) = tops cs ++ tops ds := by
  rw [tops, List.filter_append, List.map_append]
  rfl

theorem tops_cons (t : Tree) (cs : List Tree) :
    tops (t :: cs) = (if t.label.isComment then [] else [(t.label, t.field)]) ++ tops cs := by
  cases h : t.label.isComment <;> simp [tops, h]

theorem tops_of_isCommentLeaf {cs : List Tree} (h : ∀ t ∈ cs, t.IsCommentLeaf) : tops cs = [] := by
  rw [tops, List.map_eq_nil_iff, List.filter_eq_nil_iff]
  intro t ht
  obtain ⟨hlabel | hlabel, -, -⟩ := (h t ht).top
  all_goals
    rw [hlabel]
    exact Bool.false_ne_true

theorem isCommentLeaf_of_mem_commentsBetween {src : Source} {i stop : Nat} {t : Tree}
    (h : t ∈ src.commentsBetween i stop) : t.IsCommentLeaf := by
  fun_induction Source.commentsBetween src i stop with
  | case1 i hi k j hc ih =>
      rcases List.mem_cons.mp h with rfl | h
      · have hkind : k = .comment ∨ k = .htmlComment := by
          unfold Source.anyCommentEnd? at hc
          split at hc
          · exact .inl (Prod.mk.inj (Option.some.inj hc)).1.symm
          · split at hc
            · obtain ⟨_, -, heq⟩ := Option.map_eq_some_iff.mp hc
              exact .inr (Prod.mk.inj heq).1.symm
            · cases hc
        rcases hkind with rfl | rfl
        · exact ⟨i, j, .inl rfl⟩
        · exact ⟨i, j, .inr rfl⟩
      · exact ih h
  | case2 i hi hc ih => exact ih h
  | case3 => cases h

/-- Children with comments among them: every other child is one that was there,
as far as label and field say, none is missing, and they stand in the same order. -/
structure SameTops (cs cs' : List Tree) : Prop where
  old : ∀ u ∈ cs', u.IsCommentLeaf ∨ ∃ t ∈ cs, u.label = t.label ∧ u.field = t.field
  kept : ∀ t ∈ cs, ∃ u ∈ cs', u.label = t.label ∧ u.field = t.field
  order : tops cs' = tops cs

/-- What is asked of all children, and holds of comments, holds with comments
among them. -/
theorem SameTops.forall_mem {cs cs' : List Tree} (h : SameTops cs cs')
    {Q : Label → Option Field → Prop} (hcomment : Q (.named .comment) none)
    (hhtml : Q (.named .htmlComment) none) (hcs : ∀ t ∈ cs, Q t.label t.field) :
    ∀ u ∈ cs', Q u.label u.field := by
  intro u hu
  rcases h.old u hu with hleaf | ⟨t, ht, hlabel, hfield⟩
  · obtain ⟨hlabel | hlabel, hfield, -⟩ := hleaf.top
    · rw [hlabel, hfield]
      exact hcomment
    · rw [hlabel, hfield]
      exact hhtml
  · rw [hlabel, hfield]
    exact hcs t ht

theorem SameTops.exists_mem {cs cs' : List Tree} (h : SameTops cs cs')
    {Q : Label → Option Field → Prop} (hcs : ∃ t ∈ cs, Q t.label t.field) :
    ∃ u ∈ cs', Q u.label u.field := by
  obtain ⟨t, ht, htop⟩ := hcs
  obtain ⟨u, hu, hlabel, hfield⟩ := h.kept t ht
  exact ⟨u, hu, by rwa [hlabel, hfield]⟩

/-- What does not hold of comments holds of an old child, if it holds of any. -/
theorem SameTops.exists_old {cs cs' : List Tree} (h : SameTops cs cs')
    {Q : Label → Option Field → Prop} (hcomment : ¬Q (.named .comment) none)
    (hhtml : ¬Q (.named .htmlComment) none) (hcs : ∃ u ∈ cs', Q u.label u.field) :
    ∃ t ∈ cs, Q t.label t.field := by
  obtain ⟨u, hu, htop⟩ := hcs
  rcases h.old u hu with hleaf | ⟨t, ht, hlabel, hfield⟩
  · obtain ⟨hlabel | hlabel, hfield, -⟩ := hleaf.top
    · rw [hlabel, hfield] at htop
      exact absurd htop hcomment
    · rw [hlabel, hfield] at htop
      exact absurd htop hhtml
  · exact ⟨t, ht, by rwa [hlabel, hfield] at htop⟩

theorem label_placeComments (src : Source) (t : Tree) : (t.placeComments src).label = t.label := by
  obtain ⟨l, f, s, _ | ⟨c, cs⟩⟩ := t
  · rw [placeComments]
  · rw [placeComments]
    rfl

theorem field_placeComments (src : Source) (t : Tree) : (t.placeComments src).field = t.field := by
  obtain ⟨l, f, s, _ | ⟨c, cs⟩⟩ := t
  · rw [placeComments]
  · rw [placeComments]
    rfl

theorem sameTops_placeCommentsAmong (src : Source) (i stop : Nat) (cs : List Tree) :
    SameTops cs (placeCommentsAmong src i stop cs) := by
  induction cs generalizing i with
  | nil =>
      rw [placeCommentsAmong]
      have hleaves : ∀ u ∈ src.commentsBetween i stop, u.IsCommentLeaf :=
        fun u hu => isCommentLeaf_of_mem_commentsBetween hu
      exact ⟨fun u hu => .inl (hleaves u hu), List.forall_mem_nil _, tops_of_isCommentLeaf hleaves⟩
  | cons c cs ih =>
      rw [placeCommentsAmong]
      refine ⟨fun u hu => ?_, fun t ht => ?_, ?_⟩
      · rcases List.mem_append.mp hu with hu | hu
        · exact .inl (isCommentLeaf_of_mem_commentsBetween hu)
        · rcases List.mem_cons.mp hu with rfl | hu
          · exact .inr ⟨c, List.mem_cons_self, label_placeComments src c, field_placeComments src c⟩
          · rcases (ih c.span.stop).old u hu with hu | ⟨t, ht, htop⟩
            · exact .inl hu
            · exact .inr ⟨t, List.mem_cons_of_mem _ ht, htop⟩
      · rcases List.mem_cons.mp ht with rfl | ht
        · exact ⟨_, List.mem_append_right _ List.mem_cons_self, label_placeComments src t,
            field_placeComments src t⟩
        · obtain ⟨u, hu, htop⟩ := (ih c.span.stop).kept t ht
          exact ⟨u, List.mem_append_right _ (List.mem_cons_of_mem _ hu), htop⟩
      · rw [tops_append, tops_of_isCommentLeaf fun u hu => isCommentLeaf_of_mem_commentsBetween hu,
          List.nil_append, tops_cons, tops_cons, label_placeComments, field_placeComments,
          (ih c.span.stop).order]

/-- No comment among the children breaks the property, and comments have it. -/
structure ToleratesComments (P : Label → List Tree → Prop) : Prop where
  comment : ∀ t : Tree, t.IsCommentLeaf → P t.label t.children
  place : ∀ l cs cs', SameTops cs cs' → P l cs → P l cs'

section PlaceComments

variable {P : Label → List Tree → Prop} (hP : ToleratesComments P) {src : Source}

include hP

theorem everywhere_of_isCommentLeaf {t : Tree} (h : t.IsCommentLeaf) : t.Everywhere P := by
  have hroot := hP.comment t h
  obtain ⟨start, stop, rfl | rfl⟩ := h
  · exact everywhere_node.mpr ⟨hroot, fun _ hu => nomatch hu⟩
  · exact everywhere_node.mpr ⟨hroot, fun _ hu => nomatch hu⟩

mutual

theorem everywhere_placeComments : (t : Tree) → t.Everywhere P → (t.placeComments src).Everywhere P
  | .node l f s [], h => by
      rw [placeComments]
      exact h
  | .node l f s (c :: cs), h => by
      obtain ⟨hroot, hbelow⟩ := everywhere_node.mp h
      rw [placeComments]
      exact everywhere_node.mpr ⟨hP.place l _ _ (sameTops_placeCommentsAmong src ..) hroot,
        everywhere_placeCommentsAmong s.start s.stop (c :: cs) hbelow⟩

theorem everywhere_placeCommentsAmong (i stop : Nat) : (ts : List Tree) →
    (∀ t ∈ ts, t.Everywhere P) → ∀ u ∈ placeCommentsAmong src i stop ts, u.Everywhere P
  | [], _, u, hu => by
      rw [placeCommentsAmong] at hu
      exact everywhere_of_isCommentLeaf hP (isCommentLeaf_of_mem_commentsBetween hu)
  | t :: ts, h, u, hu => by
      obtain ⟨ht, hts⟩ := List.forall_mem_cons.mp h
      rw [placeCommentsAmong, List.mem_append, List.mem_cons] at hu
      rcases hu with hu | rfl | hu
      · exact everywhere_of_isCommentLeaf hP (isCommentLeaf_of_mem_commentsBetween hu)
      · exact everywhere_placeComments t ht
      · exact everywhere_placeCommentsAmong t.span.stop stop ts hts u hu

end

end PlaceComments

end Tree

/-! ## The tree of a text -/

/-- What the rules are known to contribute holds of the tree of a text: its root
with the comments put in, or the tree that shows a fault. -/
theorem everywhere_parse {P : Label → List Tree → Prop} {rules : Contributions} {d : Dialect}
    (hclosed : ∀ r ts, (Rule.form r).Contributes rules d ts → rules r ts)
    (hrules : ∀ ts, rules .program ts → ∀ t ∈ ts, t.Everywhere P)
    (hP : Tree.ToleratesComments P)
    (hfault : ∀ src place, (Source.faultyTree src place).Everywhere P) (src : Source) :
    (src.parse d).Everywhere P := by
  unfold Source.parse
  split
  · rename_i t stop n hread
    have ht := hrules _ (contributions_readProgram hclosed hread) t (List.mem_singleton.mpr rfl)
    refine Tree.everywhere_node.mpr ⟨hP.place _ _ _ (Tree.sameTops_placeCommentsAmong ..) ht.root, ?_⟩
    exact Tree.everywhere_placeCommentsAmong hP 0 src.size t.children fun u hu => ht.child hu
  · exact hfault src _

end CodeSurvey
