import CodeSurvey.Proofs.Bindings

/-!
# The parameters of functions

A formal parameter is a target, which takes the rest of the arguments or not
(`Parameter`). The dialects write it differently: without types it is the pattern itself,
with its default value as one node, and with types a wrapper holds the pattern among
modifiers, type and default value (`Tree.IsParameter`). A function takes a lone name, or a
list of parameters with commas between them in parentheses (`Tree.HoldsParameters`). Which
parameters these are the node decides (`Tree.Takes.unique`).

All functions are of that form in the tree of every text (`takes_parse`). The grammar says
so of the rules of parameters directly. For the functions themselves, with their many
forms, one more check is made: that exactly one of the trees that a form contributes
stands in the place of parameters (`Form.takesOnce`).

Comments can stand anywhere, so this is about functions without them. Such a function is
as the grammar made it (`Tree.mem_preorder_of_placeComments`).
-/

namespace CodeSurvey

/-! ## Parameters -/

/-- What a pattern binds that is not the rest of something. -/
def Label.isTarget : Label → Bool
  | .named .identifier | .named .undefinedName | .named .objectPattern | .named .arrayPattern
  | .named .memberExpression | .named .subscriptExpression | .named .nonNullExpression => true
  | _ => false

/-- The nodes around the parameters of the typed dialects. -/
def Label.isWrapper : Label → Bool
  | .named .requiredParameter | .named .optionalParameter => true
  | _ => false

def Label.isFunction : Label → Bool
  | .named .functionDeclaration | .named .generatorFunctionDeclaration
  | .named .functionExpression | .named .generatorFunction | .named .arrowFunction => true
  | _ => false

/-- The place of what a function or a wrapper takes. -/
def Field.isOfParameters : Field → Bool
  | .parameter | .parameters | .pattern => true
  | _ => false

/-- A formal parameter, without its type. -/
structure Parameter where
  /-- It takes all arguments that are left. -/
  isRest : Bool
  /-- It is one node with its default value. -/
  isDefaulted : Bool
  target : Tree

namespace Tree

/-- The only one of the trees that stands in the place of parameters. -/
def Only (ts : List Tree) (p : Tree) : Prop :=
  ts.filter (fun t => t.field.any Field.isOfParameters) = [p]

/-- A pattern, by whether it is the rest, and its target. -/
inductive IsPattern (t : Tree) : Bool → Tree → Prop
  | plain (h : t.label.isTarget = true) : t.IsPattern false t
  | rest {dots target : Tree} (hlabel : t.label = .named .restPattern)
      (hchildren : t.children = [dots, target]) (hdots : dots.label = .token "...")
      (htarget : target.label.isTarget = true) : t.IsPattern true target

/-- A formal parameter, as the dialect writes it. -/
inductive IsParameter (d : Dialect) (t : Tree) : Parameter → Prop
  | bare {rest : Bool} {target : Tree} (hd : d.isTyped = false) (h : t.IsPattern rest target) :
      t.IsParameter d ⟨rest, false, target⟩
  | defaulted {rest : Bool} {target left sign value : Tree} (hd : d.isTyped = false)
      (hlabel : t.label = .named .assignmentPattern) (hchildren : t.children = [left, sign, value])
      (hfield : left.field = some .left) (hsign : sign.label = .token "=")
      (h : left.IsPattern rest target) : t.IsParameter d ⟨rest, true, target⟩
  | wrapped {rest : Bool} {target p : Tree} (hd : d.isTyped = true)
      (hlabel : t.label.isWrapper = true) (honly : Only t.children p)
      (hfield : p.field = some .pattern) (h : p.IsPattern rest target) :
      t.IsParameter d ⟨rest, false, target⟩
  | receiver {p : Tree} (hd : d.isTyped = true) (hlabel : t.label.isWrapper = true)
      (honly : Only t.children p) (hfield : p.field = some .pattern)
      (h : p.label = .named .thisExpression) : t.IsParameter d ⟨false, false, p⟩

/-- Parameters with a comma behind each, which may lack at the end. -/
inductive AreParameters (d : Dialect) : List Tree → List Parameter → Prop
  | nil : AreParameters d [] []
  | last {t : Tree} {p : Parameter} (h : t.IsParameter d p) : AreParameters d [t] [p]
  | cons {t comma : Tree} {p : Parameter} {ts : List Tree} {ps : List Parameter}
      (h : t.IsParameter d p) (hcomma : comma.label = .token ",") (hrest : AreParameters d ts ps) :
      AreParameters d (t :: comma :: ts) (p :: ps)

/-- Parameters in parentheses. -/
inductive IsParameterList (d : Dialect) (t : Tree) (ps : List Parameter) : Prop
  | mk {opening closing : Tree} {ts : List Tree} (hlabel : t.label = .named .formalParameters)
      (hchildren : t.children = opening :: (ts ++ [closing]))
      (hopening : opening.label = .token "(") (hclosing : closing.label = .token ")")
      (h : AreParameters d ts ps)

/-- What stands in the place of the parameters of a function. -/
inductive HoldsParameters (d : Dialect) (t : Tree) : List Parameter → Prop
  | lone (hfield : t.field = some .parameter) (hlabel : t.label = .named .identifier) :
      t.HoldsParameters d [⟨false, false, t⟩]
  | listed {ps : List Parameter} (hfield : t.field = some .parameters)
      (h : t.IsParameterList d ps) : t.HoldsParameters d ps

/-- The trees are the parts of a function with these parameters. -/
def Takes (d : Dialect) (ts : List Tree) (ps : List Parameter) : Prop :=
  ∃ t, Only ts t ∧ t.HoldsParameters d ps

variable {d : Dialect} {t u : Tree} {ts us : List Tree} {ps : List Parameter}

/-! ### Fields -/

theorem filter_isOfParameters (h : ∀ t ∈ ts, t.field.any Field.isOfParameters = false) :
    ts.filter (fun t => t.field.any Field.isOfParameters) = [] :=
  List.filter_eq_nil_iff.mpr fun t ht => by simp [h t ht]

theorem Only.append_left (h : Only us u)
    (hts : ∀ t ∈ ts, t.field.any Field.isOfParameters = false) : Only (ts ++ us) u := by
  rw [Only, List.filter_append, filter_isOfParameters hts]
  exact h

theorem Only.append_right (h : Only ts t)
    (hus : ∀ u ∈ us, u.field.any Field.isOfParameters = false) : Only (ts ++ us) t := by
  rw [Only, List.filter_append, filter_isOfParameters hus, List.append_nil]
  exact h

theorem only_singleton (h : t.field.any Field.isOfParameters = true) : Only [t] t :=
  List.filter_cons_of_pos h

theorem IsPattern.withField {rest : Bool} {target : Tree} (h : t.IsPattern rest target)
    (f : Field) : ∃ target, (t.withField f).IsPattern rest target := by
  cases h with
  | plain h => exact ⟨_, .plain ((label_withField f t).symm ▸ h)⟩
  | rest hlabel hchildren hdots htarget =>
      refine ⟨_, .rest ((label_withField f t).trans hlabel) ?_ hdots htarget⟩
      obtain ⟨l, g, s, cs⟩ := t
      exact hchildren

theorem IsParameterList.withField (h : t.IsParameterList d ps) (f : Field) :
    (t.withField f).IsParameterList d ps := by
  obtain ⟨hlabel, hchildren, hopening, hclosing, hts⟩ := h
  refine ⟨(label_withField f t).trans hlabel, ?_, hopening, hclosing, hts⟩
  obtain ⟨l, g, s, cs⟩ := t
  exact hchildren

/-! ### The parameters of a node -/

theorem label_of_isPattern {rest : Bool} {target : Tree} (h : t.IsPattern rest target) :
    t.label.isTarget = true ∨ t.label = .named .restPattern := by
  cases h with
  | plain h => exact .inl h
  | rest hlabel _ _ _ => exact .inr hlabel

theorem IsPattern.unique {rest rest' : Bool} {target target' : Tree} (h : t.IsPattern rest target)
    (h' : t.IsPattern rest' target') : rest = rest' ∧ target = target' := by
  cases h with
  | plain h =>
      cases h' with
      | plain h' => exact ⟨rfl, rfl⟩
      | rest hlabel' => exact absurd h (by rw [hlabel']; decide)
  | rest hlabel hchildren =>
      cases h' with
      | plain h' => exact absurd h' (by rw [hlabel]; decide)
      | rest hlabel' hchildren' =>
          obtain ⟨-, rfl⟩ : _ ∧ target = target' := by simpa using hchildren.symm.trans hchildren'
          exact ⟨rfl, rfl⟩

theorem not_isPattern {l : Label} (hlabel : t.label = l)
    (hl : ¬(l.isTarget = true ∨ l = .named .restPattern)) {rest : Bool} {target : Tree} :
    ¬t.IsPattern rest target :=
  fun h => hl (hlabel ▸ label_of_isPattern h)

theorem Only.unique {p q : Tree} (h : Only ts p) (h' : Only ts q) : p = q :=
  List.singleton_inj.mp (h.symm.trans h')

/-- A node is one parameter at most. -/
theorem IsParameter.unique {p q : Parameter} (h : t.IsParameter d p) (h' : t.IsParameter d q) :
    p = q := by
  have hdialect : d.isTyped = true → d.isTyped = false → False :=
    fun htyped hbare => absurd (htyped.symm.trans hbare) (by decide)
  cases h with
  | bare hd h =>
      cases h' with
      | bare _ h' =>
          obtain ⟨rfl, rfl⟩ := h.unique h'
          rfl
      | defaulted _ hlabel => exact absurd h (not_isPattern hlabel (by decide))
      | wrapped hd' => exact (hdialect hd' hd).elim
      | receiver hd' => exact (hdialect hd' hd).elim
  | defaulted hd hlabel hchildren _ _ h =>
      cases h' with
      | bare _ h' => exact absurd h' (not_isPattern hlabel (by decide))
      | defaulted _ _ hchildren' _ _ h' =>
          obtain ⟨rfl, -, -⟩ := by simpa using hchildren.symm.trans hchildren'
          obtain ⟨rfl, rfl⟩ := h.unique h'
          rfl
      | wrapped hd' => exact (hdialect hd' hd).elim
      | receiver hd' => exact (hdialect hd' hd).elim
  | wrapped hd _ honly _ h =>
      cases h' with
      | bare hd' => exact (hdialect hd hd').elim
      | defaulted hd' => exact (hdialect hd hd').elim
      | wrapped _ _ honly' _ h' =>
          obtain rfl := honly.unique honly'
          obtain ⟨rfl, rfl⟩ := h.unique h'
          rfl
      | receiver _ _ honly' _ h' =>
          obtain rfl := honly.unique honly'
          exact absurd h (not_isPattern h' (by decide))
  | receiver hd _ honly _ h =>
      cases h' with
      | bare hd' => exact (hdialect hd hd').elim
      | defaulted hd' => exact (hdialect hd hd').elim
      | wrapped _ _ honly' _ h' =>
          obtain rfl := honly.unique honly'
          exact absurd h' (not_isPattern h (by decide))
      | receiver _ _ honly' =>
          obtain rfl := honly.unique honly'
          rfl

theorem AreParameters.unique {qs : List Parameter} (h : AreParameters d ts ps)
    (h' : AreParameters d ts qs) : ps = qs := by
  induction h generalizing qs with
  | nil =>
      cases h'
      rfl
  | last h =>
      cases h' with
      | last h' => rw [h.unique h']
  | cons h _ _ ih =>
      cases h' with
      | cons h' _ hrest' => rw [h.unique h', ih hrest']

/-- A function takes its parameters, and no others. -/
theorem Takes.unique {qs : List Parameter} (h : Takes d ts ps) (h' : Takes d ts qs) : ps = qs := by
  obtain ⟨t, honly, h⟩ := h
  obtain ⟨u, honly', h'⟩ := h'
  obtain rfl := honly.unique honly'
  cases h with
  | lone hfield =>
      cases h' with
      | lone => rfl
      | listed hfield' => exact absurd (hfield.symm.trans hfield') (by decide)
  | listed hfield h =>
      cases h' with
      | lone hfield' => exact absurd (hfield.symm.trans hfield') (by decide)
      | listed _ h' =>
          obtain ⟨-, hchildren, -, -, hts⟩ := h
          obtain ⟨-, hchildren', -, -, hts'⟩ := h'
          obtain ⟨-, rfl, -⟩ := by simpa using hchildren.symm.trans hchildren'
          exact hts.unique hts'

end Tree

/-! ## Checks on forms -/

namespace Form

variable {rules : Contributions} {d : Dialect} {known : Rule → Bool} {q : Field → Form → Bool}

/-- None of the trees that the form contributes stands in the place of parameters. `known` are
the rules of which this is known. -/
def takesNone (known : Rule → Bool) : Form → Bool
  | field f a => !f.isOfParameters && a.takesNone known
  | rule r => known r
  | seq a b | alt a b | chain a b => a.takesNone known && b.takesNone known
  | many a | ofKind _ a | inMode _ a | when _ a | operation a _ => a.takesNone known
  | _ => true

/-- Exactly one of the trees that the form contributes stands in the place of parameters, and it
is one of a field that `q` accepts. `free` are the rules of which it is known that there is no
such tree, and `known` those of which it is known that there is one. -/
def takesOnce (free known : Rule → Bool) (q : Field → Form → Bool) : Form → Bool
  | field f a => q f a
  | rule r => known r
  | seq a b => (a.takesOnce free known q && b.takesNone free)
    || (a.takesNone free && b.takesOnce free known q)
  | alt a b => a.takesOnce free known q && b.takesOnce free known q
  | inMode _ a | when _ a => a.takesOnce free known q
  | _ => false

theorem field_group {head : Tree} (pairs : List (Tree × Tree)) :
    (PendingOperation.group [] head pairs).field = head.field
      ∨ (PendingOperation.group [] head pairs).field = none :=
  PendingOperation.group_nil (Q := fun t => t.field = head.field ∨ t.field = none)
    (fun p right => .inr (PendingOperation.field_close p right)) (.inl rfl) pairs

theorem not_isOfParameters_of_takesNone
    (hknown : ∀ r, known r = true → ∀ ts, rules r ts →
      ∀ t ∈ ts, t.field.any Field.isOfParameters = false)
    {a : Form} (h : a.takesNone known = true) {ts : List Tree} (hts : a.Contributes rules d ts) :
    ∀ t ∈ ts, t.field.any Field.isOfParameters = false := by
  induction a generalizing ts with
  | mark text | gluedMark text | namedWord kind word | literal kind shape
    | gluedLiteral kind shape | conditionalMark =>
      obtain ⟨start, stop, rfl⟩ := hts
      exact List.forall_mem_singleton.mpr rfl
  | operator among | keyword among =>
      obtain ⟨text, start, stop, -, rfl⟩ := hts
      exact List.forall_mem_singleton.mpr rfl
  | node kind a _ =>
      obtain ⟨span, xs, -, rfl⟩ := hts
      exact List.forall_mem_singleton.mpr rfl
  | semicolon _ | endOfText | empty | ahead _ _ | butNot _ _ =>
      obtain rfl := hts
      exact List.forall_mem_nil _
  | rule r => exact hknown r h ts hts
  | seq a b iha ihb =>
      obtain ⟨ha, hb⟩ := Bool.and_eq_true_iff.mp h
      obtain ⟨xs, ys, hxs, hys, rfl⟩ := hts
      exact List.forall_mem_append.mpr ⟨iha ha hxs, ihb hb hys⟩
  | alt a b iha ihb =>
      obtain ⟨ha, hb⟩ := Bool.and_eq_true_iff.mp h
      rcases hts with hts | hts
      · exact iha ha hts
      · exact ihb hb hts
  | many a ih =>
      obtain ⟨parts, hparts, rfl⟩ := hts
      intro t ht
      obtain ⟨part, hpart, ht⟩ := List.mem_flatten.mp ht
      exact ih h (hparts part hpart) t ht
  | ofKind kinds a ih => exact ih h hts.1
  | inMode change a ih => exact ih h hts
  | «when» holds a ih => exact ih h hts.2
  | field f a ih =>
      obtain ⟨hf, ha⟩ := Bool.and_eq_true_iff.mp h
      obtain ⟨xs, hxs, rfl⟩ := hts
      intro t ht
      obtain ⟨x, hx, rfl⟩ := List.mem_map.mp ht
      split
      · rw [Tree.field_withField, Option.any_some]
        simpa using hf
      · exact ih ha hxs x hx
  | chain first step ihf ihs =>
      obtain ⟨hf, hs⟩ := Bool.and_eq_true_iff.mp h
      rcases hts with hts | ⟨head, steps, hhead, hsteps, rfl⟩
      · exact ihf hf hts
      · have hfirst := ihf hf hhead head (List.mem_singleton.mpr rfl)
        refine List.forall_mem_singleton.mpr (List.foldlRecOn
          (motive := fun t : Tree => t.field.any Field.isOfParameters = false) steps _ hfirst ?_)
        intro t _ next hnext
        rw [Tree.field_prependChild]
        exact ihs hs (hsteps next hnext) next (List.mem_singleton.mpr rfl)
  | operation operand tail iho _ =>
      rcases hts with hts | ⟨head, pairs, hhead, -, rfl⟩
      · exact iho h hts
      · refine List.forall_mem_singleton.mpr ?_
        have hfree := iho h hhead head (List.mem_singleton.mpr rfl)
        rcases field_group pairs with hfield | hfield
        · rw [hfield, hfree]
        · rw [hfield]
          rfl

/-- What is known of the trees of the fields and of the rules that are accepted, the one tree
has that stands in the place of parameters. -/
theorem exists_only_of_takesOnce {free : Rule → Bool} {Q : Tree → Prop}
    (hfree : ∀ r, free r = true → ∀ ts, rules r ts →
      ∀ t ∈ ts, t.field.any Field.isOfParameters = false)
    (hknown : ∀ r, known r = true → ∀ ts, rules r ts → ∃ t, Tree.Only ts t ∧ Q t)
    (hq : ∀ f a, q f a = true → ∀ ts, (field f a).Contributes rules d ts →
      ∃ t, Tree.Only ts t ∧ Q t)
    {a : Form} (h : a.takesOnce free known q = true) {ts : List Tree}
    (hts : a.Contributes rules d ts) : ∃ t, Tree.Only ts t ∧ Q t := by
  induction a generalizing ts with
  | field f a _ => exact hq f a h ts hts
  | rule r => exact hknown r h ts hts
  | seq a b iha ihb =>
      obtain ⟨xs, ys, hxs, hys, rfl⟩ := hts
      rcases Bool.or_eq_true_iff.mp h with h | h
      · obtain ⟨ha, hb⟩ := Bool.and_eq_true_iff.mp h
        obtain ⟨t, honly, ht⟩ := iha ha hxs
        exact ⟨t, honly.append_right (not_isOfParameters_of_takesNone hfree hb hys), ht⟩
      · obtain ⟨ha, hb⟩ := Bool.and_eq_true_iff.mp h
        obtain ⟨t, honly, ht⟩ := ihb hb hys
        exact ⟨t, honly.append_left (not_isOfParameters_of_takesNone hfree ha hxs), ht⟩
  | alt a b iha ihb =>
      obtain ⟨ha, hb⟩ := Bool.and_eq_true_iff.mp h
      rcases hts with hts | hts
      · exact iha ha hts
      · exact ihb hb hts
  | inMode change a ih => exact ih h hts
  | «when» holds a ih => exact ih h hts.2
  | _ => cases h

end Form

/-! ## The trees of the rules -/

namespace Rule

/-- The rules whose trees hold the parameters of a function. -/
def isSignature : Rule → Bool
  | .callSignature | .plainCallSignature => true
  | _ => false

/-- The patterns that take values apart. -/
def isDestructuring : Rule → Bool
  | .objectPattern | .arrayPattern => true
  | _ => false

/-- The trees of a rule: all functions in them take parameters, and they are as is known. -/
structure YieldsParameters (d : Dialect) (r : Rule) (ts : List Tree) : Prop where
  functions : ∀ t ∈ ts, t.Everywhere fun l cs => l.isFunction = true → ∃ ps, Tree.Takes d cs ps
  single : r.isSingle = true → ∃ t, ts = [t] ∧ t.hasTop Slot.node.top = true
  destructuring : r.isDestructuring = true → ∃ t, ts = [t] ∧ t.label.isTarget = true
  pattern : r = .pattern → ∃ t rest target, ts = [t] ∧ t.IsPattern rest target
  parameter : r = .formalParameter → ∃ t p, ts = [t] ∧ t.IsParameter d p
  list : r = .formalParameters → ∃ t ps, ts = [t] ∧ t.field = none ∧ t.IsParameterList d ps
  signature : r.isSignature = true → ∃ t, Tree.Only ts t ∧ ∃ ps, t.HoldsParameters d ps
  free : r.isSignature = false → ∀ t ∈ ts, t.field.any Field.isOfParameters = false

end Rule

namespace Form

/-- The fields of the parameters of a function. -/
def isParameterField : Field → Form → Bool
  | .parameter, seq (butNot _) (literal .identifier _) => true
  | .parameters, rule .formalParameters => true
  | _, _ => false

/-- The field of what a wrapper is around. -/
def isPatternField : Field → Form → Bool
  | .pattern, alt (namedWord .thisExpression _) (rule .pattern) => true
  | _, _ => false

def takesParameters (a : Form) : Bool :=
  a.takesOnce (fun r => !r.isSignature) Rule.isSignature isParameterField

theorem takesNone_form (r : Rule) (hr : r.isSignature = false) :
    r.form.takesNone (fun r => !r.isSignature) = true := by
  revert hr
  cases r <;> decide +kernel

theorem takesParameters_form (r : Rule) (hr : r.isSignature = true) :
    r.form.takesParameters = true := by
  revert hr
  cases r <;> decide +kernel

theorem keepsParameters_form (r : Rule) :
    r.form.keepsShape (fun l => !l.isFunction) (fun _ => takesParameters) = true := by
  cases r <;> decide +kernel

section Closed

variable {d : Dialect} {ts : List Tree}

theorem exists_only_of_takesParameters {a : Form} (h : a.takesParameters = true)
    (hts : a.Contributes (Rule.YieldsParameters d) d ts) :
    ∃ t, Tree.Only ts t ∧ ∃ ps, t.HoldsParameters d ps := by
  refine exists_only_of_takesOnce (fun r hr _ hts => hts.free (by simpa using hr))
    (fun r hr _ hts => hts.signature hr) (fun f a hf us hus => ?_) h hts
  unfold isParameterField at hf
  split at hf
  · obtain ⟨xs, ⟨ys, zs, hys, ⟨start, stop, rfl⟩, rfl⟩, rfl⟩ := hus
    obtain rfl := hys
    exact ⟨_, Tree.only_singleton rfl, _, .lone rfl rfl⟩
  · obtain ⟨xs, hxs, rfl⟩ := hus
    obtain ⟨t, ps, rfl, hfield, hlist⟩ := hxs.list rfl
    have hholds := Tree.field_withField .parameters t
    rw [List.map_singleton, hfield, Option.isNone_none, if_pos rfl]
    refine ⟨_, Tree.only_singleton (by rw [hholds]; rfl), ps, .listed hholds ?_⟩
    exact hlist.withField .parameters
  · cases hf

theorem functions_of_keepsShape {a : Form}
    (h : a.keepsShape (fun l => !l.isFunction) (fun _ => takesParameters) = true)
    (hts : a.Contributes (Rule.YieldsParameters d) d ts) :
    ∀ t ∈ ts, t.Everywhere fun l cs => l.isFunction = true → ∃ ps, Tree.Takes d cs ps := by
  refine everywhere_of_keepsShape (fun l hl cs hfunction => ?_) (fun k a ha us hus _ => ?_)
    (fun _ _ hr => hr.functions) h hts
  · rw [hfunction] at hl
    cases hl
  · obtain ⟨t, honly, ps, ht⟩ := exists_only_of_takesParameters ha hus
    exact ⟨ps, t, honly, ht⟩

/-! ### Patterns -/

theorem target_of_destructuring
    (hts : destructuring.Contributes (Rule.YieldsParameters d) d ts) :
    ∃ t, ts = [t] ∧ t.label.isTarget = true := by
  obtain ⟨xs, ys, hxs, hys, rfl⟩ := hts
  obtain rfl := hxs
  rcases hys with hys | hys
  · exact hys.destructuring rfl
  · exact hys.destructuring rfl

theorem target_of_simpleTarget (hts : simpleTarget.Contributes (Rule.YieldsParameters d) d ts) :
    ∃ t, ts = [t] ∧ t.label.isTarget = true := by
  obtain ⟨-, t, rfl, hkind⟩ := hts
  have htargets : ∀ k ∈ [NodeKind.memberExpression, .subscriptExpression, .identifier,
      .undefinedName, .nonNullExpression], (Label.named k).isTarget = true := by decide
  obtain ⟨k, hk, hlabel⟩ := List.any_eq_true.mp hkind
  rw [Tree.isKind, beq_iff_eq] at hlabel
  exact ⟨t, rfl, hlabel ▸ htargets k hk⟩

theorem isPattern_of_pattern (hts : pattern.Contributes (Rule.YieldsParameters d) d ts) :
    ∃ t rest target, ts = [t] ∧ t.IsPattern rest target := by
  rcases hts with ⟨span, xs, ⟨us, vs, ⟨start, stop, rfl⟩, htarget, rfl⟩, rfl⟩ | htarget | htarget
  · obtain ⟨t, rfl, ht⟩ : ∃ t, vs = [t] ∧ t.label.isTarget = true :=
      htarget.elim target_of_destructuring target_of_simpleTarget
    exact ⟨_, true, t, rfl, .rest rfl rfl rfl ht⟩
  · obtain ⟨t, rfl, ht⟩ := target_of_destructuring htarget
    exact ⟨t, false, t, rfl, .plain ht⟩
  · obtain ⟨t, rfl, ht⟩ := target_of_simpleTarget htarget
    exact ⟨t, false, t, rfl, .plain ht⟩

/-! ### Parameters -/

theorem field_of_isSingle {r : Rule} (hr : r.isSingle = true) {t : Tree}
    (hts : Rule.YieldsParameters d r [t]) : t.field = none := by
  obtain ⟨u, hu, htop⟩ := hts.single hr
  obtain rfl := List.singleton_inj.mp hu
  exact (Slot.of_hasTop htop).2.1

/-- A pattern in a field. -/
theorem isPattern_of_field {f : Field} {xs : List Tree}
    (hxs : Rule.YieldsParameters d .pattern xs) : ∃ t rest target,
      (xs.map fun t => if t.field.isNone then t.withField f else t) = [t]
        ∧ t.field = some f ∧ t.IsPattern rest target := by
  obtain ⟨t, rest, _, rfl, hpattern⟩ := hxs.pattern rfl
  obtain ⟨target, hpattern⟩ := hpattern.withField f
  rw [List.map_singleton, field_of_isSingle rfl hxs, Option.isNone_none, if_pos rfl]
  exact ⟨_, rest, target, rfl, Tree.field_withField f t, hpattern⟩

theorem isParameter_of_assignmentPattern (hd : d.isTyped = false)
    (hts : assignmentPattern.Contributes (Rule.YieldsParameters d) d ts) :
    ∃ t p, ts = [t] ∧ t.IsParameter d p := by
  obtain ⟨span, xs, ⟨us, vs, ⟨ls, hleft, rfl⟩,
    ⟨signs, ws, ⟨text, start, stop, htext, rfl⟩, ⟨values, hvalue, rfl⟩, rfl⟩, rfl⟩, rfl⟩ := hts
  obtain rfl := List.mem_singleton.mp htext
  obtain ⟨left, rest, target, hleft, hfield, hpattern⟩ := isPattern_of_field (f := .left) hleft
  obtain ⟨value, rfl, -⟩ := hvalue.single rfl
  rw [hleft]
  exact ⟨_, ⟨rest, true, target⟩, rfl, .defaulted hd rfl rfl hfield rfl hpattern⟩

/-- What a wrapper is around. -/
theorem isParameter_of_wrapper {k : NodeKind} {a : Form} (hd : d.isTyped = true)
    (hk : (Label.named k).isWrapper = true)
    (ha : a.takesOnce (fun r => !r.isSignature) noRule isPatternField = true)
    (hts : (node k a).Contributes (Rule.YieldsParameters d) d ts) :
    ∃ t p, ts = [t] ∧ t.IsParameter d p := by
  obtain ⟨span, xs, hxs, rfl⟩ := hts
  obtain ⟨p, honly, hfield, hp⟩ : ∃ p, Tree.Only xs p ∧ p.field = some .pattern
      ∧ (p.label = .named .thisExpression ∨ ∃ rest target, p.IsPattern rest target) := by
    refine exists_only_of_takesOnce ?_ ?_ ?_ ha hxs
    · exact fun r hr _ hts => hts.free (by simpa using hr)
    · exact fun r hr => absurd hr Bool.false_ne_true
    · intro f a hf us hus
      unfold isPatternField at hf
      split at hf
      · obtain ⟨ys, ⟨start, stop, rfl⟩ | hys, rfl⟩ := hus
        · exact ⟨_, Tree.only_singleton rfl, rfl, .inl rfl⟩
        · obtain ⟨p, rest, target, hp, hfield, hpattern⟩ := isPattern_of_field (f := .pattern) hys
          have hplace : p.field.any Field.isOfParameters = true := by rw [hfield]; rfl
          rw [hp]
          exact ⟨p, Tree.only_singleton hplace, hfield, .inr ⟨rest, target, hpattern⟩⟩
      · cases hf
  rcases hp with hthis | ⟨rest, target, hpattern⟩
  · exact ⟨_, _, rfl, .receiver hd hk honly hfield hthis⟩
  · exact ⟨_, _, rfl, .wrapped hd hk honly hfield hpattern⟩

theorem isParameter_of_formalParameter
    (hts : formalParameter.Contributes (Rule.YieldsParameters d) d ts) :
    ∃ t p, ts = [t] ∧ t.IsParameter d p := by
  rcases hts with ⟨⟨m, rfl, hm⟩, hts⟩ | ⟨⟨m, rfl, hm⟩, hts⟩ | ⟨⟨m, rfl, hm⟩, hts⟩
  · have hd : m.dialect.isTyped = false := by simpa using hm
    rcases hts with hts | hts
    · exact isParameter_of_assignmentPattern hd hts
    · obtain ⟨t, rest, target, rfl, hpattern⟩ := hts.pattern rfl
      exact ⟨t, _, rfl, .bare hd hpattern⟩
  · exact isParameter_of_wrapper hm rfl rfl hts
  · exact isParameter_of_wrapper hm rfl rfl hts

/-! ### Lists -/

/-- A parameter, and further ones with a comma in front of each. -/
theorem areParameters_of_parts {t : Tree} {p : Parameter} {parts : List (List Tree)}
    {tail : List Tree} (ht : t.IsParameter d p)
    (hparts : ∀ part ∈ parts, ∃ comma u q, part = [comma, u] ∧ comma.label = .token ","
      ∧ u.IsParameter d q)
    (htail : ∀ comma ∈ tail, comma.label = .token ",") (hlength : tail.length ≤ 1) :
    ∃ ps, Tree.AreParameters d (t :: (parts.flatten ++ tail)) ps := by
  induction parts generalizing t p with
  | nil =>
      rcases tail with - | ⟨comma, - | ⟨_, _⟩⟩
      · exact ⟨[p], .last ht⟩
      · exact ⟨[p], .cons ht (htail comma List.mem_cons_self) .nil⟩
      · simp at hlength
  | cons part parts ih =>
      obtain ⟨⟨comma, u, q, rfl, hcomma, hu⟩, hrest⟩ := List.forall_mem_cons.mp hparts
      obtain ⟨ps, hps⟩ := ih hu hrest
      exact ⟨p :: ps, .cons ht hcomma hps⟩

theorem isParameterList_of_formalParameters
    (hts : formalParameters.Contributes (Rule.YieldsParameters d) d ts) :
    ∃ t ps, ts = [t] ∧ t.field = none ∧ t.IsParameterList d ps := by
  obtain ⟨span, xs, ⟨us, vs, ⟨start, stop, rfl⟩, ⟨inner, ws, hinner, ⟨start', stop', rfl⟩, rfl⟩,
    rfl⟩, rfl⟩ := hts
  obtain ⟨ps, hps⟩ : ∃ ps, Tree.AreParameters d inner ps := by
    rcases hinner with ⟨ys, tail, hys, htail, rfl⟩ | rfl
    · obtain ⟨first, more, hfirst, ⟨parts, hparts, rfl⟩, rfl⟩ := hys
      obtain ⟨t, p, rfl, ht⟩ := hfirst.parameter rfl
      rw [List.append_assoc]
      refine areParameters_of_parts ht (fun part hpart => ?_) ?_ ?_
      · obtain ⟨commas, us, ⟨start, stop, rfl⟩, hus, rfl⟩ := hparts part hpart
        obtain ⟨u, q, rfl, hu⟩ := hus.parameter rfl
        exact ⟨_, u, q, rfl, rfl, hu⟩
      · rcases htail with ⟨start, stop, rfl⟩ | rfl
        · exact List.forall_mem_singleton.mpr rfl
        · exact List.forall_mem_nil _
      · rcases htail with ⟨start, stop, rfl⟩ | rfl
        · exact Nat.le_refl 1
        · exact Nat.zero_le 1
    · exact ⟨[], .nil⟩
  exact ⟨_, ps, rfl, rfl, .mk rfl rfl rfl rfl hps⟩

end Closed

end Form

theorem Rule.yieldsParameters_of_contributes {d : Dialect} (r : Rule) (ts : List Tree)
    (hts : r.form.Contributes (YieldsParameters d) d ts) : YieldsParameters d r ts where
  functions := Form.functions_of_keepsShape (Form.keepsParameters_form r) hts
  single hr := by
    cases Form.fill_of_slots? (fun _ hr _ hts => hts.single hr) (Form.slots_isSingle r hr) hts with
    | cons htop hrest =>
        cases hrest
        exact ⟨_, rfl, htop⟩
  destructuring hr := by
    cases r <;> try cases hr
    all_goals
      obtain ⟨span, xs, -, rfl⟩ := hts
      exact ⟨_, rfl, rfl⟩
  pattern := by
    rintro rfl
    exact Form.isPattern_of_pattern hts
  parameter := by
    rintro rfl
    exact Form.isParameter_of_formalParameter hts
  list := by
    rintro rfl
    exact Form.isParameterList_of_formalParameters hts
  signature hr := Form.exists_only_of_takesParameters (Form.takesParameters_form r hr) hts
  free hr := Form.not_isOfParameters_of_takesNone (fun _ hr _ hts => hts.free (by simpa using hr))
    (Form.takesNone_form r hr) hts

/-! ## Functions without comments -/

namespace Tree

variable {src : Source} {t u : Tree} {ts : List Tree}

theorem not_isUncommented_of_isCommentLeaf (h : t.IsCommentLeaf) : ¬t.IsUncommented := by
  intro hfree
  have hlabel := hfree t t.mem_preorder_self
  obtain ⟨hcomment | hcomment, -, -⟩ := h.top
  all_goals
    rw [hcomment] at hlabel
    cases hlabel

theorem commentsBetween_eq_nil {i stop : Nat}
    (h : ∀ t ∈ src.commentsBetween i stop, t.IsUncommented) : src.commentsBetween i stop = [] :=
  List.eq_nil_iff_forall_not_mem.mpr fun t ht =>
    not_isUncommented_of_isCommentLeaf (isCommentLeaf_of_mem_commentsBetween ht) (h t ht)

theorem eq_of_mem_preorder_of_isCommentLeaf (ht : t.IsCommentLeaf) (hu : u ∈ t.preorder) :
    u = t := by
  obtain ⟨start, stop, rfl | rfl⟩ := ht
  · exact List.mem_singleton.mp hu
  · exact List.mem_singleton.mp hu

mutual

/-- A tree that stays without comments is as it was. -/
theorem placeComments_eq_self : (t : Tree) → (t.placeComments src).IsUncommented →
    t.placeComments src = t
  | .node l f s [], _ => by rw [placeComments]
  | .node l f s (c :: cs), h => by
      rw [placeComments] at h ⊢
      rw [placeCommentsAmong_eq_self s.start s.stop (c :: cs) fun u hu => h.child hu]

theorem placeCommentsAmong_eq_self (i stop : Nat) : (ts : List Tree) →
    (∀ u ∈ placeCommentsAmong src i stop ts, u.IsUncommented) →
      placeCommentsAmong src i stop ts = ts
  | [], h => by
      rw [placeCommentsAmong] at h ⊢
      exact commentsBetween_eq_nil h
  | t :: ts, h => by
      rw [placeCommentsAmong] at h ⊢
      obtain ⟨hgap, hrest⟩ := List.forall_mem_append.mp h
      obtain ⟨ht, hts⟩ := List.forall_mem_cons.mp hrest
      rw [commentsBetween_eq_nil hgap, placeComments_eq_self t ht,
        placeCommentsAmong_eq_self t.span.stop stop ts hts, List.nil_append]

end

mutual

/-- A node without comments in it is as it was before the comments were put in. -/
theorem mem_preorder_of_placeComments (hfree : u.IsUncommented) : (t : Tree) →
    u ∈ (t.placeComments src).preorder → u ∈ t.preorder
  | .node l f s [], hu => by rwa [placeComments] at hu
  | .node l f s (c :: cs), hu => by
      rw [placeComments, preorder] at hu
      rcases List.mem_cons.mp hu with rfl | hu
      · rw [placeCommentsAmong_eq_self s.start s.stop (c :: cs) fun v hv => hfree.child hv]
        exact mem_preorder_self _
      · rw [preorder]
        exact List.mem_cons_of_mem _
          (mem_preorderOfAll_of_placeCommentsAmong hfree s.start s.stop (c :: cs) hu)

theorem mem_preorderOfAll_of_placeCommentsAmong (hfree : u.IsUncommented) (i stop : Nat) :
    (ts : List Tree) → u ∈ preorderOfAll (placeCommentsAmong src i stop ts) →
      u ∈ preorderOfAll ts
  | [], hu => by
      rw [placeCommentsAmong] at hu
      obtain ⟨v, hv, hu⟩ := mem_preorderOfAll.mp hu
      have hleaf := isCommentLeaf_of_mem_commentsBetween hv
      obtain rfl := eq_of_mem_preorder_of_isCommentLeaf hleaf hu
      exact absurd hfree (not_isUncommented_of_isCommentLeaf hleaf)
  | t :: ts, hu => by
      rw [placeCommentsAmong] at hu
      obtain ⟨v, hv, hu⟩ := mem_preorderOfAll.mp hu
      rw [preorderOfAll]
      rcases List.mem_append.mp hv with hv | hv
      · have hleaf := isCommentLeaf_of_mem_commentsBetween hv
        obtain rfl := eq_of_mem_preorder_of_isCommentLeaf hleaf hu
        exact absurd hfree (not_isUncommented_of_isCommentLeaf hleaf)
      · rcases List.mem_cons.mp hv with rfl | hv
        · exact List.mem_append_left _ (mem_preorder_of_placeComments hfree t hu)
        · refine List.mem_append_right _ ?_
          exact mem_preorderOfAll_of_placeCommentsAmong hfree t.span.stop stop ts
            (mem_preorderOfAll.mpr ⟨v, hv, hu⟩)

end

end Tree

/-- In the tree of a text every function without comments in it takes parameters. -/
theorem takes_parse (src : Source) (d : Dialect) {u : Tree} (hu : u ∈ (src.parse d).preorder)
    (hfree : u.IsUncommented) (hfunction : u.isFunctionKind = true) :
    ∃ ps, Tree.Takes d u.children ps := by
  unfold Source.parse at hu
  split at hu
  · rename_i t stop notes hread
    have hyields := contributions_readProgram Rule.yieldsParameters_of_contributes hread
    have ht := hyields.functions t (List.mem_singleton.mpr rfl)
    rcases List.mem_cons.mp hu with rfl | hu
    · rw [Tree.children, Tree.placeCommentsAmong_eq_self 0 src.size t.children
        fun v hv => hfree.child hv]
      exact ht.root hfunction
    · have hbelow :=
        Tree.mem_preorderOfAll_of_placeCommentsAmong hfree 0 src.size t.children hu
      obtain ⟨v, hv, hu⟩ := Tree.mem_preorderOfAll.mp hbelow
      exact (ht.child hv) u hu hfunction
  · -- there is no function in the tree that shows a fault
    rcases List.mem_cons.mp hu with rfl | hu
    · cases hfunction
    · rw [List.mem_singleton.mp hu] at hfunction
      cases hfunction

end CodeSurvey
