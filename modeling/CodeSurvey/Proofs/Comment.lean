import CodeSurvey.Record.Extraction
import Mathlib.Data.List.Forall2

/-!
# Comments put into a tree

A comment can stand between any two tokens, and a tree keeps it as a named child
without a field. `Commented` relates a tree to the same with further comments in
it. What was there before keeps its label and its field; the text may be another
one and the spans may move, but a name or a literal that a record is made of reads
the same (`Tree.readsText`).

Children are looked up by field, by kind or as all that are named, and a comment
is none that is looked for (`Kept.child?`, `Kept.namedChildren_filter`). Four kinds
of nodes are different: of these a record looks at the first named child, whatever
it is (`Tree.looksAtFirst`). So there are two relations. In one comments are put in
anywhere, in the other one not in front of such a child, and that one leaves all
names alone: those that a pattern binds (`Kept.boundNames`), those of parameters,
of imports and of exports.
-/

namespace CodeSurvey

namespace Tree

/-! ## What records read -/

/-- Names and literals that end up in a record. -/
def readsText (parent : Option Tree) (t : Tree) : Bool :=
  t.isKind .identifier || t.isKind .typeIdentifier || t.isKind .thisExpression
    || t.isKind .shorthandPropertyIdentifierPattern || t.isLiteralText
    || t.field == some .source || t.field == some .alias
    || parent.any fun p =>
      (t.field == some .name && (p.isKind .importSpecifier || p.isKind .exportSpecifier
        || p.field == some .declaration))
      || (t.isNamed && p.isKind .namespaceExport)

/-- Of these nodes a record looks at the first named child. -/
def looksAtFirst (src : Source) (parent : Option Tree) (t : Tree) : Bool :=
  t.isKind .restPattern || t.isKind .namespaceExport || t.isKind .importRequireClause
    || (t.field == some .arguments && parent.any fun p => (p.importingCall? src).isSome)

end Tree

/-! ## The relation -/

/-- The second list is the first one with comments put in, at any depth. The lists are
those of the children of `parent`, or of what is left of them; where `free` is false,
no comment is put in until a named child has come by. With `front` this holds for no
node: comments can be put in anywhere. -/
inductive Commented (src src' : Source) (front : Bool) :
    Option Tree → Bool → List Tree → List Tree → Prop where
  | nil (parent : Option Tree) (free : Bool) : Commented src src' front parent free [] []
  | comment {parent : Option Tree} {ts us : List Tree} (start stop : Nat)
    (h : Commented src src' front parent true ts us) :
    Commented src src' front parent true ts (Tree.leaf .comment start stop :: us)
  | keep {parent : Option Tree} {free : Bool} {t u : Tree} {ts us : List Tree}
    (hlabel : u.label = t.label) (hfield : u.field = t.field)
    (htext : t.readsText parent = true → u.text src' = t.text src)
    (hchildren : Commented src src' front (some t) (front || !t.looksAtFirst src parent)
      t.children u.children)
    (hrest : Commented src src' front parent (free || t.isNamed) ts us) :
    Commented src src' front parent free (t :: ts) (u :: us)

/-- A node and what has become of it. -/
structure Kept (src src' : Source) (front : Bool) (parent : Option Tree) (t u : Tree) : Prop where
  label : u.label = t.label
  field : u.field = t.field
  text : t.readsText parent = true → u.text src' = t.text src
  children : Commented src src' front (some t) (front || !t.looksAtFirst src parent)
    t.children u.children

variable {src src' : Source} {front free : Bool} {parent : Option Tree} {t u : Tree}
variable {ts us : List Tree}

theorem Kept.isNamed (h : Kept src src' front parent t u) : u.isNamed = t.isNamed := by
  rw [Tree.isNamed, Tree.isNamed, h.label]

/-! ## Looking for children -/

/-- The children that are looked for by label and field are the same ones, unless
comments are looked for. -/
theorem Commented.filter (h : Commented src src' front parent free ts us)
    (q : Label → Option Field → Bool) (hq : q (.named .comment) none = false) :
    List.Forall₂ (fun a b => Kept src src' front parent a b ∧ q a.label a.field = true)
      (ts.filter fun a => q a.label a.field) (us.filter fun a => q a.label a.field) := by
  induction h with
  | nil => exact .nil
  | comment start stop h ih =>
      rw [List.filter_cons_of_neg (by simpa [Tree.leaf, Tree.label, Tree.field] using hq)]
      exact ih
  | @keep parent free t u ts us hlabel hfield htext hchildren hrest _ ih =>
      cases hfound : q t.label t.field with
      | false =>
          rw [List.filter_cons_of_neg (by simp [hfound]),
            List.filter_cons_of_neg (by simp [hlabel, hfield, hfound])]
          exact ih
      | true =>
          have hfound' : q u.label u.field = true := by rw [hlabel, hfield, hfound]
          rw [List.filter_cons_of_pos (by exact hfound), List.filter_cons_of_pos (by exact hfound')]
          exact .cons ⟨⟨hlabel, hfield, htext, hchildren⟩, hfound⟩ ih

theorem head?_of_forall₂ {R : Tree → Tree → Prop} (h : List.Forall₂ R ts us) :
    (ts.head? = none ∧ us.head? = none)
      ∨ ∃ a b, ts.head? = some a ∧ us.head? = some b ∧ R a b := by
  cases h with
  | nil => exact .inl ⟨rfl, rfl⟩
  | cons hhead _ => exact .inr ⟨_, _, rfl, rfl, hhead⟩

theorem map_of_forall₂ {β : Type} {R : Tree → Tree → Prop} {f g : Tree → β}
    (h : List.Forall₂ R ts us) (hfg : ∀ a b, R a b → f a = g b) : ts.map f = us.map g := by
  induction h with
  | nil => rfl
  | cons hhead _ ih => rw [List.map_cons, List.map_cons, hfg _ _ hhead, ih]

theorem filterMap_of_forall₂ {β : Type} {R : Tree → Tree → Prop} {f g : Tree → Option β}
    (h : List.Forall₂ R ts us) (hfg : ∀ a b, R a b → f a = g b) :
    ts.filterMap f = us.filterMap g := by
  have hmap := congrArg (List.filterMap id) (map_of_forall₂ h hfg)
  rwa [List.filterMap_map, List.filterMap_map] at hmap

theorem Commented.find? (h : Commented src src' front parent free ts us)
    (q : Label → Option Field → Bool) (hq : q (.named .comment) none = false) :
    ((ts.find? fun a => q a.label a.field) = none ∧ (us.find? fun a => q a.label a.field) = none)
      ∨ ∃ a b, (ts.find? fun a => q a.label a.field) = some a
        ∧ (us.find? fun a => q a.label a.field) = some b
        ∧ Kept src src' front parent a b ∧ q a.label a.field = true := by
  rw [← List.head?_filter, ← List.head?_filter]
  exact head?_of_forall₂ (h.filter q hq)

/-- What is gathered from all named children comes from the old ones, if a comment
yields nothing. -/
theorem Commented.flatMap_isNamed {β : Type} {g g' : Tree → List β}
    (h : Commented src src' front parent free ts us)
    (hcomment : ∀ start stop, g' (Tree.leaf .comment start stop) = [])
    (hkept : ∀ a b, Kept src src' front parent a b → g a = g' b) :
    (ts.filter (·.isNamed)).flatMap g = (us.filter (·.isNamed)).flatMap g' := by
  induction h with
  | nil => rfl
  | comment start stop h ih =>
      rw [List.filter_cons_of_pos rfl, List.flatMap_cons, hcomment, List.nil_append]
      exact ih hkept
  | @keep parent free t u ts us hlabel hf htext hchildren hrest _ ih =>
      have hold : Kept src src' front parent t u := ⟨hlabel, hf, htext, hchildren⟩
      have hu := hold.isNamed
      cases hn : t.isNamed with
      | true =>
          rw [List.filter_cons_of_pos hn, List.filter_cons_of_pos (hu.trans hn),
            List.flatMap_cons, List.flatMap_cons, ih hkept, hkept t u hold]
      | false =>
          rw [List.filter_cons_of_neg (by simp [hn]),
            List.filter_cons_of_neg (by simp [hu, hn]), ih hkept]

/-- Where none is put in front of the first named child, that is the same one. -/
theorem Commented.find?_isNamed (h : Commented src src' front parent free ts us)
    (hfree : free = false) :
    (ts.find? (·.isNamed) = none ∧ us.find? (·.isNamed) = none)
      ∨ ∃ a b, ts.find? (·.isNamed) = some a ∧ us.find? (·.isNamed) = some b
        ∧ Kept src src' front parent a b ∧ a.isNamed = true := by
  induction h with
  | nil => exact .inl ⟨rfl, rfl⟩
  | comment => cases hfree
  | @keep parent free t u ts us hlabel hfield htext hchildren hrest _ ih =>
      have hkept : Kept src src' front parent t u := ⟨hlabel, hfield, htext, hchildren⟩
      have hu := hkept.isNamed
      cases hnamed : t.isNamed with
      | true =>
          rw [List.find?_cons_of_pos hnamed, List.find?_cons_of_pos (hu.trans hnamed)]
          exact .inr ⟨t, u, rfl, rfl, hkept, hnamed⟩
      | false =>
          rw [List.find?_cons_of_neg (by simp [hnamed]),
            List.find?_cons_of_neg (by simp [hu, hnamed])]
          exact ih (by rw [hfree, hnamed, Bool.or_false])

namespace Kept

variable (h : Kept src src' front parent t u)

include h

theorem child? (f : Field) :
    (t.child? f = none ∧ u.child? f = none) ∨ ∃ a b, t.child? f = some a ∧ u.child? f = some b
      ∧ Kept src src' front (some t) a b ∧ a.field = some f := by
  rcases h.children.find? (fun _ field => field == some f) rfl with hnone | ⟨a, b, ha, hb, hab, hf⟩
  · exact .inl hnone
  · exact .inr ⟨a, b, ha, hb, hab, eq_of_beq hf⟩

theorem childOfKind? {k : NodeKind} (hk : k ≠ .comment) :
    (t.childOfKind? k = none ∧ u.childOfKind? k = none)
      ∨ ∃ a b, t.childOfKind? k = some a ∧ u.childOfKind? k = some b
        ∧ Kept src src' front (some t) a b ∧ a.isKind k = true :=
  h.children.find? (fun label _ => label == .named k) (by simpa using hk.symm)

theorem isKind (k : NodeKind) : u.isKind k = t.isKind k := by
  rw [Tree.isKind, Tree.isKind, h.label]

theorem namedChildren_filter (q : Label → Bool) (hq : q (.named .comment) = false) :
    List.Forall₂ (fun a b => Kept src src' front (some t) a b ∧ q a.label = true)
      (t.namedChildren.filter fun a => q a.label) (u.namedChildren.filter fun a => q a.label) := by
  have hfilter := h.children.filter (fun label _ => label.isNamed && q label) (by simp [hq])
  rw [Tree.namedChildren, Tree.namedChildren, List.filter_filter, List.filter_filter]
  simp only [Bool.and_comm (q _)]
  exact hfilter.imp fun a b hab => ⟨hab.1, (Bool.and_eq_true_iff.mp hab.2).2⟩

theorem any_children {q : Label → Bool} (hq : q (.named .comment) = false) :
    (u.children.any fun a => q a.label) = t.children.any fun a => q a.label := by
  rcases h.children.find? (fun label _ => q label) hq with ⟨ht, hu⟩ | ⟨a, b, ht, hu, -⟩
  · rw [← List.isSome_find?, ← List.isSome_find?, ht, hu]
  · rw [← List.isSome_find?, ← List.isSome_find?, ht, hu]
    rfl

theorem find?_namedChildren {k : NodeKind} (hk : k ≠ .comment) :
    (t.namedChildren.find? (·.isKind k) = none ∧ u.namedChildren.find? (·.isKind k) = none)
      ∨ ∃ a b, t.namedChildren.find? (·.isKind k) = some a
        ∧ u.namedChildren.find? (·.isKind k) = some b
        ∧ Kept src src' front (some t) a b ∧ a.isKind k = true := by
  rw [← List.head?_filter, ← List.head?_filter]
  exact head?_of_forall₂
    (h.namedChildren_filter (fun label => label == .named k) (by simpa using hk.symm))

theorem any_namedChildren {q : Label → Bool} (hq : q (.named .comment) = false) :
    (u.namedChildren.any fun a => q a.label) = t.namedChildren.any fun a => q a.label := by
  have hany := h.any_children (q := fun label => label.isNamed && q label) (by simp [hq])
  simpa only [Tree.namedChildren, List.any_filter, Tree.isNamed] using hany

end Kept

theorem Kept.head?_namedChildren (h : Kept src src' false parent t u)
    (hfirst : t.looksAtFirst src parent = true) :
    (t.namedChildren.head? = none ∧ u.namedChildren.head? = none)
      ∨ ∃ a b, t.namedChildren.head? = some a ∧ u.namedChildren.head? = some b
        ∧ Kept src src' false (some t) a b ∧ a.isNamed = true := by
  rw [Tree.namedChildren, Tree.namedChildren, List.head?_filter, List.head?_filter]
  exact h.children.find?_isNamed (by rw [hfirst]; rfl)

/-! ## Names that a pattern binds -/

/-- The names that a pattern binds, as cases of its kind. -/
theorem Tree.boundNames_eq (src : Source) (t : Tree) : t.boundNames src =
    match t.label with
    | .named .identifier | .named .shorthandPropertyIdentifierPattern => [t.text src]
    | .named .objectPattern | .named .arrayPattern => boundNamesOfNamed src t.children
    | .named .pairPattern => boundNamesOfField src .value t.children
    | .named .assignmentPattern | .named .objectAssignmentPattern =>
      boundNamesOfField src .left t.children
    | .named .restPattern => boundNamesOfFirstNamed src t.children
    | _ => [] := by
  obtain ⟨label, field, span, children⟩ := t
  simp only [Tree.label]
  split
  case h_9 => rw [boundNames] <;> simp_all
  all_goals rfl

/-- What a node binds is said by its label, its text and the children that are looked
for. -/
theorem boundNames_of_children {a b : Tree} (hlabel : b.label = a.label)
    (htext : a.readsText parent = true → b.text src' = a.text src)
    (hnamed : Tree.boundNamesOfNamed src a.children = Tree.boundNamesOfNamed src' b.children)
    (hfield : ∀ f, Tree.boundNamesOfField src f a.children
      = Tree.boundNamesOfField src' f b.children)
    (hfirst : a.looksAtFirst src parent = true →
      Tree.boundNamesOfFirstNamed src a.children = Tree.boundNamesOfFirstNamed src' b.children) :
    a.boundNames src = b.boundNames src' := by
  rw [Tree.boundNames_eq, Tree.boundNames_eq, hlabel]
  split
  case h_1 hkind => rw [htext (by simp [Tree.readsText, Tree.isKind, hkind])]
  case h_2 hkind => rw [htext (by simp [Tree.readsText, Tree.isKind, hkind])]
  case h_3 => exact hnamed
  case h_4 => exact hnamed
  case h_5 => exact hfield _
  case h_6 => exact hfield _
  case h_7 => exact hfield _
  case h_8 hkind => exact hfirst (by simp [Tree.looksAtFirst, Tree.isKind, hkind])
  case h_9 => rfl

theorem Commented.boundNames (h : Commented src src' false parent free ts us) :
    Tree.boundNamesOfNamed src ts = Tree.boundNamesOfNamed src' us
      ∧ (∀ f, Tree.boundNamesOfField src f ts = Tree.boundNamesOfField src' f us)
      ∧ (free = false →
        Tree.boundNamesOfFirstNamed src ts = Tree.boundNamesOfFirstNamed src' us) := by
  induction h with
  | nil => exact ⟨rfl, fun _ => rfl, fun _ => rfl⟩
  | comment start stop h ih =>
      obtain ⟨hnamed, hfield, -⟩ := ih
      refine ⟨?_, fun f => ?_, fun hfree => nomatch hfree⟩
      · rw [hnamed]
        rfl
      · rw [hfield]
        rfl
  | @keep parent free t u ts us hlabel hf htext hchildren hrest ihChildren ihRest =>
      -- the kind of `t` decides which of the three its children are asked for
      obtain ⟨hnamed, hfield, hfirst⟩ := ihRest
      have hsame : t.boundNames src = u.boundNames src' :=
        boundNames_of_children hlabel htext ihChildren.1 ihChildren.2.1
          fun hlooks => ihChildren.2.2 (by rw [hlooks]; rfl)
      have hu : u.isNamed = t.isNamed := Kept.isNamed ⟨hlabel, hf, htext, hchildren⟩
      refine ⟨?_, fun f => ?_, fun hfree => ?_⟩
      · rw [Tree.boundNamesOfNamed, Tree.boundNamesOfNamed, hu, hsame, hnamed]
      · rw [Tree.boundNamesOfField, Tree.boundNamesOfField, hf, hsame, hfield]
      · rw [Tree.boundNamesOfFirstNamed, Tree.boundNamesOfFirstNamed, hu, hsame]
        cases hn : t.isNamed with
        | true => rfl
        | false => exact hfirst (by rw [hfree, hn]; rfl)

theorem Kept.boundNames (h : Kept src src' false parent t u) :
    t.boundNames src = u.boundNames src' := by
  obtain ⟨hnamed, hfield, hfirst⟩ := h.children.boundNames
  exact boundNames_of_children h.label h.text hnamed hfield
    fun hlooks => hfirst (by rw [hlooks]; rfl)

/-! ## Names of parameters -/

theorem Tree.parameterName_eq (src : Source) (t : Tree) : t.parameterName src =
    match t.label with
    | .named .requiredParameter | .named .optionalParameter =>
      parameterName.wrapped src t.children
    | _ => t.patternName src := by
  obtain ⟨label, field, span, children⟩ := t
  simp only [Tree.label]
  split
  case h_3 => rw [parameterName] <;> simp_all
  all_goals rfl

namespace Kept

variable (h : Kept src src' false parent t u)

include h

theorem identifierText? : t.identifierText? src = u.identifierText? src' := by
  rw [Tree.identifierText?, Tree.identifierText?, h.isKind]
  split
  · rename_i hkind
    rw [h.text (by simp [Tree.readsText, hkind])]
  · rfl

theorem patternName : t.patternName src = u.patternName src' := by
  rw [Tree.patternName, Tree.patternName, h.label]
  split
  case h_1 hkind => rw [h.text (by simp [Tree.readsText, Tree.isKind, hkind])]
  case h_2 hkind => rw [h.text (by simp [Tree.readsText, Tree.isKind, hkind])]
  case h_3 hkind =>
    have hlooks : t.looksAtFirst src parent = true := by
      simp [Tree.looksAtFirst, Tree.isKind, hkind]
    rcases h.head?_namedChildren hlooks with ⟨ht, hu⟩ | ⟨a, b, ht, hu, hab, -⟩
    · rw [ht, hu, Option.bind_none, Option.bind_none]
    · rw [ht, hu, Option.bind_some, Option.bind_some, hab.identifierText?]
  case h_4 =>
    rcases h.child? .left with ⟨ht, hu⟩ | ⟨a, b, ht, hu, hab, -⟩
    · rw [ht, hu, Option.bind_none, Option.bind_none]
    · rw [ht, hu, Option.bind_some, Option.bind_some, hab.identifierText?]
  case h_5 => rfl

end Kept

theorem Commented.wrapped (h : Commented src src' false parent free ts us) :
    Tree.parameterName.wrapped src ts = Tree.parameterName.wrapped src' us := by
  induction h with
  | nil => rfl
  | comment start stop h ih =>
      rw [ih]
      rfl
  | @keep parent free t u ts us hlabel hf htext hchildren hrest ihChildren ihRest =>
      have hkept : Kept src src' false parent t u := ⟨hlabel, hf, htext, hchildren⟩
      have hsame : t.parameterName src = u.parameterName src' := by
        rw [Tree.parameterName_eq, Tree.parameterName_eq, hlabel, ihChildren,
          hkept.patternName]
      rw [Tree.parameterName.wrapped, Tree.parameterName.wrapped, hf, hsame, ihRest]

namespace Kept

variable (h : Kept src src' false parent t u)

include h

theorem parameterName : t.parameterName src = u.parameterName src' := by
  rw [Tree.parameterName_eq, Tree.parameterName_eq, h.label, h.children.wrapped,
    h.patternName]

theorem parameterNames : t.parameterNames src = u.parameterNames src' := by
  rw [Tree.parameterNames, Tree.parameterNames]
  rcases h.child? .parameter with ⟨ht, hu⟩ | ⟨a, b, ht, hu, hab, -⟩
  · rw [ht, hu]
    rcases h.child? .parameters with ⟨ht, hu⟩ | ⟨a, b, ht, hu, hab, -⟩
    · rw [ht, hu]
    · rw [ht, hu]
      exact map_of_forall₂ (hab.namedChildren_filter (fun label => !(label == .named .comment)) rfl)
        fun c d hcd => hcd.1.parameterName
  · rw [ht, hu]
    exact congrArg (fun name => [name]) hab.parameterName

end Kept

/-! ## Names of imports -/

/-- The names of an import clause. -/
def Tree.clauseNames (src : Source) (t : Tree) : List String :=
  match t.childOfKind? .importClause with
  | some clause => clause.namedChildren.flatMap (·.importedNames src)
  | none => []

/-- The name in front of the equals sign. -/
def Tree.requiredName (src : Source) (t : Tree) : List String :=
  (t.namedChildren.head?.bind (·.identifierText? src)).toList

theorem Tree.importRecord?_eq (src : Source) (t : Tree) : t.importRecord? src =
    match t.child? .source with
    | some module => some ⟨module.unquoted src, t.clauseNames src, .static⟩
    | none => (t.childOfKind? .importRequireClause).bind fun clause =>
      (clause.child? .source).map fun module =>
        ⟨module.unquoted src, clause.requiredName src, .require⟩ := by
  rw [importRecord?]
  cases t.child? .source with
  | some module => rfl
  | none =>
      cases t.childOfKind? .importRequireClause with
      | none => rfl
      | some clause =>
          rw [Option.bind_some]
          refine congrArg (fun f => Option.map f (clause.child? .source)) (funext fun module => ?_)
          rw [requiredName]
          cases clause.namedChildren.head? with
          | none => rfl
          | some name => cases hkind : name.isKind .identifier <;> simp [identifierText?, hkind]

theorem Tree.unquoted_congr (htext : u.text src' = t.text src) :
    t.unquoted src = u.unquoted src' := by
  rw [Tree.unquoted, Tree.unquoted, htext]

namespace Kept

variable (h : Kept src src' false parent t u)

include h

theorem isLiteralText : u.isLiteralText = t.isLiteralText := by
  have hany : (u.namedChildren.any (·.isKind .templateSubstitution))
      = t.namedChildren.any (·.isKind .templateSubstitution) :=
    h.any_namedChildren (q := fun label => label == .named .templateSubstitution) rfl
  rw [Tree.isLiteralText, Tree.isLiteralText, h.label, hany]

/-- What a specifier is known as, or else what it stands for. -/
theorem specifierName
    (hkind : t.isKind .importSpecifier = true ∨ t.isKind .exportSpecifier = true) :
    ((t.child? .alias <|> t.child? .name) = none ∧ (u.child? .alias <|> u.child? .name) = none)
      ∨ ∃ a b, (t.child? .alias <|> t.child? .name) = some a
        ∧ (u.child? .alias <|> u.child? .name) = some b ∧ b.text src' = a.text src := by
  rcases h.child? .alias with ⟨ht, hu⟩ | ⟨a, b, ht, hu, hab, hfield⟩
  · rw [ht, hu]
    rcases h.child? .name with ⟨ht, hu⟩ | ⟨a, b, ht, hu, hab, hfield⟩
    · exact .inl ⟨ht, hu⟩
    · have hreads : a.readsText (some t) = true := by
        rcases hkind with hk | hk <;> simp [Tree.readsText, hfield, hk]
      exact .inr ⟨a, b, ht, hu, hab.text hreads⟩
  · rw [ht, hu]
    exact .inr ⟨a, b, rfl, rfl, hab.text (by simp [Tree.readsText, hfield])⟩

theorem importedNames : t.importedNames src = u.importedNames src' := by
  rw [Tree.importedNames, Tree.importedNames, h.label]
  split
  case h_1 hkind => rw [h.text (by simp [Tree.readsText, Tree.isKind, hkind])]
  case h_2 =>
    rcases h.find?_namedChildren (k := .identifier) (by decide) with
      ⟨ht, hu⟩ | ⟨a, b, ht, hu, hab, hkind⟩
    · rw [ht, hu]
    · simp only [ht, hu, hab.text (by simp [Tree.readsText, hkind])]
  case h_3 =>
    refine filterMap_of_forall₂
      (h.namedChildren_filter (fun label => label == .named .importSpecifier) rfl) ?_
    rintro a b ⟨hab, hkind⟩
    rcases hab.specifierName (.inl hkind) with ⟨ht, hu⟩ | ⟨c, d, ht, hu, htext⟩
    · rw [ht, hu, Option.map_none, Option.map_none]
    · rw [ht, hu, Option.map_some, Option.map_some, htext]
  case h_4 => rfl

theorem clauseNames : t.clauseNames src = u.clauseNames src' := by
  rw [Tree.clauseNames, Tree.clauseNames]
  rcases h.childOfKind? (k := .importClause) (by decide) with ⟨ht, hu⟩ | ⟨a, b, ht, hu, hab, -⟩
  · rw [ht, hu]
  · rw [ht, hu]
    exact hab.children.flatMap_isNamed (fun _ _ => rfl) fun c d hcd => hcd.importedNames

theorem requiredName (hkind : t.isKind .importRequireClause = true) :
    t.requiredName src = u.requiredName src' := by
  have hlooks : t.looksAtFirst src parent = true := by simp [Tree.looksAtFirst, hkind]
  rw [Tree.requiredName, Tree.requiredName]
  rcases h.head?_namedChildren hlooks with ⟨ht, hu⟩ | ⟨a, b, ht, hu, hab, -⟩
  · rw [ht, hu, Option.bind_none, Option.bind_none]
  · rw [ht, hu, Option.bind_some, Option.bind_some, hab.identifierText?]

theorem importRecord? : t.importRecord? src = u.importRecord? src' := by
  have hmodule : ∀ {parent a b}, Kept src src' false parent a b → a.field = some .source →
      a.unquoted src = b.unquoted src' := fun hab hfield =>
    Tree.unquoted_congr (hab.text (by simp [Tree.readsText, hfield]))
  rw [Tree.importRecord?_eq, Tree.importRecord?_eq]
  rcases h.child? .source with ⟨ht, hu⟩ | ⟨a, b, ht, hu, hab, hfield⟩
  · rw [ht, hu]
    rcases h.childOfKind? (k := .importRequireClause) (by decide) with
      ⟨ht, hu⟩ | ⟨c, d, ht, hu, hcd, hkind⟩
    · simp only [ht, hu, Option.bind_none]
    · simp only [ht, hu, Option.bind_some, hcd.requiredName hkind]
      rcases hcd.child? .source with ⟨ht, hu⟩ | ⟨a, b, ht, hu, hab, hfield⟩
      · simp only [ht, hu, Option.map_none]
      · simp only [ht, hu, Option.map_some, hmodule hab hfield]
  · simp only [ht, hu, hmodule hab hfield, h.clauseNames]

theorem importingCall? : t.importingCall? src = u.importingCall? src' := by
  rw [Tree.importingCall?, Tree.importingCall?]
  rcases h.child? .function with ⟨ht, hu⟩ | ⟨a, b, ht, hu, hab, -⟩
  · rw [ht, hu]
  · simp only [ht, hu, hab.isKind]
    cases hkind : a.isKind .identifier with
    | false => simp only [Bool.false_and]
    | true => rw [hab.text (by simp [Tree.readsText, hkind])]

end Kept

/-- What an importing call imports: the first argument if that is a literal. -/
theorem Kept.callImportRecord? {c d : Cursor} (h : Kept src src' false parent c.tree d.tree)
    (hnames : c.requiredNames src = d.requiredNames src') :
    c.callImportRecord? src = d.callImportRecord? src' := by
  rw [Cursor.callImportRecord?, Cursor.callImportRecord?, ← h.importingCall?]
  cases hcall : c.tree.importingCall? src with
  | none => rfl
  | some kind =>
      rcases h.child? .arguments with ⟨ht, hu⟩ | ⟨args, args', ht, hu, hargs, hfield⟩
      · simp only [ht, hu, Option.bind_none]
      · have hlooks : args.looksAtFirst src (some c.tree) = true := by
          simp [Tree.looksAtFirst, hfield, hcall]
        rcases hargs.head?_namedChildren hlooks with ⟨hm, hn⟩ | ⟨m, n, hm, hn, hmn, -⟩
        · simp only [ht, hu, Option.bind_some, hm, hn]
        · simp only [ht, hu, Option.bind_some, hm, hn, hmn.isLiteralText, hnames]
          split
          · rename_i hliteral
            rw [Tree.unquoted_congr (hmn.text (by simp [Tree.readsText, hliteral]))]
          · rfl

/-! ## Names of exports -/

/-- The names that a declarator binds. -/
def Tree.patternNames (src : Source) (t : Tree) : List String :=
  match t.child? .name with
  | some pattern => pattern.boundNames src
  | none => []

namespace Kept

variable (h : Kept src src' false parent t u)

include h

theorem defaultExportName? : t.defaultExportName? src = u.defaultExportName? src' := by
  rw [Tree.defaultExportName?, Tree.defaultExportName?, h.isKind]
  split
  · rename_i hkind
    rw [h.text (by simp [Tree.readsText, hkind])]
  · rcases h.child? .name with ⟨ht, hu⟩ | ⟨a, b, ht, hu, hab, -⟩
    · rw [ht, hu]
    · simp only [ht, hu, hab.isKind]
      split
      · rename_i hkind
        have hreads : a.readsText (some t) = true := by
          rcases Bool.or_eq_true_iff.mp hkind with hk | hk <;> simp [Tree.readsText, hk]
        rw [hab.text hreads]
      · rfl

theorem patternNames : t.patternNames src = u.patternNames src' := by
  rw [Tree.patternNames, Tree.patternNames]
  rcases h.child? .name with ⟨ht, hu⟩ | ⟨a, b, ht, hu, hab, -⟩
  · rw [ht, hu]
  · simp only [ht, hu, hab.boundNames]

theorem declaredNames (hfield : t.field = some .declaration) :
    t.declaredNames src = u.declaredNames src' := by
  rw [Tree.declaredNames, Tree.declaredNames, h.label]
  have hdeclarators := map_of_forall₂
    (h.namedChildren_filter (fun label => label == .named .variableDeclarator) rfl)
    fun a b hab => hab.1.patternNames
  split
  case h_1 => exact congrArg List.flatten hdeclarators
  case h_2 => exact congrArg List.flatten hdeclarators
  case h_3 =>
    rcases h.child? .name with ⟨ht, hu⟩ | ⟨a, b, ht, hu, hab, hname⟩
    · rw [ht, hu]
    · simp only [ht, hu, hab.text (by simp [Tree.readsText, hname, hfield])]

theorem specifierNames : t.specifierNames src = u.specifierNames src' := by
  refine filterMap_of_forall₂
    (h.namedChildren_filter (fun label => label == .named .exportSpecifier) rfl) ?_
  rintro a b ⟨hab, hkind⟩
  rcases hab.specifierName (.inr hkind) with ⟨ht, hu⟩ | ⟨c, d, ht, hu, htext⟩
  · rw [ht, hu, Option.map_none, Option.map_none]
  · rw [ht, hu, Option.map_some, Option.map_some, Tree.unquoted_congr htext]

theorem defaultTarget :
    (t.child? .declaration <|> t.child? .value).bind (·.defaultExportName? src)
      = (u.child? .declaration <|> u.child? .value).bind (·.defaultExportName? src') := by
  rcases h.child? .declaration with ⟨ht, hu⟩ | ⟨a, b, ht, hu, hab, -⟩
  · rw [ht, hu]
    rcases h.child? .value with ⟨ht, hu⟩ | ⟨a, b, ht, hu, hab, -⟩
    · rw [ht, hu]
      rfl
    · rw [ht, hu]
      exact hab.defaultExportName?
  · rw [ht, hu]
    exact hab.defaultExportName?

/-- The name that a namespace is exported by. -/
theorem namespaceName (hkind : t.isKind .namespaceExport = true) :
    t.namedChildren.head?.map (·.unquoted src) = u.namedChildren.head?.map (·.unquoted src') := by
  have hlooks : t.looksAtFirst src parent = true := by simp [Tree.looksAtFirst, hkind]
  rcases h.head?_namedChildren hlooks with ⟨ht, hu⟩ | ⟨a, b, ht, hu, hab, hnamed⟩
  · rw [ht, hu, Option.map_none, Option.map_none]
  · rw [ht, hu, Option.map_some, Option.map_some,
      Tree.unquoted_congr (hab.text (by simp [Tree.readsText, hnamed, hkind]))]

theorem exportedNames : t.exportedNames src = u.exportedNames src' := by
  have htoken : ∀ text, u.children.any (·.isToken text) = t.children.any (·.isToken text) :=
    fun text => h.any_children (q := fun label => label == .token text) rfl
  rw [Tree.exportedNames, Tree.exportedNames, htoken, htoken]
  split
  · exact congrArg (fun name? : Option String => [(name?.getD "default", ExportKind.default)])
      h.defaultTarget
  · rcases h.child? .declaration with ⟨ht, hu⟩ | ⟨a, b, ht, hu, hab, hfield⟩
    · rcases h.childOfKind? (k := .exportClause) (by decide) with
        ⟨hc, hc'⟩ | ⟨a, b, hc, hc', hab, -⟩
      · rcases h.childOfKind? (k := .namespaceExport) (by decide) with
          ⟨hn, hn'⟩ | ⟨a, b, hn, hn', hab, hkind⟩
        · simp only [ht, hu, hc, hc', hn, hn']
        · simp only [ht, hu, hc, hc', hn, hn', hab.namespaceName hkind]
      · simp only [ht, hu, hc, hc', hab.specifierNames]
    · simp only [ht, hu, hab.declaredNames hfield]

end Kept

end CodeSurvey
