import CodeSurvey.Proofs.Comment
import CodeSurvey.Proofs.Extraction
import CodeSurvey.Proofs.ParameterShape

/-!
# Names of parameters

The entry of a parameter is the name that is its target, if it is one, and the word
`unknown` if it is not, with three dots in front if it is the rest (`Parameter.entry`). So
wrappers, types and default values do not show.

What is listed comes short of this in two cases (`Parameter.listed_eq_entry_iff`). The word
`undefined` is no identifier for the grammar, so a parameter of that name is unknown. And
where the default value is one node with the pattern, which is so without types only, a
pattern that is the rest is not looked into: it is unknown too, and loses its dots.
So the entries of the same parameters are the same in two texts, whatever their dialects,
if and only if these dots are lost in both or in none (`ListsParameters`).
-/

namespace CodeSurvey

/-! ## Entries -/

namespace Parameter

/-- The name that the target is. The word `undefined` is one, of a kind of its own. -/
def name? (src : Source) (p : Parameter) : Option String :=
  match p.target.label with
  | .named .identifier | .named .thisExpression => some (p.target.text src)
  | .named .undefinedName => some "undefined"
  | _ => none

def dots (p : Parameter) : String := if p.isRest then "..." else ""

/-- The entry of a parameter by its target and its dots. -/
def entry (src : Source) (p : Parameter) : String := p.dots ++ (p.name? src).getD "unknown"

def isUndefined (p : Parameter) : Bool := p.target.label == .named .undefinedName

/-- The dots are behind a default value. -/
def losesDots (p : Parameter) : Bool := p.isRest && p.isDefaulted

/-- The entry that is listed. -/
def listed (src : Source) (p : Parameter) : String :=
  if p.losesDots then "unknown"
  else p.dots ++ if p.isUndefined then "unknown" else (p.name? src).getD "unknown"

/-- Both take the same by the same name, if it is one. -/
structure Same (src src' : Source) (p q : Parameter) : Prop where
  isRest : p.isRest = q.isRest
  label : p.target.label = q.target.label
  name : p.name? src = q.name? src'

variable {src src' : Source} {p q : Parameter}

theorem unknown_ne_dots (s : String) : "unknown" ≠ "..." ++ s := by
  intro h
  have hhead := congrArg (fun t => t.toList.head?) h
  simp at hhead

/-- What is listed is the entry, but for the two cases in which it is not. -/
theorem listed_eq_entry_iff :
    p.listed src = p.entry src ↔ p.losesDots = false ∧ p.isUndefined = false := by
  rw [listed, entry]
  cases hlost : p.losesDots with
  | true =>
      have hrest : p.isRest = true := (Bool.and_eq_true_iff.mp hlost).1
      rw [if_pos rfl, dots, if_pos hrest]
      exact ⟨fun h => absurd h (unknown_ne_dots _), fun h => nomatch h.1⟩
  | false =>
      rw [if_neg Bool.false_ne_true]
      cases hundefined : p.isUndefined with
      | true =>
          have hname : p.name? src = some "undefined" := by
            rw [name?, eq_of_beq hundefined]
          rw [if_pos rfl, hname, Option.getD_some, String.append_right_inj]
          exact ⟨fun h => absurd h (by decide), fun h => nomatch h.2⟩
      | false => exact ⟨fun _ => ⟨rfl, rfl⟩, fun _ => rfl⟩

theorem Same.listed_eq_iff (h : Same src src' p q) :
    p.listed src = q.listed src' ↔ p.losesDots = q.losesDots := by
  have hdots : p.dots = q.dots := by rw [dots, dots, h.isRest]
  have hundefined : p.isUndefined = q.isUndefined := by rw [isUndefined, isUndefined, h.label]
  have hrest : ∀ {r : Parameter}, r.losesDots = true → r.isRest = true :=
    fun hlost => (Bool.and_eq_true_iff.mp hlost).1
  rw [listed, listed, hdots, hundefined, h.name]
  cases hp : p.losesDots <;> cases hq : q.losesDots
  case false.false => exact ⟨fun _ => rfl, fun _ => rfl⟩
  case true.true => exact ⟨fun _ => rfl, fun _ => rfl⟩
  case false.true =>
    rw [dots, if_pos (hrest hq)]
    exact ⟨fun heq => absurd heq.symm (unknown_ne_dots _), nofun⟩
  case true.false =>
    rw [dots, if_pos (h.isRest.symm.trans (hrest hp)), if_pos rfl, if_neg Bool.false_ne_true]
    exact ⟨fun heq => absurd heq (unknown_ne_dots _), nofun⟩

theorem map_listed_eq_iff {ps qs : List Parameter} (h : List.Forall₂ (Same src src') ps qs) :
    ps.map (·.listed src) = qs.map (·.listed src')
      ↔ List.Forall₂ (fun p q => p.losesDots = q.losesDots) ps qs := by
  induction h with
  | nil => exact ⟨fun _ => .nil, fun _ => rfl⟩
  | cons hpq _ ih =>
      rw [List.map_cons, List.map_cons, List.cons_eq_cons, hpq.listed_eq_iff, ih,
        List.forall₂_cons]

end Parameter

/-! ## What is listed for a function -/

namespace Tree

variable {src : Source} {d : Dialect} {t u : Tree} {p : Parameter} {ps : List Parameter}

theorem child?_of_only (h : Only t.children u) {f : Field} (hf : f.isOfParameters = true) :
    t.child? f = if u.field = some f then some u else none := by
  have hplace : (fun c : Tree => c.field == some f)
      = fun c => decide (c.field.any Field.isOfParameters = true ∧ (c.field == some f) = true) := by
    funext c
    cases hc : c.field with
    | none => rfl
    | some g => by_cases hg : g = f <;> simp [hg, hf]
  rw [child?, hplace, ← List.find?_filter, h, List.find?_singleton]
  simp

theorem wrapped_eq (src : Source) (ts : List Tree) : parameterName.wrapped src ts
    = ((ts.find? fun c => c.field == some .pattern).map (·.parameterName src)).getD
      unnamedParameter := by
  induction ts with
  | nil => rfl
  | cons t ts ih =>
      rw [parameterName.wrapped, ih]
      by_cases h : t.field = some .pattern <;> simp [h]

theorem isNamed_of_isTarget (h : t.label.isTarget = true) : t.isNamed = true := by
  unfold Label.isTarget at h
  rw [isNamed]
  split at h <;> simp_all [Label.isNamed]

theorem patternName_of_isTarget (h : t.label.isTarget = true) :
    t.patternName src = (t.identifierText? src).getD unnamedParameter := by
  unfold Label.isTarget at h
  split at h <;> simp_all [patternName, identifierText?, isKind]

/-- Where the dots are kept, the target is looked at by itself. -/
theorem listed_of_isTarget (htarget : p.target.label.isTarget = true)
    (hkept : p.losesDots = false) :
    p.listed src = p.dots ++ (p.target.identifierText? src).getD unnamedParameter := by
  rw [Parameter.listed, hkept, if_neg Bool.false_ne_true, Parameter.isUndefined, Parameter.name?]
  refine congrArg (p.dots ++ ·) ?_
  unfold Label.isTarget at htarget
  split at htarget <;> simp_all [identifierText?, isKind, unnamedParameter]

theorem listed_of_plain {isDefaulted : Bool} (h : t.label.isTarget = true) :
    Parameter.listed src ⟨false, isDefaulted, t⟩
      = (t.identifierText? src).getD unnamedParameter := by
  rw [listed_of_isTarget h rfl]
  exact String.empty_append

theorem patternName_of_isPattern {rest : Bool} {target : Tree} (h : t.IsPattern rest target) :
    t.patternName src = Parameter.listed src ⟨rest, false, target⟩ := by
  cases h with
  | plain h => rw [patternName_of_isTarget h, listed_of_plain h]
  | @rest dots _ hlabel hchildren hdots htarget =>
      have hfirst : t.namedChildren.head? = some target := by
        have hnot : dots.isNamed = false := by rw [isNamed, hdots]; rfl
        rw [namedChildren, hchildren, List.filter_cons_of_neg (by simp [hnot]),
          List.filter_cons_of_pos (isNamed_of_isTarget htarget), List.head?_cons]
      rw [patternName, hlabel]
      dsimp only
      rw [hfirst, Option.bind_some, listed_of_isTarget htarget rfl]
      rfl

/-- A pattern that is the rest is no identifier, so a default value hides it. -/
theorem identifierText?_of_isPattern {rest : Bool} {target : Tree} (h : t.IsPattern rest target) :
    (t.identifierText? src).getD unnamedParameter
      = Parameter.listed src ⟨rest, true, target⟩ := by
  cases h with
  | plain h => rw [listed_of_plain h]
  | rest hlabel hchildren hdots htarget =>
      rw [identifierText?, isKind, hlabel]
      rfl

theorem parameterName_of_isPattern {rest : Bool} {target : Tree} (h : t.IsPattern rest target) :
    t.parameterName src = Parameter.listed src ⟨rest, false, target⟩ := by
  rw [parameterName_eq, ← patternName_of_isPattern h]
  have hlabel := label_of_isPattern h
  split
  · simp_all [Label.isTarget]
  · simp_all [Label.isTarget]
  · rfl

theorem parameterName_of_isWrapper (h : t.label.isWrapper = true) :
    t.parameterName src = parameterName.wrapped src t.children := by
  rw [parameterName_eq]
  unfold Label.isWrapper at h
  split at h <;> simp_all

theorem parameterName_of_only {q : Tree} (hlabel : t.label.isWrapper = true)
    (honly : Only t.children q) (hfield : q.field = some .pattern) :
    t.parameterName src = q.parameterName src := by
  have hchild : (t.children.find? fun c => c.field == some .pattern) = some q := by
    have := child?_of_only honly (f := .pattern) rfl
    rwa [if_pos hfield] at this
  rw [parameterName_of_isWrapper hlabel, wrapped_eq, hchild]
  rfl

theorem parameterName_of_isParameter (h : t.IsParameter d p) :
    t.parameterName src = p.listed src := by
  cases h with
  | bare hd h => exact parameterName_of_isPattern h
  | @defaulted rest target left sign value hd hlabel hchildren hfield hsign h =>
      have hleft : t.child? .left = some left := by
        rw [child?, hchildren, List.find?_cons_of_pos (by simp [hfield])]
      rw [parameterName_eq, hlabel]
      dsimp only
      rw [patternName, hlabel]
      dsimp only
      rw [hleft, Option.bind_some, identifierText?_of_isPattern h]
  | wrapped hd hlabel honly hfield h =>
      rw [parameterName_of_only hlabel honly hfield, parameterName_of_isPattern h]
  | receiver hd hlabel honly hfield h =>
      rw [parameterName_of_only hlabel honly hfield, parameterName_eq, h]
      dsimp only
      rw [patternName, h]
      simp [Parameter.listed, Parameter.losesDots, Parameter.isUndefined, Parameter.name?,
        Parameter.dots, h]

/-- A parameter is a node of its own, and no comment. -/
theorem isNamed_of_isParameter (h : t.IsParameter d p) :
    t.isNamed = true ∧ t.isKind .comment = false := by
  have hlabel : t.label.isTarget = true ∨ t.label = .named .restPattern
      ∨ t.label = .named .assignmentPattern ∨ t.label.isWrapper = true := by
    cases h with
    | bare _ h => exact (label_of_isPattern h).imp_right .inl
    | defaulted _ hlabel _ _ _ _ => exact .inr (.inr (.inl hlabel))
    | wrapped _ hlabel _ _ _ => exact .inr (.inr (.inr hlabel))
    | receiver _ hlabel _ _ _ => exact .inr (.inr (.inr hlabel))
  rw [isNamed, isKind]
  unfold Label.isTarget Label.isWrapper at hlabel
  rcases hlabel with h | h | h | h
  · split at h <;> simp_all [Label.isNamed]
  · rw [h]; exact ⟨rfl, rfl⟩
  · rw [h]; exact ⟨rfl, rfl⟩
  · split at h <;> simp_all [Label.isNamed]

/-- The nodes that are listed. -/
def parametersAmong (ts : List Tree) : List Tree :=
  (ts.filter isNamed).filter (!·.isKind .comment)

theorem parametersAmong_append (ts us : List Tree) :
    parametersAmong (ts ++ us) = parametersAmong ts ++ parametersAmong us := by
  rw [parametersAmong, List.filter_append, List.filter_append]
  rfl

theorem parametersAmong_token {text : String} (h : t.label = .token text) :
    parametersAmong [t] = [] := by
  have hnamed : t.isNamed = false := by rw [isNamed, h]; rfl
  simp [parametersAmong, hnamed]

theorem parametersAmong_parameter (h : t.IsParameter d p) : parametersAmong [t] = [t] := by
  obtain ⟨hnamed, hcomment⟩ := isNamed_of_isParameter h
  simp [parametersAmong, hnamed, hcomment]

theorem map_parametersAmong {ts : List Tree} (h : AreParameters d ts ps) :
    (parametersAmong ts).map (·.parameterName src) = ps.map (·.listed src) := by
  induction h with
  | nil => rfl
  | last h =>
      rw [parametersAmong_parameter h, List.map_singleton, List.map_singleton,
        parameterName_of_isParameter h]
  | @cons t comma p ts ps h hcomma _ ih =>
      rw [show t :: comma :: ts = [t] ++ ([comma] ++ ts) from rfl, parametersAmong_append,
        parametersAmong_append, parametersAmong_parameter h, parametersAmong_token hcomma,
        List.nil_append, List.singleton_append, List.map_cons, List.map_cons, ih,
        parameterName_of_isParameter h]

theorem parameterNames_of_takes (h : Takes d t.children ps) :
    t.parameterNames src = ps.map (·.listed src) := by
  obtain ⟨u, honly, hu⟩ := h
  rw [parameterNames, child?_of_only honly rfl]
  cases hu with
  | lone hfield hlabel =>
      have htarget : u.label.isTarget = true := by rw [hlabel]; rfl
      rw [if_pos hfield]
      exact congrArg (fun name => [name]) (parameterName_of_isPattern (.plain htarget))
  | listed hfield hlist =>
      obtain ⟨hlabel, hchildren, hopening, hclosing, hts⟩ := hlist
      rw [if_neg (by rw [hfield]; decide), child?_of_only honly rfl, if_pos hfield]
      dsimp only
      rw [namedChildren, hchildren, ← map_parametersAmong hts, ← parametersAmong,
        ← List.singleton_append, parametersAmong_append, parametersAmong_append,
        parametersAmong_token hopening, parametersAmong_token hclosing, List.nil_append,
        List.append_nil]

/-- With types a default value is in the wrapper, beside the pattern. -/
theorem losesDots_of_isTyped (hd : d.isTyped = true) (h : Takes d t.children ps) :
    ∀ p ∈ ps, p.losesDots = false := by
  have hparameter : ∀ {u : Tree} {p : Parameter}, u.IsParameter d p → p.losesDots = false := by
    intro u p hu
    cases hu with
    | bare hbare => exact absurd (hd.symm.trans hbare) (by decide)
    | defaulted hbare => exact absurd (hd.symm.trans hbare) (by decide)
    | wrapped => exact Bool.and_false _
    | receiver => rfl
  obtain ⟨u, -, hu⟩ := h
  cases hu with
  | lone => exact List.forall_mem_singleton.mpr rfl
  | listed hfield hlist =>
      obtain ⟨-, -, -, -, hts⟩ := hlist
      induction hts with
      | nil => exact List.forall_mem_nil _
      | last hp => exact List.forall_mem_singleton.mpr (hparameter hp)
      | cons hp _ _ ih => exact List.forall_mem_cons.mpr ⟨hparameter hp, ih⟩

end Tree

/-! ## The records of all texts -/

/-- How the record of a function with some parameters lists them. -/
structure Cursor.ListsAs (src : Source) (d : Dialect) (c : Cursor) (ps : List Parameter) :
    Prop where
  takes : Tree.Takes d c.tree.children ps
  /-- There is one entry for each parameter, in their order. -/
  parameters : (c.functionRecord src).parameters = ps.map (·.listed src)
  entries_iff : (c.functionRecord src).parameters = ps.map (·.entry src)
    ↔ ∀ p ∈ ps, p.losesDots = false ∧ p.isUndefined = false
  /-- With types no dots are lost. -/
  typed : d.isTyped = true → ∀ p ∈ ps, p.losesDots = false

theorem Cursor.listsAs_of_takes {src : Source} {d : Dialect} {c : Cursor} {ps : List Parameter}
    (h : Tree.Takes d c.tree.children ps) : c.ListsAs src d ps := by
  have hlisted : (c.functionRecord src).parameters = ps.map (·.listed src) :=
    Tree.parameterNames_of_takes h
  refine ⟨h, hlisted, ?_, fun hd => Tree.losesDots_of_isTyped hd h⟩
  rw [hlisted, List.map_inj_left]
  exact forall₂_congr fun p _ => Parameter.listed_eq_entry_iff

/-- How the parameters of the functions in a tree are listed. -/
structure ListsParameters (src : Source) (d : Dialect) (t : Tree) : Prop where
  functions : ∀ c ∈ (Cursor.ofTree t).walk, c.tree.isFunctionKind = true →
    c.tree.IsUncommented → ∃ ps, c.ListsAs src d ps
      ∧ ∀ qs, Tree.Takes d c.tree.children qs → qs = ps
  /-- The same parameters have the same entries, here and in a tree of any text and dialect, if
  the same dots are lost. -/
  same : ∀ c ∈ (Cursor.ofTree t).walk, ∀ ps, c.ListsAs src d ps →
    ∀ (src' : Source) (d' : Dialect) (c' : Cursor) (ps' : List Parameter), c'.ListsAs src' d' ps' →
      List.Forall₂ (Parameter.Same src src') ps ps' →
        ((c.functionRecord src).parameters = (c'.functionRecord src').parameters
          ↔ List.Forall₂ (fun p p' => p.losesDots = p'.losesDots) ps ps')

/-- In the tree of a text the parameters of a function without comments in it are listed one by
one. Each has the entry that its target and its dots say, but for the word `undefined` and for
a rest with a default value where there are no types. -/
theorem listsParameters_parse (src : Source) (d : Dialect) :
    ListsParameters src d (src.parse d) where
  functions c hc hfunction hfree := by
    obtain ⟨ps, hps⟩ := takes_parse src d (Cursor.tree_mem_preorder hc) hfree hfunction
    exact ⟨ps, Cursor.listsAs_of_takes hps, fun qs hqs => hqs.unique hps⟩
  same c _ ps h src' d' c' ps' h' hsame := by
    rw [h.parameters, h'.parameters, Parameter.map_listed_eq_iff hsame]

/-- The parameters in `undefinedParameter`. -/
def undefinedList : Tree :=
  .node (.named .formalParameters) (some .parameters) ⟨10, 21⟩
    [Tree.ofToken "(" 10 11, Tree.leaf .undefinedName 11 20, Tree.ofToken ")" 20 21]

/-- The function in `undefinedParameter`. -/
def undefinedFunction : Tree :=
  .node (.named .functionDeclaration) none ⟨0, 24⟩
    [Tree.ofToken "function" 0 8, (Tree.leaf .identifier 9 10).withField .name, undefinedList,
      .node (.named .statementBlock) (some .body) ⟨22, 24⟩
        [Tree.ofToken "\x7b" 22 23, Tree.ofToken "\x7d" 23 24]]

/-- The tree of `undefinedParameterText`. -/
def undefinedParameter : Tree := .node (.named .program) none ⟨0, 24⟩ [undefinedFunction]

def undefinedParameterText : Source := .ofString "function f(undefined) \x7b\x7d"

/-- The parameter binds the name, and is listed as unknown. -/
theorem parameters_undefinedParameter :
    (Extraction.ofTree undefinedParameterText undefinedParameter).functions.map (·.parameters)
        = [["unknown"]]
      ∧ ∃ p, Tree.Takes .javascript undefinedFunction.children [p]
        ∧ p.entry undefinedParameterText = "undefined" := by
  have hlist : undefinedList.children
      = Tree.ofToken "(" 10 11 :: ([Tree.leaf .undefinedName 11 20] ++ [Tree.ofToken ")" 20 21]) :=
    rfl
  refine ⟨?_, ⟨false, false, Tree.leaf .undefinedName 11 20⟩, ?_, rfl⟩
  · rw [Extraction.ofTree_eq_below]
    rfl
  · exact ⟨undefinedList, rfl, .listed rfl (.mk rfl hlist rfl rfl (.last (.bare rfl (.plain rfl))))⟩

end CodeSurvey
