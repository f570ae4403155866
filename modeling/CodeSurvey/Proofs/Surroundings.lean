import CodeSurvey.Proofs.AmbientExports
import CodeSurvey.Proofs.MovedTree

/-!
# Records and the way up

A record takes from the way up to its node whether the parent is an export statement, which
variable the node is the value of, and the comment in front. For the comment a value looks
two steps further up, and over an export statement (`docComment?_cons`), so it is not enough
that the parent stays the same.

`SameWay` says of two ways up that all nodes below find the same on them. It is kept on the
way down, so a tree that is moved has the same records below both (`below_moved`). It begins
where no more is found than one comment: at the top of a file, whose nodes look no further
than to each other (`exists_around`), and in a declaration, which is documented as a whole.
-/

namespace CodeSurvey

/-! ## Documentation on the way up -/

/-- What a node documents if it is in front of a declaration. -/
def Tree.documentation? (src : Source) (t : Tree) : Option String :=
  if t.isKind .comment then docText? (t.text src) else none

/-- The entered node is a declarator, and `t` its value. -/
def Frame.takesValue (f : Frame) (t : Tree) : Bool :=
  f.isKind .variableDeclarator
    && (t.field == some .value && f.before.all fun u => u.field != some .value)

theorem Frame.takesValue_of_ne {f : Frame} (h : f.label ≠ .named .variableDeclarator) (t : Tree) :
    f.takesValue t = false := by
  rw [takesValue, isKind, beq_false_of_ne h, Bool.false_and]

namespace Cursor

/-- The documentation directly in front of a node below `above`. -/
def docBefore (src : Source) : List Frame → Option String
  | [] => none
  | f :: _ => f.before.head?.bind (·.documentation? src)

/-- The documentation of a declaration below `above`: that in front of it, or of the export
statement around it. -/
def declarationDoc (src : Source) : List Frame → Option String
  | [] => none
  | f :: above =>
    if f.isKind .exportStatement then docBefore src above else docBefore src (f :: above)

theorem declarationDoc_of_ne {f : Frame} (h : f.label ≠ .named .exportStatement) (src : Source)
    (above : List Frame) : declarationDoc src (f :: above) = docBefore src (f :: above) := by
  rw [declarationDoc, Frame.isKind, beq_false_of_ne h]
  rfl

theorem declarationDoc_export {f : Frame} (h : f.label = .named .exportStatement) (src : Source)
    (above : List Frame) : declarationDoc src (f :: above) = docBefore src above := by
  rw [declarationDoc, Frame.isKind, h]
  rfl

/-- The parent is a declaration of variables. -/
def inVariables : List Frame → Bool
  | [] => false
  | f :: _ => f.label.isVariables

variable {src : Source} {t : Tree} {f : Frame} {above : List Frame}

theorem preorderFrom_eq (above : List Frame) (t : Tree) : preorderFrom above t
    = ⟨t, above⟩ :: preorderAmong t.label t.field t.span above [] t.children := by
  obtain ⟨l, f, s, cs⟩ := t
  rfl

theorem docComment?_eq (src : Source) (c : Cursor) :
    c.docComment? src = declarationDoc src (c.enclosingDeclaration?.getD c).above := by
  have hbefore : c.docComment? src = docBefore src c.docAnchor.above := by
    rw [docComment?]
    obtain ⟨u, _ | ⟨g, rest⟩⟩ := c.docAnchor
    · rfl
    · dsimp only [previousSibling?, docBefore]
      cases g.before.head? <;> rfl
  rw [hbefore, docAnchor]
  obtain ⟨u, _ | ⟨g, rest⟩⟩ := c.enclosingDeclaration?.getD c
  · rfl
  · cases hexport : g.isKind .exportStatement <;>
      simp [declarationDoc, isExported, parentIsKind, parent?, hexport]

theorem enclosingDeclarator?_cons (t : Tree) (f : Frame) (above : List Frame) :
    (⟨t, f :: above⟩ : Cursor).enclosingDeclarator?
      = if f.takesValue t then some ⟨f.plug t, above⟩ else none := rfl

theorem target?_cons (t : Tree) (f : Frame) (above : List Frame) :
    (⟨t, f :: above⟩ : Cursor).target?
      = if f.takesValue t then (f.plug t).child? .name else none := by
  rw [target?, enclosingDeclarator?_cons]
  cases f.takesValue t <;> rfl

theorem enclosingDeclaration?_cons (t : Tree) (f g : Frame) (above : List Frame) :
    (⟨t, f :: g :: above⟩ : Cursor).enclosingDeclaration?
      = if f.takesValue t && g.label.isVariables then some ⟨g.plug (f.plug t), above⟩
        else none := by
  rw [enclosingDeclaration?, enclosingDeclarator?_cons]
  cases f.takesValue t with
  | false => rfl
  | true =>
      rw [Bool.true_and]
      rfl

/-- A value is documented by what documents the declaration of its variable. -/
theorem docComment?_cons (src : Source) (t : Tree) (f : Frame) (above : List Frame) :
    (⟨t, f :: above⟩ : Cursor).docComment? src
      = declarationDoc src (if f.takesValue t && inVariables above then above.tail
          else f :: above) := by
  rw [docComment?_eq]
  cases above with
  | nil =>
      rw [inVariables, Bool.and_false, enclosingDeclaration?, enclosingDeclarator?_cons]
      cases f.takesValue t <;> rfl
  | cons g above =>
      rw [inVariables, enclosingDeclaration?_cons]
      cases f.takesValue t && g.label.isVariables <;> rfl

section NotInDeclarator

variable (h : f.label ≠ .named .variableDeclarator)

include h

theorem enclosingDeclarator?_of_ne (t : Tree) (above : List Frame) :
    (⟨t, f :: above⟩ : Cursor).enclosingDeclarator? = none := by
  rw [enclosingDeclarator?_cons, Frame.takesValue_of_ne h]
  rfl

theorem docComment?_of_ne (src : Source) (t : Tree) (above : List Frame) :
    (⟨t, f :: above⟩ : Cursor).docComment? src = declarationDoc src (f :: above) := by
  rw [docComment?_cons, Frame.takesValue_of_ne h]
  rfl

end NotInDeclarator

end Cursor

/-! ## Ways up on which the same is found -/

/-- The nodes on both sides are moved, and the entered node itself may be another one. -/
structure Frame.MovesTo (src src' : Source) (k : Nat) (f f' : Frame) : Prop where
  label : f'.label = f.label
  before : f'.before = f.before.map (Tree.moved k)
  after : f'.after = f.after.map (Tree.moved k)
  readsBefore : ∀ t ∈ f.before, t.ReadsSame src src' k
  readsAfter : ∀ t ∈ f.after, t.ReadsSame src src' k

/-- The nodes below find the same on both ways up. -/
inductive SameWay (src src' : Source) (k : Nat) : List Frame → List Frame → Prop where
  /-- At the top of a file no more is found than the comment in front. -/
  | beside {f f' : Frame} (hlabel : f.label = .named .program)
    (hlabel' : f'.label = .named .program)
    (hdoc : Cursor.docBefore src' [f'] = Cursor.docBefore src [f]) : SameWay src src' k [f] [f']
  /-- In a declaration no more is found than what documents it. -/
  | declared {f f' : Frame} {above above' : List Frame} (hframe : f.MovesTo src src' k f')
    (hlabel : f.label.introducesNames = true)
    (hdoc : Cursor.declarationDoc src' above' = Cursor.declarationDoc src above) :
    SameWay src src' k (f :: above) (f' :: above')
  | step {f f' : Frame} {above above' : List Frame} (hframe : f.MovesTo src src' k f')
    (h : SameWay src src' k above above') : SameWay src src' k (f :: above) (f' :: above')

section Ways

variable {src src' : Source} {k : Nat} {f f' : Frame} {above above' : List Frame} {t : Tree}

theorem Tree.ReadsSame.documentation? (h : t.ReadsSame src src' k) :
    (t.moved k).documentation? src' = t.documentation? src := by
  rw [Tree.documentation?, Tree.documentation?, isKind_moved, h.text]

theorem Cursor.docBefore_moved (hbefore : f'.before = f.before.map (Tree.moved k))
    (hreads : ∀ t ∈ f.before, t.ReadsSame src src' k) :
    docBefore src' (f' :: above') = docBefore src (f :: above) := by
  rw [docBefore, docBefore, hbefore]
  cases hfront : f.before with
  | nil => rfl
  | cons t ts =>
      have ht : t.ReadsSame src src' k := hreads t (hfront ▸ List.mem_cons_self)
      exact ht.documentation?

namespace Frame.MovesTo

variable (h : f.MovesTo src src' k f')

include h

theorem isKind (kind : NodeKind) : f'.isKind kind = f.isKind kind := by
  rw [Frame.isKind, Frame.isKind, h.label]

theorem docBefore : Cursor.docBefore src' (f' :: above') = Cursor.docBefore src (f :: above) :=
  Cursor.docBefore_moved h.before h.readsBefore

theorem takesValue (t : Tree) : f'.takesValue (t.moved k) = f.takesValue t := by
  rw [Frame.takesValue, Frame.takesValue, h.isKind, Tree.field_moved, h.before, List.all_map]
  simp only [Function.comp_def, Tree.field_moved]

theorem child?_plug (t : Tree) (field : Field) :
    (f'.plug (t.moved k)).child? field = ((f.plug t).child? field).map (Tree.moved k) := by
  have hchildren : (f'.plug (t.moved k)).children = ((f.plug t).moved k).children := by
    rw [Tree.children_moved]
    show f'.before.reverse ++ t.moved k :: f'.after = (f.before.reverse ++ t :: f.after).map _
    rw [h.before, h.after, List.map_append, List.map_reverse, List.map_cons]
  rw [← Tree.child?_moved, Tree.child?, hchildren, ← Tree.child?]

theorem readsSame_plug (ht : t.ReadsSame src src' k) {u : Tree} {field : Field}
    (hu : (f.plug t).child? field = some u) : u.ReadsSame src src' k := by
  have hmem : u ∈ f.before.reverse ++ t :: f.after := List.mem_of_find?_eq_some hu
  rcases List.mem_append.mp hmem with hbefore | hrest
  · exact h.readsBefore u (List.mem_reverse.mp hbefore)
  · rcases List.mem_cons.mp hrest with rfl | hafter
    · exact ht
    · exact h.readsAfter u hafter

end Frame.MovesTo

namespace SameWay

theorem docBefore (h : SameWay src src' k above above') :
    Cursor.docBefore src' above' = Cursor.docBefore src above := by
  cases h with
  | beside _ _ hdoc => exact hdoc
  | declared hframe _ _ => exact hframe.docBefore
  | step hframe _ => exact hframe.docBefore

theorem declarationDoc (h : SameWay src src' k above above') :
    Cursor.declarationDoc src' above' = Cursor.declarationDoc src above := by
  cases h with
  | beside hlabel hlabel' hdoc =>
      rw [Cursor.declarationDoc_of_ne (by rw [hlabel']; decide),
        Cursor.declarationDoc_of_ne (by rw [hlabel]; decide), hdoc]
  | @declared f f' above above' hframe hlabel _ =>
      have hexport : f.label ≠ .named .exportStatement := Label.ne_of_introducesNames hlabel rfl
      rw [Cursor.declarationDoc_of_ne (by rwa [hframe.label]), Cursor.declarationDoc_of_ne hexport,
        hframe.docBefore]
  | step hframe h =>
      rw [Cursor.declarationDoc, Cursor.declarationDoc, hframe.isKind, hframe.docBefore,
        h.docBefore]

theorem inVariables (h : SameWay src src' k above above') :
    Cursor.inVariables above' = Cursor.inVariables above := by
  cases h with
  | beside hlabel hlabel' _ => rw [Cursor.inVariables, Cursor.inVariables, hlabel, hlabel']
  | declared hframe _ _ => rw [Cursor.inVariables, Cursor.inVariables, hframe.label]
  | step hframe _ => rw [Cursor.inVariables, Cursor.inVariables, hframe.label]

theorem isExported (h : SameWay src src' k above above') :
    (⟨t.moved k, above'⟩ : Cursor).isExported = (⟨t, above⟩ : Cursor).isExported := by
  cases h with
  | beside hlabel hlabel' _ =>
      show Frame.isKind _ _ = Frame.isKind _ _
      rw [Frame.isKind, Frame.isKind, hlabel, hlabel']
  | declared hframe _ _ => exact hframe.isKind _
  | step hframe _ => exact hframe.isKind _

/-- The declaration around a declarator is documented the same. -/
theorem declarationDoc_tail (h : SameWay src src' k above above')
    (hvariables : Cursor.inVariables above = true) :
    Cursor.declarationDoc src' above'.tail = Cursor.declarationDoc src above.tail := by
  cases h with
  | beside hlabel _ _ =>
      rw [Cursor.inVariables, hlabel] at hvariables
      cases hvariables
  | declared _ _ hdoc => exact hdoc
  | step _ h => exact h.declarationDoc

/-- Values are looked up in nothing but declarators, which are stepped over. -/
theorem of_takesValue (h : SameWay src src' k (f :: above) (f' :: above'))
    (hvalue : f.takesValue t = true) :
    f.MovesTo src src' k f' ∧ SameWay src src' k above above' := by
  have hkind : f.label = .named .variableDeclarator :=
    eq_of_beq (Bool.and_eq_true_iff.mp hvalue).1
  cases h with
  | beside hlabel _ _ =>
      rw [hlabel] at hkind
      cases hkind
  | declared _ hlabel _ => exact absurd hkind (Label.ne_of_introducesNames hlabel rfl)
  | step hframe h => exact ⟨hframe, h⟩

theorem takesValue (h : SameWay src src' k (f :: above) (f' :: above')) :
    f'.takesValue (t.moved k) = f.takesValue t := by
  cases h with
  | beside hlabel hlabel' _ =>
      rw [Frame.takesValue_of_ne (by rw [hlabel']; decide),
        Frame.takesValue_of_ne (by rw [hlabel]; decide)]
  | declared hframe _ _ => exact hframe.takesValue t
  | step hframe _ => exact hframe.takesValue t

/-- A node takes the same from its surroundings. -/
theorem sameSurroundings (h : SameWay src src' k above above') (ht : t.ReadsSame src src' k) :
    Cursor.SameSurroundings src src' k ⟨t, above⟩ ⟨t.moved k, above'⟩ := by
  obtain ⟨f, rest, rfl⟩ : ∃ f rest, above = f :: rest := by cases h <;> exact ⟨_, _, rfl⟩
  obtain ⟨f', rest', rfl⟩ : ∃ f' rest', above' = f' :: rest' := by cases h <;> exact ⟨_, _, rfl⟩
  have hvalue := h.takesValue (t := t)
  cases htakes : f.takesValue t with
  | false =>
      rw [htakes] at hvalue
      refine ⟨?_, fun p hp => ?_, ?_⟩
      · rw [Cursor.target?_cons, Cursor.target?_cons, htakes, hvalue]
        rfl
      · rw [Cursor.target?_cons, htakes] at hp
        cases hp
      · rw [Cursor.docComment?_cons, Cursor.docComment?_cons, htakes, hvalue]
        exact h.declarationDoc
  | true =>
      obtain ⟨hframe, hrest⟩ := h.of_takesValue htakes
      rw [htakes] at hvalue
      refine ⟨?_, fun p hp => ?_, ?_⟩
      · rw [Cursor.target?_cons, Cursor.target?_cons, htakes, hvalue]
        exact hframe.child?_plug t .name
      · rw [Cursor.target?_cons, htakes] at hp
        exact hframe.readsSame_plug ht hp
      · rw [Cursor.docComment?_cons, Cursor.docComment?_cons, htakes, hvalue, hrest.inVariables]
        cases hvariables : Cursor.inVariables rest with
        | false => exact h.declarationDoc
        | true => exact hrest.declarationDoc_tail hvariables

end SameWay

end Ways

/-! ## Records on such ways -/

namespace Extraction

theorem empty_append (x : Extraction) : empty ++ x = x := rfl

theorem append_empty (x : Extraction) : x ++ empty = x := by
  show Extraction.mk _ _ _ _ = x
  simp only [empty, List.append_nil]

theorem append_assoc (x y z : Extraction) : x ++ y ++ z = x ++ (y ++ z) := by
  show Extraction.mk _ _ _ _ = Extraction.mk _ _ _ _
  congr 1 <;> exact List.append_assoc _ _ _

/-- Records of exports that stand alone come in front. -/
theorem append_exports (exports : List ExportRecord) (x : Extraction) :
    { empty with exports := exports } ++ x = { x with exports := exports ++ x.exports } := rfl

variable {src src' : Source} {k : Nat}

theorem atNode_of_sameWay {t : Tree} {above above' : List Frame} (ht : t.ReadsSame src src' k)
    (h : SameWay src src' k above above') :
    atNode src' ⟨t.moved k, above'⟩ = atNode src ⟨t, above⟩ := by
  rw [atNode_moved ht (h.sameSurroundings ht) (.inr h.isExported), h.isExported,
    withExported_atNode]

mutual

/-- A tree that is moved has the same records where all nodes find the same. -/
theorem below_moved : (t : Tree) → t.ReadsSame src src' k → {above above' : List Frame} →
    SameWay src src' k above above' → below src' above' (t.moved k) = below src above t
  | .node l f s cs, ht, above, above', h => by
      have hnode := atNode_of_sameWay ht h
      rw [Tree.moved] at hnode ⊢
      rw [below, below, hnode]
      have hchildren : belowAmong src' l f (s.moved k) above' [] (Tree.movedAll k cs)
          = belowAmong src l f s above [] cs :=
        belowAmong_moved cs (Tree.readsSame_node.mp ht).2 (List.forall_mem_nil _)
          fun _ _ hframe => .step hframe h
      rw [hchildren]

/-- So do the children of an entered node, if below it all nodes find the same. -/
theorem belowAmong_moved {l : Label} {f f' : Option Field} {s s' : Span}
    {above above' : List Frame} {before : List Tree} : (ts : List Tree) →
    (∀ t ∈ ts, t.ReadsSame src src' k) → (∀ t ∈ before, t.ReadsSame src src' k) →
    (∀ before after, Frame.MovesTo src src' k ⟨l, f, s, before, after⟩
      ⟨l, f', s', before.map (Tree.moved k), after.map (Tree.moved k)⟩ →
      SameWay src src' k (⟨l, f, s, before, after⟩ :: above)
        (⟨l, f', s', before.map (Tree.moved k), after.map (Tree.moved k)⟩ :: above')) →
    belowAmong src' l f' s' above' (before.map (Tree.moved k)) (Tree.movedAll k ts)
      = belowAmong src l f s above before ts
  | [], _, _, _ => rfl
  | t :: ts, hts, hbefore, hway => by
      obtain ⟨ht, hrest⟩ := List.forall_mem_cons.mp hts
      have htree := below_moved t ht (hway before ts ⟨rfl, rfl, rfl, hbefore, hrest⟩)
      have hsiblings : belowAmong src' l f' s' above' ((t :: before).map (Tree.moved k))
          (Tree.movedAll k ts) = belowAmong src l f s above (t :: before) ts :=
        belowAmong_moved ts hrest (List.forall_mem_cons.mpr ⟨ht, hbefore⟩) hway
      rw [List.map_cons] at hsiblings
      rw [Tree.movedAll, belowAmong, belowAmong, hsiblings, Tree.movedAll_eq_map, htree]

end

/-- The field that a node holds matters only below a declarator. -/
theorem atNode_withField (src : Source) {f : Frame} (h : f.label ≠ .named .variableDeclarator)
    (g : Field) (t : Tree) (above : List Frame) :
    atNode src ⟨t.withField g, f :: above⟩ = atNode src ⟨t, f :: above⟩ := by
  have hdeclarator := fun u => Cursor.enclosingDeclarator?_of_ne h u above
  have hdoc := fun u => Cursor.docComment?_of_ne h src u above
  have hnames : ∀ u : Tree, (⟨u, f :: above⟩ : Cursor).requiredNames src = [] := fun u => by
    rw [Cursor.requiredNames, hdeclarator]
    rfl
  have hcomplexity : (t.withField g).complexity src = t.complexity src := by
    rw [Tree.complexity_eq, Tree.complexity_eq, Tree.decisions_withField]
  obtain ⟨l, f', s, cs⟩ := t
  simp only [atNode, Cursor.functionRecord?, Cursor.functionRecord, Cursor.functionName,
    Cursor.classRecordAt?, Cursor.classRecord?, Cursor.importRecordAt?, Cursor.callImportRecord?,
    hdeclarator, hdoc, hnames, hcomplexity]
  rfl

/-- Siblings at the top of a file have the same records if the first of them finds the same
in front. -/
theorem exists_siblings (f : Option Field) (s s' : Span) (us rest rest' before before' : List Tree)
    (hus : ∀ u ∈ us, u.ReadsSame src src' k)
    (hdoc : before'.head?.bind (·.documentation? src') = before.head?.bind (·.documentation? src)) :
    ∃ cursors, Cursor.preorderAmong (.named .program) f s [] before (us ++ rest)
        = cursors ++ Cursor.preorderAmong (.named .program) f s [] (us.reverse ++ before) rest
      ∧ belowAmong src' (.named .program) f s' [] before' (us.map (Tree.moved k) ++ rest')
        = ofNodes src cursors ++ belowAmong src' (.named .program) f s' []
          ((us.map (Tree.moved k)).reverse ++ before') rest' := by
  induction us generalizing before before' with
  | nil => exact ⟨[], rfl, rfl⟩
  | cons u us ih =>
      obtain ⟨hu, hus⟩ := List.forall_mem_cons.mp hus
      obtain ⟨cursors, hwalk, hrecords⟩ :=
        ih (u :: before) (u.moved k :: before') hus hu.documentation?
      have hway : SameWay src src' k [⟨.named .program, f, s, before, us ++ rest⟩]
          [⟨.named .program, f, s', before', us.map (Tree.moved k) ++ rest'⟩] :=
        .beside rfl rfl hdoc
      refine ⟨Cursor.preorderFrom [⟨.named .program, f, s, before, us ++ rest⟩] u ++ cursors,
        ?_, ?_⟩
      · rw [List.cons_append, Cursor.preorderAmong, hwalk, List.reverse_cons, List.append_assoc,
          List.append_assoc, List.singleton_append]
      · rw [List.map_cons, List.cons_append, belowAmong, hrecords, below_moved u hu hway, below_eq,
          ofNodes_append, append_assoc, List.reverse_cons, List.append_assoc, List.singleton_append]

/-- Where a node at the top of a file becomes another one, which is no documentation either or
the same, all records but those of the node stay the same. -/
theorem exists_around (f : Option Field) (s s' : Span) (before after : List Tree) (D E : Tree)
    (hbefore : ∀ t ∈ before, t.ReadsSame src src' 0) (hafter : ∀ t ∈ after, t.ReadsSame src src' k)
    (hdoc : E.documentation? src' = D.documentation? src) :
    ∃ front behind, (Cursor.ofTree (.node (.named .program) f s (before ++ D :: after))).walk
        = front
          ++ (Cursor.preorderFrom [⟨.named .program, f, s, before.reverse, after⟩] D ++ behind)
      ∧ ofTree src' (.node (.named .program) f s' (before ++ E :: after.map (Tree.moved k)))
        = ofNodes src front
          ++ (below src' [⟨.named .program, f, s', before.reverse, after.map (Tree.moved k)⟩] E
            ++ ofNodes src behind) := by
  obtain ⟨front, hwalk, hrecords⟩ := exists_siblings f s s' before (D :: after)
    (E :: after.map (Tree.moved k)) [] [] hbefore rfl
  obtain ⟨behind, hwalk', hrecords'⟩ := exists_siblings f s s' after [] []
    (D :: before.reverse) (E :: before.reverse) hafter hdoc
  rw [Tree.map_moved_zero, List.append_nil] at hrecords
  rw [List.append_nil] at hwalk
  rw [Cursor.preorderAmong, List.append_nil, List.append_nil] at hwalk'
  rw [belowAmong, append_empty, List.append_nil] at hrecords'
  refine ⟨⟨.node (.named .program) f s (before ++ D :: after), []⟩ :: front, behind, ?_, ?_⟩
  · rw [Cursor.walk_ofTree, Cursor.preorderFrom, hwalk, Cursor.preorderAmong, hwalk']
    rfl
  · rw [ofTree_eq_below, below, hrecords, belowAmong, hrecords', ofNodes_cons, append_assoc]
    rfl

end Extraction

end CodeSurvey
