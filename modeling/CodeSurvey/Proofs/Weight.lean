import CodeSurvey.Proofs.Complexity
import CodeSurvey.Proofs.Matching
import CodeSurvey.Proofs.TokenEnd
import CodeSurvey.Proofs.TreeShape
import Mathlib.Algebra.BigOperators.Group.List.Basic

/-!
# How much a text can hold

The functions and the decisions of a text are no more than its characters
(`functions_add_decisions_le`): each of them has a token of its own, if only the arrow
or the question mark.

This is a matter of the grammar, and so it is found by a check on the forms:
`Form.spare?` says how many characters more a form takes than it contributes functions
and decisions. That no rule takes too few is evaluated (`spare?_form`), and that the
check is right is one induction over what forms match (`takesMore_of_matches`). What is
left of a text behind an offset (`Source.room`) goes down by what is taken, and never comes back.
-/

namespace CodeSurvey

/-! ## The weight of a tree -/

/-- The labels of functions and of what can be a decision. -/
def Label.weighs : Label → Bool
  | .named .functionDeclaration | .named .generatorFunctionDeclaration
  | .named .functionExpression | .named .generatorFunction | .named .arrowFunction
  | .named .ifStatement | .named .forStatement | .named .forInStatement
  | .named .whileStatement | .named .doStatement | .named .catchClause
  | .named .ternaryExpression | .named .switchCase | .named .binaryExpression => true
  | _ => false

namespace Tree

/-- The functions and possible decisions of a tree. -/
def weight (t : Tree) : Nat := t.preorder.countP (·.label.weighs)

def weightOfAll (ts : List Tree) : Nat := (ts.map weight).sum

theorem weight_eq (t : Tree) :
    t.weight = (if t.label.weighs then 1 else 0) + weightOfAll t.children :=
  countP_preorder (·.label.weighs) t

theorem weight_node (l : Label) (f : Option Field) (s : Span) (cs : List Tree) :
    (node l f s cs).weight = (if l.weighs then 1 else 0) + weightOfAll cs :=
  weight_eq (node l f s cs)

theorem weightOfAll_cons (t : Tree) (ts : List Tree) :
    weightOfAll (t :: ts) = t.weight + weightOfAll ts := by
  rw [weightOfAll, List.map_cons, List.sum_cons, weightOfAll]

theorem weightOfAll_append (ts us : List Tree) :
    weightOfAll (ts ++ us) = weightOfAll ts + weightOfAll us := by
  rw [weightOfAll, List.map_append, List.sum_append, weightOfAll, weightOfAll]

theorem weightOfAll_flatten (parts : List (List Tree)) :
    weightOfAll parts.flatten = (parts.map weightOfAll).sum := by
  rw [weightOfAll, List.map_flatten, List.sum_flatten, List.map_map]
  rfl

theorem weight_withField (f : Field) (t : Tree) : (t.withField f).weight = t.weight := by
  obtain ⟨l, g, s, cs⟩ := t
  rw [weight_eq, weight_eq]
  rfl

theorem weightOfAll_map_withField (f : Field) (ts : List Tree) :
    weightOfAll (ts.map fun t => if t.field.isNone then t.withField f else t) = weightOfAll ts := by
  rw [weightOfAll, List.map_map, weightOfAll]
  refine congrArg List.sum (List.map_congr_left fun t _ => ?_)
  show (if t.field.isNone then t.withField f else t).weight = t.weight
  split
  · exact weight_withField f t
  · rfl

theorem weightOfAll_singleton (t : Tree) : weightOfAll [t] = t.weight :=
  (weightOfAll_cons t []).trans (Nat.add_zero _)

theorem weight_prependChild (first t : Tree) :
    (first.prependChild t).weight = first.weight + t.weight := by
  obtain ⟨l, g, s, cs⟩ := t
  obtain ⟨first', s', heq, hweight⟩ : ∃ first' s', first.prependChild (node l g s cs)
      = node l g s' (first' :: cs) ∧ first'.weight = first.weight := by
    refine ⟨_, _, rfl, ?_⟩
    split
    · split
      · exact weight_withField _ first
      · rfl
    · rfl
  rw [heq, weight_eq, weight_eq (node l g s cs), children, weightOfAll_cons, hweight]
  show (if l.weighs then 1 else 0) + _ = _ + ((if l.weighs then 1 else 0) + weightOfAll cs)
  omega

theorem weight_foldl_prependChild (head : Tree) (steps : List Tree) :
    (steps.foldl prependChild head).weight = head.weight + weightOfAll steps := by
  induction steps generalizing head with
  | nil => rfl
  | cons next steps ih =>
      rw [List.foldl_cons, ih, weight_prependChild, weightOfAll_cons, Nat.add_assoc]

theorem weighs_of_isFunctionKind {t : Tree} (h : t.isFunctionKind = true) (src : Source) :
    t.label.weighs = true ∧ t.isDecision src = false := by
  unfold isFunctionKind at h
  unfold isDecision
  split at h
  case h_6 => cases h
  all_goals
    rename_i hlabel
    rw [hlabel]
    exact ⟨rfl, rfl⟩

theorem weighs_of_isDecision {t : Tree} {src : Source} (h : t.isDecision src = true) :
    t.label.weighs = true := by
  unfold isDecision at h
  split at h
  case h_10 => cases h
  all_goals
    rename_i hlabel
    rw [hlabel]
    rfl

/-- Functions weigh, and decisions do. -/
theorem functions_add_decisions_le_weight (src : Source) (t : Tree) :
    t.preorder.countP (·.isFunctionKind) + t.decisions src ≤ t.weight := by
  have hsum : (([(·.isFunctionKind), (·.isDecision src)] : List (Tree → Bool)).map
      fun p => t.preorder.countP p).sum ≤ t.preorder.countP (·.label.weighs) := by
    refine sum_countP_le fun u _ => ?_
    by_cases hf : u.isFunctionKind = true
    · obtain ⟨hw, hd⟩ := weighs_of_isFunctionKind hf src
      simp [hf, hw, hd]
    · by_cases hd : u.isDecision src = true
      · simp [hf, hd, weighs_of_isDecision hd]
      · simp [hf, hd]
  simpa [weight, decisions] using hsum

/-! ### Comments weigh nothing -/

theorem weight_commentsBetween (src : Source) (i stop : Nat) :
    weightOfAll (src.commentsBetween i stop) = 0 := by
  refine List.sum_eq_zero fun w hw => ?_
  obtain ⟨t, ht, rfl⟩ := List.mem_map.mp hw
  obtain ⟨start, stop, rfl | rfl⟩ := isCommentLeaf_of_mem_commentsBetween ht
  · rfl
  · rfl

mutual

theorem weight_placeComments (src : Source) : (t : Tree) → (t.placeComments src).weight = t.weight
  | .node l f s [] => rfl
  | .node l f s (c :: cs) => by
    have h := weight_placeCommentsAmong src s.start s.stop (c :: cs)
    rw [placeComments, weight_eq, weight_eq (node l f s (c :: cs)), children, children, h]
    rfl

theorem weight_placeCommentsAmong (src : Source) (i stop : Nat) : (ts : List Tree) →
    weightOfAll (placeCommentsAmong src i stop ts) = weightOfAll ts
  | [] => weight_commentsBetween src i stop
  | t :: ts => by
    rw [placeCommentsAmong, weightOfAll_append, weightOfAll_cons, weightOfAll_cons,
      weight_commentsBetween, weight_placeComments src t, weight_placeCommentsAmong src _ stop ts,
      Nat.zero_add]

end

end Tree

/-! ### Operations -/

namespace PendingOperation

/-- What closing a pending operation adds to its right side. -/
def load (p : PendingOperation) : Nat := p.left.weight + p.operator.weight + 1

def loadOfAll (pending : List PendingOperation) : Nat := (pending.map load).sum

theorem loadOfAll_cons (p : PendingOperation) (ps : List PendingOperation) :
    loadOfAll (p :: ps) = p.load + loadOfAll ps := by
  rw [loadOfAll, List.map_cons, List.sum_cons, loadOfAll]

/-- What operators with their right sides add. -/
def loadOfPairs (pairs : List (Tree × Tree)) : Nat :=
  (pairs.map fun pair => pair.1.weight + pair.2.weight + 1).sum

theorem loadOfPairs_cons (pair : Tree × Tree) (pairs : List (Tree × Tree)) :
    loadOfPairs (pair :: pairs) = pair.1.weight + pair.2.weight + 1 + loadOfPairs pairs := by
  rw [loadOfPairs, List.map_cons, List.sum_cons, loadOfPairs]

theorem weight_close_le (p : PendingOperation) (right : Tree) :
    (p.close right).weight ≤ p.load + right.weight := by
  have hnode : ∀ (l : Label) (s : Span) (a b c : Tree),
      (Tree.node l none s [a, b, c]).weight ≤ a.weight + b.weight + c.weight + 1 := by
    intro l s a b c
    rw [Tree.weight_eq]
    simp only [Tree.children, Tree.weightOfAll, List.map_cons, List.map_nil, List.sum_cons,
      List.sum_nil]
    split <;> omega
  unfold close load
  dsimp only
  split
  · have h := hnode (.named .asExpression) ⟨p.left.span.start, right.span.stop⟩ p.left
      p.operator right
    omega
  · have h := hnode (.named .satisfiesExpression) ⟨p.left.span.start, right.span.stop⟩ p.left
      p.operator right
    omega
  · have h := hnode (.named .binaryExpression) ⟨p.left.span.start, right.span.stop⟩
      (p.left.withField .left) (p.operator.withField .operator) (right.withField .right)
    rw [Tree.weight_withField, Tree.weight_withField, Tree.weight_withField] at h
    omega

theorem weight_foldl_close_le (pending : List PendingOperation) (t : Tree) :
    (pending.foldl (fun t p => p.close t) t).weight ≤ loadOfAll pending + t.weight := by
  induction pending generalizing t with
  | nil => exact Nat.le_add_left _ _
  | cons p ps ih =>
      have hrest := ih (p.close t)
      have hclose := weight_close_le p t
      rw [List.foldl_cons, loadOfAll_cons]
      omega

theorem closeTighter_le (binding : Nat × Bool) (pending : List PendingOperation) (t : Tree) :
    loadOfAll (closeTighter binding pending t).1 + (closeTighter binding pending t).2.weight
      ≤ loadOfAll pending + t.weight := by
  induction pending generalizing t with
  | nil => exact Nat.le_refl _
  | cons p ps ih =>
      rw [closeTighter]
      split
      · have hrest := ih (p.close t)
        have hclose := weight_close_le p t
        rw [loadOfAll_cons]
        omega
      · exact Nat.le_refl _

theorem weight_group_le (pending : List PendingOperation) (t : Tree) (pairs : List (Tree × Tree)) :
    (group pending t pairs).weight ≤ loadOfAll pending + t.weight + loadOfPairs pairs := by
  induction pairs generalizing pending t with
  | nil => exact weight_foldl_close_le pending t
  | cons pair rest ih =>
      obtain ⟨text, heq⟩ : ∃ text, group pending t (pair :: rest)
          = group (⟨(closeTighter (bindingOf text) pending t).2, pair.1, text⟩
            :: (closeTighter (bindingOf text) pending t).1) pair.2 rest := ⟨_, rfl⟩
      have hrest := ih (⟨(closeTighter (bindingOf text) pending t).2, pair.1, text⟩
        :: (closeTighter (bindingOf text) pending t).1) pair.2
      have htighter := closeTighter_le (bindingOf text) pending t
      rw [loadOfAll_cons, load] at hrest
      dsimp only at hrest
      rw [heq, loadOfPairs_cons]
      omega

end PendingOperation

/-! ## What a form takes -/

/-- The characters from an offset on. -/
def Source.room (src : Source) (i : Nat) : Nat := src.size - i

theorem Source.room_le (src : Source) {i j : Nat} (h : i ≤ j) : src.room j ≤ src.room i :=
  Nat.sub_le_sub_left h src.size

theorem Source.room_lt {src : Source} {i j : Nat} (hi : i < src.size) (h : i < j) :
    1 + src.room j ≤ src.room i := by
  unfold room
  omega

namespace Form

/-- How many characters a form takes beyond the weight of what it contributes, at least,
if it takes no fewer. -/
def spare? : Form → Option Nat
  | mark text | gluedMark text => some (if text = "" then 0 else 1)
  | operator _ | keyword _ | conditionalMark => some 1
  | namedWord kind _ | literal kind _ | gluedLiteral kind _ =>
    if (Label.named kind).weighs then none else some 0
  | semicolon _ | endOfText | empty | rule _ | ahead _ | butNot _ => some 0
  | seq a b => a.spare?.bind fun k => b.spare?.map (k + ·)
  | alt a b => a.spare?.bind fun k => b.spare?.map (min k ·)
  | many a => a.spare?.map fun _ => 0
  | field _ a | ofKind _ a | inMode _ a | when _ a => a.spare?
  | node kind a =>
    a.spare?.bind fun k =>
      if (Label.named kind).weighs then if 0 < k then some (k - 1) else none else some k
  | chain first step => first.spare?.bind fun k => step.spare?.map fun _ => k
  | operation operand tail =>
    operand.spare?.bind fun k => tail.spare?.bind fun l => if 0 < l then some k else none

/-- Every rule takes as many characters as it contributes functions and decisions. -/
theorem spare?_form (r : Rule) : (Rule.form r).spare?.isSome = true := by
  cases r <;> decide +kernel

end Form

/-! ## Matches take what they contribute -/

/-- A match that begins at `i` takes `k` characters more than its trees weigh. -/
def Match.TakesMore (src : Source) (i k : Nat) (x : Match) : Prop :=
  Tree.weightOfAll x.trees + k + src.room x.stop ≤ src.room i

/-- A series takes what its parts take. -/
theorem Series.add_room_le {α : Type} {P : Nat → α → Nat → Prop} {src : Source} {w : α → Nat}
    {i k : Nat} {parts : List α} (h : Series P i parts k)
    (hP : ∀ i part j, P i part j → w part + src.room j ≤ src.room i) :
    (parts.map w).sum + src.room k ≤ src.room i := by
  induction h with
  | nil i =>
      rw [List.map_nil, List.sum_nil, Nat.zero_add]
  | cons hpart _ ih =>
      have htakes := hP _ _ _ hpart
      rw [List.map_cons, List.sum_cons]
      omega

namespace Source

variable {s : Source} {i j : Nat}

theorem lt_size_of_startsWith {text : String} (hne : text ≠ "")
    (h : s.startsWith text.toList i = true) : i < s.size ∧ i < i + text.length := by
  cases htext : text.toList with
  | nil => exact absurd (String.toList_eq_nil_iff.mp htext) hne
  | cons c cs =>
      rw [htext, startsWith, Bool.and_eq_true, Bool.and_eq_true, decide_eq_true_eq] at h
      have hlength : text.length = cs.length + 1 := by
        rw [← String.length_toList, htext, List.length_cons]
      exact ⟨h.1.1, by omega⟩

theorem room_of_startsWith {text : String} (h : s.startsWith text.toList i = true) :
    (if text = "" then 0 else 1) + s.room (i + text.length) ≤ s.room i := by
  split
  · rw [Nat.zero_add]
    exact s.room_le (Nat.le_add_right _ _)
  · rename_i hne
    obtain ⟨hi, hlt⟩ := lt_size_of_startsWith hne h
    exact room_lt hi hlt

theorem lt_size_of_wordEnd (h : s.wordEnd? i = some j) : i < s.size := by
  unfold wordEnd? at h
  split at h
  · assumption
  · cases h

theorem lt_of_operatorAt {text : String} (h : s.operatorAt? i = some text) :
    i < s.size ∧ i < i + text.length := by
  have hne : ∀ op ∈ operators, 0 < op.length := by decide +kernel
  obtain ⟨hchar, hmem, -⟩ := of_operatorAt h
  have hpos := hne text hmem
  exact ⟨lt_size_of_kind (by decide) hchar, by omega⟩

end Source

namespace Form

variable {src : Source} {i k : Nat} {x : Match}

theorem takesMore_of_le {k' : Nat} (h : x.TakesMore src i k) (hle : k' ≤ k) :
    x.TakesMore src i k' := by
  unfold Match.TakesMore at h ⊢
  omega

theorem takesMore_of_weightless (hx : Tree.weightOfAll x.trees = 0)
    (h : k + src.room x.stop ≤ src.room i) : x.TakesMore src i k := by
  unfold Match.TakesMore
  omega

theorem takesMore_empty {stop : Nat} (h : i ≤ stop) : (⟨[], stop⟩ : Match).TakesMore src i 0 :=
  takesMore_of_weightless rfl (Nat.le_trans (Nat.le_of_eq (Nat.zero_add _)) (src.room_le h))

theorem takesMore_leaf {kind : NodeKind} {start stop : Nat}
    (hkind : ¬(Label.named kind).weighs = true) (h : src.room stop ≤ src.room i) :
    (⟨[.leaf kind start stop], stop⟩ : Match).TakesMore src i 0 := by
  refine takesMore_of_weightless ?_ (Nat.le_trans (Nat.le_of_eq (Nat.zero_add _)) h)
  rw [Tree.weightOfAll_singleton, Tree.weight_eq]
  show (if (Label.named kind).weighs then 1 else 0) + 0 = 0
  simp [hkind]

/-- A token takes a character, or it stands for nothing that weighs. -/
theorem takesMore_token {rules : RuleMatches} {a : Form} {m : Mode} (htoken : a.isToken = true)
    (hk : a.spare? = some k) (h : a.Matches rules src m i x) : x.TakesMore src i k := by
  have hskip : ∀ markup i, src.room (src.skipTrivia markup i) ≤ src.room i :=
    fun markup i => src.room_le (src.le_skipTrivia markup i)
  cases a with
  | mark text =>
      obtain rfl := Option.some.inj hk
      obtain ⟨hstart, rfl⟩ := h
      have hroom := Source.room_of_startsWith hstart
      have hle := hskip (skipsMarkup text) i
      exact takesMore_of_weightless rfl (Nat.le_trans hroom hle)
  | gluedMark text =>
      obtain rfl := Option.some.inj hk
      obtain ⟨hstart, rfl⟩ := h
      exact takesMore_of_weightless rfl (Source.room_of_startsWith hstart)
  | operator among =>
      obtain rfl := Option.some.inj hk
      obtain ⟨text, -, htext, rfl⟩ := h
      obtain ⟨hi, hlt⟩ := Source.lt_of_operatorAt htext
      exact takesMore_of_weightless rfl (Nat.le_trans (Source.room_lt hi hlt) (hskip false i))
  | keyword among =>
      obtain rfl := Option.some.inj hk
      obtain ⟨stop, hend, -, rfl⟩ := h
      have hroom := Source.room_lt (Source.lt_size_of_wordEnd hend) (Source.lt_wordEnd hend)
      exact takesMore_of_weightless rfl (Nat.le_trans hroom (hskip true i))
  | namedWord kind word =>
      rw [spare?] at hk
      split at hk
      · cases hk
      · rename_i hweighs
        obtain rfl := Option.some.inj hk
        obtain ⟨-, rfl⟩ := h
        have hroom := src.room_le (Nat.le_add_right (src.skipTrivia true i) word.length)
        exact takesMore_leaf hweighs (Nat.le_trans hroom (hskip true i))
  | literal kind shape =>
      rw [spare?] at hk
      split at hk
      · cases hk
      · rename_i hweighs
        obtain rfl := Option.some.inj hk
        obtain ⟨stop, hend, rfl⟩ := h
        have hroom := src.room_le (Shape.le_end hend)
        exact takesMore_leaf hweighs (Nat.le_trans hroom (hskip true i))
  | gluedLiteral kind shape =>
      rw [spare?] at hk
      split at hk
      · cases hk
      · rename_i hweighs
        obtain rfl := Option.some.inj hk
        obtain ⟨stop, hend, rfl⟩ := h
        exact takesMore_leaf hweighs (src.room_le (Shape.le_end hend))
  | semicolon afterOperand =>
      obtain rfl := Option.some.inj hk
      obtain ⟨stop, hend, rfl⟩ := h
      exact takesMore_empty (Source.le_virtualSemicolon hend)
  | conditionalMark =>
      obtain rfl := Option.some.inj hk
      obtain ⟨hmark, rfl⟩ := h
      have hroom := Source.room_lt (Source.lt_size_of_isConditionalMark hmark)
        (Nat.lt_add_one (src.skipTrivia false i))
      exact takesMore_of_weightless rfl (Nat.le_trans hroom (hskip false i))
  | endOfText =>
      obtain rfl := Option.some.inj hk
      obtain ⟨-, rfl⟩ := h
      exact takesMore_empty (Nat.le_refl i)
  | empty =>
      obtain rfl := Option.some.inj hk
      obtain rfl := h
      exact takesMore_empty (Nat.le_refl i)
  | _ => cases htoken

/-! ### Matches put together -/

theorem takesMore_append {y z : Match} {l : Nat} (hy : y.TakesMore src i k)
    (hz : z.TakesMore src y.stop l) :
    (⟨y.trees ++ z.trees, z.stop⟩ : Match).TakesMore src i (k + l) := by
  unfold Match.TakesMore at hy hz ⊢
  rw [Tree.weightOfAll_append]
  dsimp only
  omega

theorem takesMore_flatten {parts : List (List Tree)} {stop : Nat}
    (h : Series (fun i ts j => (⟨ts, j⟩ : Match).TakesMore src i k) i parts stop) :
    (⟨parts.flatten, stop⟩ : Match).TakesMore src i 0 := by
  have htakes : (parts.map Tree.weightOfAll).sum + src.room stop ≤ src.room i :=
    h.add_room_le fun i ts j hts => by
      unfold Match.TakesMore at hts
      dsimp only at hts
      omega
  unfold Match.TakesMore
  rw [Tree.weightOfAll_flatten]
  exact htakes

theorem takesMore_map_withField (f : Field) (h : x.TakesMore src i k) :
    (⟨x.trees.map fun t => if t.field.isNone then t.withField f else t, x.stop⟩ : Match).TakesMore
      src i k := by
  unfold Match.TakesMore at h ⊢
  rw [Tree.weightOfAll_map_withField]
  exact h

theorem takesMore_node {kind : NodeKind} {s : Span} {l : Nat} (h : x.TakesMore src i l)
    (hk : (if (Label.named kind).weighs then 1 else 0) + k = l) :
    (⟨[.node (.named kind) none s x.trees], x.stop⟩ : Match).TakesMore src i k := by
  unfold Match.TakesMore at h ⊢
  rw [Tree.weightOfAll_singleton, Tree.weight_node]
  dsimp only
  omega

theorem takesMore_foldl_prependChild {head : Tree} {steps : List Tree} {j l stop : Nat}
    (hhead : (⟨[head], j⟩ : Match).TakesMore src i k)
    (hsteps : Series (fun i next j => (⟨[next], j⟩ : Match).TakesMore src i l) j steps stop) :
    (⟨[steps.foldl Tree.prependChild head], stop⟩ : Match).TakesMore src i k := by
  have htakes : (steps.map Tree.weight).sum + src.room stop ≤ src.room j :=
    hsteps.add_room_le fun i next j hnext => by
      unfold Match.TakesMore at hnext
      rw [Tree.weightOfAll_singleton] at hnext
      dsimp only at hnext
      omega
  unfold Match.TakesMore at hhead ⊢
  rw [Tree.weightOfAll_singleton] at hhead
  rw [Tree.weightOfAll_singleton, Tree.weight_foldl_prependChild, Tree.weightOfAll]
  dsimp only at hhead ⊢
  omega

/-- Every operator takes a character, which is what the operation around it weighs. -/
theorem takesMore_group {head : Tree} {pairs : List (Tree × Tree)} {j l stop : Nat} (hl : 0 < l)
    (hhead : (⟨[head], j⟩ : Match).TakesMore src i k)
    (hpairs : Series (fun i pair j => (⟨[pair.1, pair.2], j⟩ : Match).TakesMore src i l)
      j pairs stop) :
    (⟨[PendingOperation.group [] head pairs], stop⟩ : Match).TakesMore src i k := by
  have htakes : PendingOperation.loadOfPairs pairs + src.room stop ≤ src.room j :=
    hpairs.add_room_le fun i pair j hpair => by
      unfold Match.TakesMore at hpair
      rw [Tree.weightOfAll_cons, Tree.weightOfAll_singleton] at hpair
      dsimp only at hpair
      omega
  have hgroup := PendingOperation.weight_group_le [] head pairs
  have hzero : PendingOperation.loadOfAll [] = 0 := rfl
  unfold Match.TakesMore at hhead ⊢
  rw [Tree.weightOfAll_singleton] at hhead ⊢
  dsimp only at hhead ⊢
  omega

/-- A form takes what the check says, if the rules take enough. -/
theorem takesMore_of_matches {a : Form} (hk : a.spare? = some k) {m : Mode}
    (h : a.Matches (fun _ _ i x => x.TakesMore src i 0) src m i x) : x.TakesMore src i k := by
  induction a generalizing m i k x with
  | rule r =>
      obtain rfl := Option.some.inj hk
      exact h
  | ahead a | butNot a =>
      obtain rfl := Option.some.inj hk
      obtain rfl := h
      exact takesMore_empty (Nat.le_refl i)
  | seq a b iha ihb =>
      obtain ⟨l, hl, hrest⟩ := Option.bind_eq_some_iff.mp hk
      obtain ⟨l', hl', rfl⟩ := Option.map_eq_some_iff.mp hrest
      obtain ⟨y, z, hy, hz, rfl⟩ := h
      exact takesMore_append (iha hl hy) (ihb hl' hz)
  | alt a b iha ihb =>
      obtain ⟨l, hl, hrest⟩ := Option.bind_eq_some_iff.mp hk
      obtain ⟨l', hl', rfl⟩ := Option.map_eq_some_iff.mp hrest
      rcases h with h | h
      · exact takesMore_of_le (iha hl h) (Nat.min_le_left l l')
      · exact takesMore_of_le (ihb hl' h) (Nat.min_le_right l l')
  | many a ih =>
      obtain ⟨l, hl, rfl⟩ := Option.map_eq_some_iff.mp hk
      obtain ⟨parts, stop, hparts, rfl⟩ := h
      exact takesMore_flatten (hparts.imp fun _ _ _ => ih hl)
  | field f a ih =>
      obtain ⟨y, hy, rfl⟩ := h
      exact takesMore_map_withField f (ih hk hy)
  | node kind a ih =>
      obtain ⟨l, hl, hrest⟩ := Option.bind_eq_some_iff.mp hk
      obtain ⟨y, hy, rfl⟩ := h
      refine takesMore_node (ih hl hy) ?_
      split at hrest
      · rename_i hweighs
        split at hrest
        · obtain rfl := Option.some.inj hrest
          rw [if_pos hweighs]
          omega
        · cases hrest
      · rename_i hweighs
        obtain rfl := Option.some.inj hrest
        rw [if_neg hweighs, Nat.zero_add]
  | chain first step ihf ihs =>
      obtain ⟨l, hl, hrest⟩ := Option.bind_eq_some_iff.mp hk
      obtain ⟨l', hl', rfl⟩ := Option.map_eq_some_iff.mp hrest
      rcases h with h | ⟨head, steps, j, stop, hhead, hsteps, rfl⟩
      · exact ihf hl h
      · exact takesMore_foldl_prependChild (ihf hl hhead) (hsteps.imp fun _ _ _ => ihs hl')
  | operation operand tail iho iht =>
      obtain ⟨l, hl, hrest⟩ := Option.bind_eq_some_iff.mp hk
      obtain ⟨l', hl', hif⟩ := Option.bind_eq_some_iff.mp hrest
      split at hif
      · rename_i hpos
        obtain rfl := Option.some.inj hif
        rcases h with h | ⟨head, pairs, j, stop, hhead, hpairs, rfl⟩
        · exact iho hl h
        · exact takesMore_group hpos (iho hl hhead) (hpairs.imp fun _ _ _ => iht hl')
      · cases hif
  | ofKind kinds a ih => exact ih hk h.1
  | inMode change a ih => exact ih hk h
  | when holds a ih => exact ih hk h.2
  | _ => exact takesMore_token rfl hk h

end Form

/-! ## The tree of a text -/

theorem takesMore_readProgram {src : Source} {d : Dialect} {x : Match} {n : Notes}
    (h : src.readProgram d = (some x, n)) : x.TakesMore src 0 0 := by
  have hclosed : ∀ r m i x, m.dialect = d →
      (Rule.form r).Matches (fun _ _ i x => x.TakesMore src i 0) src m i x → x.TakesMore src i 0 := by
    intro r m i x _ hx
    obtain ⟨k, hk⟩ := Option.isSome_iff_exists.mp (Form.spare?_form r)
    exact Form.takesMore_of_le (Form.takesMore_of_matches hk hx) (Nat.zero_le k)
  exact matches_readProgram hclosed h

/-- The tree of a text weighs no more than the text has characters. -/
theorem weight_parse_le (src : Source) (d : Dialect) : (src.parse d).weight ≤ src.size := by
  rw [Source.parse]
  split
  · rename_i t stop notes hread
    have htakes := takesMore_readProgram hread
    unfold Match.TakesMore at htakes
    rw [Tree.weightOfAll_singleton, Tree.weight_eq] at htakes
    rw [Tree.weight_node, Tree.weight_placeCommentsAmong]
    exact Nat.le_trans (by omega) htakes
  · exact Nat.zero_le _

/-- The functions and the decisions of a text are no more than its characters. -/
theorem functions_add_decisions_le (src : Source) (d : Dialect) :
    (src.parse d).preorder.countP (·.isFunctionKind) + (src.parse d).decisions src ≤ src.size :=
  Nat.le_trans (Tree.functions_add_decisions_le_weight src _) (weight_parse_le src d)

end CodeSurvey
