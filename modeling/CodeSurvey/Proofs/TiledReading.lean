import CodeSurvey.Proofs.Matching
import CodeSurvey.Proofs.Tiling

/-!
# The tree of a text

The trees that a form matches cover what it takes of the text (`Form.Lays`), each form
because its parts do (`lays_of_matches`). So the tree of a text covers the text, and with
the comments in its gaps it is laid out (`isTreeOf_parse`).

Two things have to be known of the grammar. A step of a chain puts what came before in
front of its own children, so its children have to cover its text, which those of a token
do not (`Form.stepsAreNodes`). And a program has to read to the end, or the text behind it
would be no gap (`Form.closesText`).
-/

namespace CodeSurvey

/-! ## Checks on forms -/

namespace Form

/-- All trees that the form contributes are nodes, not tokens. -/
def yieldsNodes : Form → Bool
  | semicolon _ | endOfText | empty | ahead _ | butNot _ | node _ _ => true
  | seq a b | alt a b => a.yieldsNodes && b.yieldsNodes
  | field _ a | ofKind _ a | inMode _ a | when _ a => a.yieldsNodes
  | _ => false

/-- The steps of all chains are nodes. -/
def stepsAreNodes : Form → Bool
  | seq a b | alt a b | operation a b => a.stepsAreNodes && b.stepsAreNodes
  | chain a b => b.yieldsNodes && (a.stepsAreNodes && b.stepsAreNodes)
  | many a | ahead a | butNot a | field _ a | node _ a | ofKind _ a | inMode _ a | when _ a =>
    a.stepsAreNodes
  | _ => true

/-- Nothing but blanks and comments follows. -/
def closesText : Form → Bool
  | endOfText => true
  | seq _ b => b.closesText
  | node _ a => a.closesText
  | _ => false

theorem stepsAreNodes_form (r : Rule) : r.form.stepsAreNodes = true := by
  cases r <;> decide +kernel

theorem closesText_program : Rule.program.form.closesText = true := by
  decide +kernel

/-! ## What a form takes -/

/-- The trees of a match of the form at `i` cover the text up to its end. -/
structure Lays (src : Source) (a : Form) (i : Nat) (x : Match) : Prop where
  tiled : Tree.AreTiled src i x.stop x.trees
  stop_le : x.stop ≤ src.size
  covered : a.yieldsNodes = true → ∀ t ∈ x.trees, t.IsCovered src
  gap_behind : a.closesText = true → src.IsGap x.stop src.size

section Lays

variable {src : Source} {a b : Form} {i stop : Nat} {x y : Match}

/-- A form of which less is known takes what another one takes. -/
theorem Lays.imp (h : a.Lays src i x) (hnodes : b.yieldsNodes = true → a.yieldsNodes = true)
    (hcloses : b.closesText = true → a.closesText = true) : b.Lays src i x :=
  ⟨h.tiled, h.stop_le, fun hb => h.covered (hnodes hb), fun hb => h.gap_behind (hcloses hb)⟩

/-- A form of which nothing is known. -/
theorem lays_of_areTiled (h : Tree.AreTiled src i x.stop x.trees) (hstop : x.stop ≤ src.size)
    (hnodes : a.yieldsNodes = false) (hcloses : a.closesText = false) : a.Lays src i x := by
  refine ⟨h, hstop, ?_, ?_⟩
  · rw [hnodes]
    exact fun h => (nomatch h)
  · rw [hcloses]
    exact fun h => (nomatch h)

/-- A token behind a gap. -/
theorem lays_token {l : Label} {start : Nat} (hgap : src.IsGap i start) (hle : start ≤ stop)
    (hstop : stop ≤ src.size) (hnodes : a.yieldsNodes = false) (hcloses : a.closesText = false) :
    a.Lays src i ⟨[.node l none ⟨start, stop⟩ []], stop⟩ :=
  lays_of_areTiled ⟨hgap, hle, .refl _⟩ hstop hnodes hcloses

/-- A gap without a token. -/
theorem lays_gap (hgap : src.IsGap i stop) (hstop : stop ≤ src.size)
    (hcloses : a.closesText = true → src.IsGap stop src.size) : a.Lays src i ⟨[], stop⟩ :=
  ⟨hgap, hstop, fun _ _ ht => (nomatch ht), hcloses⟩

theorem Lays.seq (hx : a.Lays src i x) (hy : b.Lays src x.stop y) :
    (seq a b).Lays src i ⟨x.trees ++ y.trees, y.stop⟩ := by
  refine ⟨hx.tiled.append hy.tiled, hy.stop_le, fun hnodes => ?_, hy.gap_behind⟩
  obtain ⟨ha, hb⟩ := Bool.and_eq_true_iff.mp hnodes
  exact List.forall_mem_append.mpr ⟨hx.covered ha, hy.covered hb⟩

theorem Lays.field (f : Field) (h : a.Lays src i x) : (field f a).Lays src i
    ⟨x.trees.map fun t => if t.field.isNone then t.withField f else t, x.stop⟩ := by
  refine ⟨Tree.areTiled_map_withField.mpr h.tiled, h.stop_le, fun hnodes => ?_,
    fun hcloses => absurd hcloses Bool.false_ne_true⟩
  intro u hu
  obtain ⟨t, ht, rfl⟩ := List.mem_map.mp hu
  have hcovered := h.covered hnodes t ht
  split
  · exact Tree.isCovered_withField.mpr hcovered
  · exact hcovered

theorem Lays.node (kind : NodeKind) (h : a.Lays src i x) : (node kind a).Lays src i
    ⟨[.node (.named kind) none ⟨x.start, x.stop⟩ x.trees], x.stop⟩ := by
  have hparts : src.IsGap i x.start ∧ Tree.AreTiled src x.start x.stop x.trees := by
    have htiled := h.tiled
    obtain ⟨_ | ⟨t, ts⟩, stop⟩ := x
    · exact ⟨htiled, .refl _⟩
    · exact ⟨htiled.1, .refl _, htiled.2⟩
  refine ⟨⟨hparts.1, Tree.isTiled_of_children hparts.2, .refl _⟩, h.stop_le, fun _ => ?_,
    h.gap_behind⟩
  exact List.forall_mem_singleton.mpr hparts.2

end Lays

end Form

/-! ## Series -/

section Series

variable {src : Source} {i j k : Nat}

/-- Parts one behind the other cover what each of them covers. -/
theorem Series.areTiled {α : Type} {P : Nat → α → Nat → Prop} {trees : α → List Tree}
    {parts : List α} (h : Series P i parts k) (hi : i ≤ src.size)
    (hP : ∀ i part j, i ≤ src.size → P i part j →
      Tree.AreTiled src i j (trees part) ∧ j ≤ src.size) :
    Tree.AreTiled src i k (parts.flatMap trees) ∧ k ≤ src.size := by
  induction h with
  | nil i => exact ⟨.refl i, hi⟩
  | cons hpart _ ih =>
      obtain ⟨htiled, hj⟩ := hP _ _ _ hi hpart
      obtain ⟨hrest, hk⟩ := ih hj
      rw [List.flatMap_cons]
      exact ⟨htiled.append hrest, hk⟩

/-- The steps of a chain cover with what came before what each of them covers, if they are
nodes. -/
theorem Series.areTiled_chain {P : Nat → Tree → Nat → Prop} {head : Tree} {steps : List Tree}
    (h : Series P j steps k) (hhead : Tree.AreTiled src i j [head]) (hj : j ≤ src.size)
    (hP : ∀ i next j, i ≤ src.size → P i next j →
      Tree.AreTiled src i j [next] ∧ next.IsCovered src ∧ j ≤ src.size) :
    Tree.AreTiled src i k [steps.foldl Tree.prependChild head] ∧ k ≤ src.size := by
  induction h generalizing head with
  | nil j => exact ⟨hhead, hj⟩
  | cons hnext _ ih =>
      obtain ⟨htiled, hcovered, hstop⟩ := hP _ _ _ hj hnext
      exact ih (Tree.areTiled_prependChild hhead htiled hcovered) hstop

end Series

/-! ## Matches -/

namespace Form

variable {src : Source} {a : Form} {m : Mode} {i : Nat} {x : Match}

/-- A token stands behind a gap, and within the text. -/
theorem lays_of_token {rules : RuleMatches} (htoken : a.isToken = true) (hi : i ≤ src.size)
    (h : a.Matches rules src m i x) : a.Lays src i x := by
  have hskip : ∀ markup, src.skipTrivia markup i ≤ src.size :=
    fun markup => src.skipTrivia_le markup hi
  have hmark : ∀ {text : String} {start : Nat}, start ≤ src.size →
      src.startsWith text.toList start = true → start + text.length ≤ src.size := by
    intro text start hstart h
    rw [← String.length_toList]
    exact Source.le_of_startsWith hstart h
  cases a with
  | mark text =>
      obtain ⟨hstart, rfl⟩ := h
      exact lays_token (src.isGap_skipTrivia _ i) (Nat.le_add_right _ _)
        (hmark (hskip _) hstart) rfl rfl
  | gluedMark text =>
      obtain ⟨hstart, rfl⟩ := h
      exact lays_token (.refl i) (Nat.le_add_right _ _) (hmark hi hstart) rfl rfl
  | operator among =>
      obtain ⟨text, -, htext, rfl⟩ := h
      exact lays_token (src.isGap_skipTrivia false i) (Nat.le_add_right _ _)
        (Source.operatorAt_le (hskip false) htext) rfl rfl
  | keyword among =>
      obtain ⟨stop, hend, -, rfl⟩ := h
      exact lays_token (src.isGap_skipTrivia true i) (Nat.le_of_lt (Source.lt_wordEnd hend))
        (Source.wordEnd_le hend) rfl rfl
  | namedWord kind word =>
      obtain ⟨hword, rfl⟩ := h
      exact lays_token (src.isGap_skipTrivia true i) (Nat.le_add_right _ _)
        (hmark (hskip true) (Bool.and_eq_true_iff.mp hword).1) rfl rfl
  | literal kind shape =>
      obtain ⟨stop, hend, rfl⟩ := h
      exact lays_token (src.isGap_skipTrivia true i) (Shape.le_end hend)
        (Shape.end_le (hskip true) hend) rfl rfl
  | gluedLiteral kind shape =>
      obtain ⟨stop, hend, rfl⟩ := h
      exact lays_token (.refl i) (Shape.le_end hend) (Shape.end_le hi hend) rfl rfl
  | semicolon afterOperand =>
      obtain ⟨stop, hend, rfl⟩ := h
      exact lays_gap (Source.isGap_virtualSemicolon hend) (Source.virtualSemicolon_le hi hend)
        (absurd · Bool.false_ne_true)
  | conditionalMark =>
      obtain ⟨hquestion, rfl⟩ := h
      exact lays_token (src.isGap_skipTrivia false i) (Nat.le_succ _)
        (Source.lt_size_of_isConditionalMark hquestion) rfl rfl
  | endOfText =>
      obtain ⟨hend, rfl⟩ := h
      refine lays_gap (.refl i) hi fun _ => ?_
      have hgap := src.isGap_skipTrivia true i
      rwa [Nat.le_antisymm (hskip true) hend] at hgap
  | empty =>
      obtain rfl := h
      exact lays_gap (.refl i) hi (absurd · Bool.false_ne_true)
  | _ => cases htoken

/-- A form covers what it takes, if the rules do. -/
theorem lays_of_matches (hsteps : a.stepsAreNodes = true) (hi : i ≤ src.size)
    (h : a.Matches (fun r _ i x => i ≤ src.size → r.form.Lays src i x) src m i x) :
    a.Lays src i x := by
  induction a generalizing m i x with
  | ahead a | butNot a =>
      obtain rfl := h
      exact lays_gap (.refl i) hi (absurd · Bool.false_ne_true)
  | rule r => exact (h hi).imp (absurd · Bool.false_ne_true) (absurd · Bool.false_ne_true)
  | seq a b iha ihb =>
      obtain ⟨ha, hb⟩ := Bool.and_eq_true_iff.mp hsteps
      obtain ⟨y, z, hy, hz, rfl⟩ := h
      have hlays := iha ha hi hy
      exact hlays.seq (ihb hb hlays.stop_le hz)
  | alt a b iha ihb =>
      obtain ⟨ha, hb⟩ := Bool.and_eq_true_iff.mp hsteps
      rcases h with h | h
      · exact (iha ha hi h).imp (fun h => (Bool.and_eq_true_iff.mp h).1)
          (absurd · Bool.false_ne_true)
      · exact (ihb hb hi h).imp (fun h => (Bool.and_eq_true_iff.mp h).2)
          (absurd · Bool.false_ne_true)
  | many a ih =>
      obtain ⟨parts, stop, hparts, rfl⟩ := h
      have hpart : ∀ i ts j, i ≤ src.size →
          a.Matches (fun r _ i x => i ≤ src.size → r.form.Lays src i x) src m i ⟨ts, j⟩ →
            Tree.AreTiled src i j (id ts) ∧ j ≤ src.size := by
        intro i ts j hi hts
        have hlays := ih hsteps hi hts
        exact ⟨hlays.tiled, hlays.stop_le⟩
      obtain ⟨htiled, hstop⟩ := hparts.areTiled hi hpart
      rw [List.flatMap_id] at htiled
      exact lays_of_areTiled htiled hstop rfl rfl
  | field f a ih =>
      obtain ⟨y, hy, rfl⟩ := h
      exact (ih hsteps hi hy).field f
  | node kind a ih =>
      obtain ⟨y, hy, rfl⟩ := h
      exact (ih hsteps hi hy).node kind
  | chain first step ihf ihs =>
      obtain ⟨hnodes, hrest⟩ := Bool.and_eq_true_iff.mp hsteps
      obtain ⟨hf, hs⟩ := Bool.and_eq_true_iff.mp hrest
      rcases h with h | ⟨head, steps, j, stop, hhead, hchain, rfl⟩
      · have hlays := ihf hf hi h
        exact lays_of_areTiled hlays.tiled hlays.stop_le rfl rfl
      · have hlays := ihf hf hi hhead
        obtain ⟨htiled, hstop⟩ := hchain.areTiled_chain hlays.tiled hlays.stop_le
          fun i next j hi hnext =>
            have hlays := ihs hs hi hnext
            ⟨hlays.tiled, hlays.covered hnodes next (List.mem_singleton.mpr rfl), hlays.stop_le⟩
        exact lays_of_areTiled htiled hstop rfl rfl
  | operation operand tail iho iht =>
      obtain ⟨ho, ht⟩ := Bool.and_eq_true_iff.mp hsteps
      rcases h with h | ⟨head, pairs, j, stop, hhead, hpairs, rfl⟩
      · have hlays := iho ho hi h
        exact lays_of_areTiled hlays.tiled hlays.stop_le rfl rfl
      · have hlays := iho ho hi hhead
        obtain ⟨hgap, htiled, hbehind⟩ := hlays.tiled
        obtain ⟨hrow, hstop⟩ := hpairs.areTiled hlays.stop_le fun i pair j hi hpair =>
          have hlays := iht ht hi hpair
          ⟨hlays.tiled, hlays.stop_le⟩
        have hpairs := Tree.AreTiled.of_gap hbehind hrow
        exact lays_of_areTiled (PendingOperation.areTiled_group hgap htiled hpairs) hstop rfl rfl
  | ofKind kinds a ih => exact (ih hsteps hi h.1).imp (fun h => h) (absurd · Bool.false_ne_true)
  | inMode change a ih => exact (ih hsteps hi h).imp (fun h => h) (absurd · Bool.false_ne_true)
  | when holds a ih => exact (ih hsteps hi h.2).imp (fun h => h) (absurd · Bool.false_ne_true)
  | _ => exact lays_of_token rfl hi h

end Form

/-! ## The tree of a text -/

section Text

variable {src : Source} {d : Dialect}

theorem lays_readProgram {x : Match} {n : Notes} (h : src.readProgram d = (some x, n)) :
    Rule.program.form.Lays src 0 x := by
  have hclosed : ∀ r m i x, m.dialect = d →
      (Rule.form r).Matches (fun r _ i x => i ≤ src.size → r.form.Lays src i x) src m i x →
        i ≤ src.size → r.form.Lays src i x :=
    fun r m i x _ hx hi => Form.lays_of_matches (Form.stepsAreNodes_form r) hi hx
  exact matches_readProgram hclosed h (Nat.zero_le _)

/-- A program takes the whole text. -/
theorem areTiled_of_program {t : Tree} {stop : Nat}
    (h : Rule.program.form.Lays src 0 ⟨[t], stop⟩) : Tree.AreTiled src 0 src.size t.children := by
  obtain ⟨hgap, -, hbehind⟩ := h.tiled
  have hend : src.IsGap t.span.stop src.size :=
    Source.IsGap.trans hbehind (h.gap_behind Form.closesText_program)
  have hcovered := h.covered rfl t (List.mem_singleton.mpr rfl)
  exact (Tree.AreTiled.of_gap hgap hcovered).gap_behind hend

theorem Source.hasError_faultyTree (src : Source) (place : Nat) :
    (src.faultyTree place).hasError = true := rfl

/-- The tree of a text is laid out in the text, or it is the one that shows a fault. -/
theorem parse_cases (src : Source) (d : Dialect) :
    (src.parse d).IsTreeOf src ∨ ∃ place, src.parse d = src.faultyTree place := by
  unfold Source.parse
  split
  · rename_i t stop notes hread
    have htiled := areTiled_of_program (lays_readProgram hread)
    exact .inl ⟨Tree.areLaidOut_placeCommentsAmong _ htiled, Nat.le_refl _⟩
  · exact .inr ⟨_, rfl⟩

/-- The tree of a text that is within the grammar is laid out in the text. -/
theorem isTreeOf_parse (h : (src.parse d).hasError = false) : (src.parse d).IsTreeOf src := by
  rcases parse_cases src d with hlaid | ⟨place, hfault⟩
  · exact hlaid
  · rw [hfault, Source.hasError_faultyTree] at h
    cases h

end Text

end CodeSurvey
