import CodeSurvey.Proofs.Extraction
import Mathlib.Algebra.Ring.Nat
import Mathlib.Data.List.Nodup

/-!
# Complexity is one more than the decisions

The complexity of a node is found by a loop with a cursor that begins at the node and
cannot climb above it. Here the loop meets the number that it stands for: the
decisions at the positions of the tree that begin with the position of the node
(`decisionsBelow`), as long as 32 bits have room for them.

Everything else follows from counting positions. The decisions of a node are its own
and those of its children (`decisions_eq`). A node in another one has its positions
among those of the other one, so it has no more decisions (`decisions_le_of_at?`). And
of nodes none of which lies in another one no two share a position, so they cannot have
more decisions together than a node around them all (`sum_decisions_le`).
-/

namespace CodeSurvey

/-! ## Counting in 32 bits -/

theorem toNat_foldl_count {α : Type} (p : α → Bool) (as : List α) (k : UInt32) :
    (as.foldl (fun n a => if p a then n + 1 else n) k).toNat
      = (k.toNat + as.countP p) % 4294967296 := by
  induction as generalizing k with
  | nil =>
      have := k.toNat_lt
      show k.toNat = (k.toNat + 0) % 4294967296
      omega
  | cons a as ih =>
      rw [List.foldl_cons, ih, List.countP_cons]
      by_cases h : p a = true
      · rw [if_pos h, if_pos h, UInt32.toNat_add]
        show (((k.toNat + 1) % 4294967296) + as.countP p) % 4294967296 = _
        omega
      · rw [if_neg h, if_neg h, Nat.add_zero]

/-- Of predicates of which at most one holds of an item, and none if `d` does not,
the items counted for all of them are counted for `d`. -/
theorem sum_countP_le {α : Type} {ps : List (α → Bool)} {d : α → Bool} {as : List α}
    (h : ∀ a ∈ as, (ps.countP fun p => p a) ≤ if d a then 1 else 0) :
    (ps.map fun p => as.countP p).sum ≤ as.countP d := by
  induction as with
  | nil => simp
  | cons a as ih =>
      have hrest := ih fun b hb => h b (List.mem_cons_of_mem a hb)
      have hfirst := h a List.mem_cons_self
      have hsplit : (ps.map fun p => (a :: as).countP p).sum
          = (ps.map fun p => as.countP p).sum + ps.countP fun p => p a := by
        clear h ih hrest hfirst
        induction ps with
        | nil => rfl
        | cons p ps ih =>
            rw [List.map_cons, List.sum_cons, ih, List.map_cons, List.sum_cons, List.countP_cons,
              List.countP_cons]
            omega
      rw [hsplit, List.countP_cons]
      omega

/-! ## Positions below a position -/

namespace Tree

variable {t n m : Tree} {p q : List Nat}

theorem at?_append (t : Tree) (p q : List Nat) : t.at? (p ++ q) = (t.at? p).bind (·.at? q) := by
  induction p generalizing t with
  | nil => rfl
  | cons i p ih =>
      rw [List.cons_append, at?, at?]
      cases t.children[i]? with
      | none => rfl
      | some child => exact ih child

theorem nodup_positions (t : Tree) : t.positions.Nodup := by
  refine t.pairwise_positions.imp ?_
  intro p q hlt heq
  subst heq
  exact absurd hlt (List.lt_irrefl p)

/-- The positions that begin with `p` are those of the node at `p`. -/
theorem perm_positions_below (hn : t.at? p = some n) :
    (t.positions.filter fun q => p.isPrefixOf q).Perm (n.positions.map (p ++ ·)) := by
  have hright : (n.positions.map (p ++ ·)).Nodup :=
    n.nodup_positions.map fun _ _ heq => List.append_cancel_left heq
  refine (List.perm_ext_iff_of_nodup (t.nodup_positions.filter _) hright).mpr ?_
  intro q
  rw [List.mem_filter, mem_positions, List.isPrefixOf_iff_prefix, List.mem_map]
  constructor
  · rintro ⟨hq, r, rfl⟩
    rw [at?_append, hn] at hq
    exact ⟨r, (mem_positions n r).mpr hq, rfl⟩
  · rintro ⟨r, hr, rfl⟩
    rw [at?_append, hn]
    exact ⟨(mem_positions n r).mp hr, List.prefix_append p r⟩

/-! ## Decisions -/

variable (src : Source)

/-- The decisions in a tree, that of its root included. -/
def decisions (t : Tree) : Nat := t.preorder.countP (·.isDecision src)

/-- Whether there is a decision at a position. -/
def decidesAt (t : Tree) (q : List Nat) : Bool := (t.at? q).any (·.isDecision src)

/-- The decisions of a tree at the positions from `p` downwards. -/
def decisionsBelow (t : Tree) (p : List Nat) : Nat :=
  t.positions.countP fun q => p.isPrefixOf q && t.decidesAt src q

theorem decisions_eq_countP_positions (t : Tree) :
    t.decisions src = t.positions.countP (t.decidesAt src) := by
  have hpositions : (Cursor.preorderFrom [] t).map (fun c => Cursor.position c.above)
      = t.positions := by
    rw [Cursor.map_position_preorderFrom]
    exact List.map_id t.positions
  rw [decisions, ← Cursor.map_tree_preorderFrom [] t, ← hpositions, List.countP_map,
    List.countP_map]
  refine List.countP_congr ?_
  intro c hc
  obtain ⟨r, hr, hat, -⟩ := Cursor.at?_of_mem_preorderFrom [] t hc
  have hposition : Cursor.position c.above = r := by simpa [Cursor.position] using hr
  simp only [Function.comp, decidesAt, hposition, hat, Option.any_some]

theorem decisionsBelow_eq (hn : t.at? p = some n) :
    t.decisionsBelow src p = n.decisions src := by
  calc t.decisionsBelow src p
      = (t.positions.filter fun q => p.isPrefixOf q).countP (t.decidesAt src) := by
        rw [List.countP_filter]
        exact List.countP_congr fun q _ => by rw [Bool.and_comm]
    _ = (n.positions.map (p ++ ·)).countP (t.decidesAt src) :=
        (perm_positions_below hn).countP_eq _
    _ = n.positions.countP (n.decidesAt src) := by
        rw [List.countP_map]
        refine List.countP_congr ?_
        intro r _
        simp only [Function.comp, decidesAt, at?_append, hn, Option.bind_some]
    _ = n.decisions src := (decisions_eq_countP_positions src n).symm

/-- What is counted in a tree is counted at its root and in its children. -/
theorem countP_preorder (p : Tree → Bool) (t : Tree) : t.preorder.countP p
    = (if p t then 1 else 0) + (t.children.map fun c => c.preorder.countP p).sum := by
  obtain ⟨l, f, s, cs⟩ := t
  rw [preorder, List.countP_cons, preorderOfAll_eq_flatMap, List.countP_flatMap, Nat.add_comm]
  rfl

/-- The decisions of a node are its own and those of its children. -/
theorem decisions_eq (t : Tree) : t.decisions src
    = (if t.isDecision src then 1 else 0) + (t.children.map (decisions src)).sum :=
  countP_preorder (·.isDecision src) t

theorem decisions_withField (f : Field) (t : Tree) :
    (t.withField f).decisions src = t.decisions src := by
  obtain ⟨l, g, s, cs⟩ := t
  rw [decisions_eq, decisions_eq src (node l g s cs)]
  rfl

theorem decisions_le_of_at? (hm : n.at? q = some m) : m.decisions src ≤ n.decisions src := by
  rw [← decisionsBelow_eq src hm, decisions_eq_countP_positions]
  refine List.countP_mono_left ?_
  intro r _ hr
  exact (Bool.and_eq_true_iff.mp hr).2

/-- None of the positions lies below another one. -/
abbrev Apart (ps : List (List Nat)) : Prop := ps.Pairwise fun p q => ¬p <+: q ∧ ¬q <+: p

/-- A position lies below at most one of several that lie apart. -/
theorem countP_prefix_le_one {ps : List (List Nat)} (h : Apart ps) (r : List Nat) :
    (ps.countP fun p => p.isPrefixOf r) ≤ 1 := by
  induction ps with
  | nil => simp
  | cons p ps ih =>
      obtain ⟨hhead, hrest⟩ := List.pairwise_cons.mp h
      rw [List.countP_cons]
      by_cases hp : p.isPrefixOf r = true
      · have hnone : (ps.countP fun p => p.isPrefixOf r) = 0 := by
          rw [List.countP_eq_zero]
          intro q hq hqr
          rcases List.prefix_or_prefix_of_prefix (List.isPrefixOf_iff_prefix.mp hp)
            (List.isPrefixOf_iff_prefix.mp hqr) with hpq | hqp
          · exact (hhead q hq).1 hpq
          · exact (hhead q hq).2 hqp
        exact Nat.le_of_eq (by rw [hnone, if_pos hp])
      · rw [if_neg hp]
        exact ih hrest

/-- Nodes that lie apart in a node have at most its decisions together. -/
theorem sum_decisions_le {parts : List (List Nat × Tree)}
    (hparts : ∀ x ∈ parts, n.at? x.1 = some x.2) (hapart : Apart (parts.map (·.1))) :
    (parts.map fun x => x.2.decisions src).sum ≤ n.decisions src := by
  have hbelow : (parts.map fun x => x.2.decisions src)
      = ((parts.map (·.1)).map fun q r => q.isPrefixOf r && n.decidesAt src r).map
        fun p => n.positions.countP p := by
    rw [List.map_map, List.map_map]
    refine List.map_congr_left ?_
    intro x hx
    exact (decisionsBelow_eq src (hparts x hx)).symm
  rw [hbelow, decisions_eq_countP_positions]
  refine sum_countP_le ?_
  intro r _
  rw [List.countP_map]
  by_cases hr : n.decidesAt src r = true
  · simpa [Function.comp_def, hr] using countP_prefix_le_one hapart r
  · simp [Function.comp_def, hr]

/-! ## Complexity -/

theorem complexity_eq (t : Tree) : t.complexity src = (1 + t.decisions src) % 4294967296 := by
  show UInt32.toNat (List.foldl _ 1 (Cursor.ofTree t).walk) = _
  rw [toNat_foldl_count (fun c : Cursor => c.tree.isDecision src), Cursor.walk_ofTree, decisions,
    ← Cursor.map_tree_preorderFrom [] t, List.countP_map]
  rfl

theorem complexity_of_lt (h : t.decisions src < 4294967295) :
    t.complexity src = 1 + t.decisions src := by
  rw [complexity_eq]
  omega

theorem exists_of_mem_functions {f : FunctionRecord}
    (h : f ∈ (Extraction.ofTree src t).functions) :
    ∃ q m, t.at? q = some m ∧ m.isFunctionKind = true ∧ f.complexity = m.complexity src := by
  rw [Extraction.ofTree, Extraction.functions_ofNodes, Cursor.walk_ofTree] at h
  obtain ⟨c, hc, rfl⟩ := List.mem_map.mp h
  obtain ⟨hmem, hkind⟩ := List.mem_filter.mp hc
  obtain ⟨q, -, hat, -⟩ := Cursor.at?_of_mem_preorderFrom [] t hmem
  exact ⟨q, c.tree, hat, hkind, rfl⟩

end Tree

/-- The loop that counts the decisions of a node in a tree ends, after as many steps
as the node has nodes, and comes by nothing else. If there are fewer than 32 bits have
room for, it comes to one more than the decisions of the tree from the node downwards.
So, taken less one, the complexity of a node is its own decision and the complexities
of its children; no function in the node has a larger one; and nodes that lie apart in
it have at most its own together. -/
theorem complexity_counts_decisions (src : Source) (t n : Tree) (p : List Nat)
    (hn : t.at? p = some n) (hfew : t.decisionsBelow src p < 4294967295) :
    (∀ k, ((Cursor.ofTree n).after k).isSome ↔ k < n.size)
      ∧ (∀ k c, (Cursor.ofTree n).after k = some c →
        (Cursor.ofTree n).walk[k]? = some c
          ∧ t.at? (p ++ Cursor.position c.above) = some c.tree)
      ∧ n.complexity src = 1 + t.decisionsBelow src p
      ∧ n.complexity src - 1
        = (if n.isDecision src then 1 else 0)
          + (n.children.map fun child => child.complexity src - 1).sum
      ∧ (∀ q m, n.at? q = some m → m.complexity src ≤ n.complexity src)
      ∧ (∀ f ∈ (Extraction.ofTree src n).functions,
        (∃ q m, n.at? q = some m ∧ m.isFunctionKind = true ∧ f.complexity = m.complexity src)
          ∧ f.complexity ≤ n.complexity src)
      ∧ ∀ parts : List (List Nat × Tree), (∀ x ∈ parts, n.at? x.1 = some x.2) →
        Tree.Apart (parts.map (·.1)) →
        (parts.map fun x => x.2.complexity src - 1).sum ≤ n.complexity src - 1 := by
  rw [Tree.decisionsBelow_eq src hn] at hfew ⊢
  have hwalk := Cursor.walk_ofTree n
  have hafter : ∀ k, (Cursor.ofTree n).after k = (Cursor.ofTree n).walk[k]? := by
    intro k
    rw [Cursor.after_eq, hwalk, Cursor.unvisited, Cursor.ofTree, Cursor.behind, List.append_nil]
  have hless : ∀ {q m}, n.at? q = some m → m.complexity src - 1 = m.decisions src := by
    intro q m hm
    have hle := Tree.decisions_le_of_at? src hm
    rw [Tree.complexity_of_lt src (by omega)]
    omega
  have hself : n.complexity src = 1 + n.decisions src := Tree.complexity_of_lt src hfew
  have hinner : ∀ q m, n.at? q = some m → m.complexity src ≤ n.complexity src := by
    intro q m hm
    have hle := Tree.decisions_le_of_at? src hm
    rw [Tree.complexity_of_lt src (by omega), hself]
    omega
  refine ⟨?_, ?_, hself, ?_, hinner, ?_, ?_⟩
  · intro k
    rw [hafter, hwalk, ← Cursor.length_preorderFrom [] n]
    simp
  · intro k c hc
    rw [hafter] at hc
    refine ⟨hc, ?_⟩
    have hmem := List.mem_of_getElem? hc
    rw [hwalk] at hmem
    obtain ⟨r, hr, hat, -⟩ := Cursor.at?_of_mem_preorderFrom [] n hmem
    have hposition : Cursor.position c.above = r := by simpa [Cursor.position] using hr
    rw [hposition, Tree.at?_append, hn]
    exact hat
  · have hchildren : (n.children.map fun child => child.complexity src - 1)
        = n.children.map (Tree.decisions src) := by
      refine List.map_congr_left ?_
      intro child hchild
      obtain ⟨i, hi⟩ := List.mem_iff_getElem?.mp hchild
      exact hless (q := [i]) (by rw [Tree.at?, hi]; rfl)
    rw [hself, hchildren, ← Tree.decisions_eq]
    omega
  · intro f hf
    obtain ⟨q, m, hm, hkind, heq⟩ := Tree.exists_of_mem_functions src hf
    exact ⟨⟨q, m, hm, hkind, heq⟩, heq ▸ hinner q m hm⟩
  · intro parts hparts hapart
    have hdecisions : (parts.map fun x => x.2.complexity src - 1)
        = parts.map fun x => x.2.decisions src :=
      List.map_congr_left fun x hx => hless (hparts x hx)
    have hsum := Tree.sum_decisions_le src hparts hapart
    rw [hdecisions, hself]
    omega

/-- A module with one function: a condition, and in it a function with a choice. -/
def nestedFunctions : Tree :=
  .node (.named .program) none ⟨0, 0⟩ [
    .node (.named .functionDeclaration) none ⟨0, 0⟩ [
      .node (.named .ifStatement) none ⟨0, 0⟩ [
        .node (.named .arrowFunction) none ⟨0, 0⟩ [
          .node (.named .ternaryExpression) none ⟨0, 0⟩ []]]]]

theorem complexity_counts_nestedFunctions :
    nestedFunctions.at? [0] = some nestedFunctions.children[0]
      ∧ nestedFunctions.decisionsBelow ⟨#[]⟩ [0] < 4294967295
      ∧ nestedFunctions.children[0].complexity ⟨#[]⟩ = 3
      ∧ nestedFunctions.children[0].at? [0, 0]
        = some (.node (.named .arrowFunction) none ⟨0, 0⟩ [
          .node (.named .ternaryExpression) none ⟨0, 0⟩ []])
      ∧ Tree.complexity ⟨#[]⟩ (.node (.named .arrowFunction) none ⟨0, 0⟩ [
          .node (.named .ternaryExpression) none ⟨0, 0⟩ []])
        ≤ nestedFunctions.children[0].complexity ⟨#[]⟩ := by
  have hn : nestedFunctions.at? [0] = some nestedFunctions.children[0] := rfl
  have hdecisions : nestedFunctions.decisionsBelow ⟨#[]⟩ [0] = 2 := by decide
  have hfew : nestedFunctions.decisionsBelow ⟨#[]⟩ [0] < 4294967295 := by omega
  obtain ⟨-, -, hself, -, hinner, -⟩ :=
    complexity_counts_decisions ⟨#[]⟩ nestedFunctions nestedFunctions.children[0] [0] hn hfew
  exact ⟨hn, hfew, by omega, rfl, hinner [0, 0] _ rfl⟩

end CodeSurvey
