import CodeSurvey.Syntax.Cursor

/-!
# The walk over a tree is its pre-order

`Cursor.walk` is a loop: down, else to the side, else up until there is a side
to go to. Here it meets the recursion that it stands for.

The invariant is that the nodes still to come at a cursor are those of its own
tree and then those `behind` it: for every ancestor, from the nearest one on,
its children to the right. A step takes one node off the front of that list
(`unvisited_next`), so a walk from the root is the recursive `preorderFrom`.

A node is told from its equals elsewhere in the tree by its position, the
numbers of the children on the way down to it. `Tree.positions` lists them in
the order of the walk, which is the order of dictionaries: every position once,
and none that is not in the tree.
-/

namespace CodeSurvey

namespace Tree

/-! ## Induction -/

mutual

/-- What a tree has if all its children have it, all trees have. -/
theorem induct {motive : Tree → Prop} (step : ∀ t : Tree, (∀ c ∈ t.children, motive c) → motive t) :
    (t : Tree) → motive t
  | .node l f s cs => step (.node l f s cs) (inductAll step cs)

theorem inductAll {motive : Tree → Prop}
    (step : ∀ t : Tree, (∀ c ∈ t.children, motive c) → motive t) : (ts : List Tree) →
    ∀ t ∈ ts, motive t
  | [] => List.forall_mem_nil _
  | t :: ts => List.forall_mem_cons.mpr ⟨induct step t, inductAll step ts⟩

end

/-! ## Positions -/

/-- The tree at a position. -/
def at? (t : Tree) : List Nat → Option Tree
  | [] => some t
  | i :: p => t.children[i]?.bind fun child => child.at? p

mutual

/-- The positions in a tree, each before those below it. -/
def positions : Tree → List (List Nat)
  | .node _ _ _ cs => [] :: positionsAmong 0 cs

/-- The positions in the children from the one with number `i` on. -/
def positionsAmong (i : Nat) : List Tree → List (List Nat)
  | [] => []
  | t :: ts => t.positions.map (i :: ·) ++ positionsAmong (i + 1) ts

end

mutual

theorem mem_positions : (t : Tree) → (p : List Nat) → p ∈ t.positions ↔ (t.at? p).isSome
  | .node _ _ _ cs, [] => by simp [positions, at?]
  | .node _ _ _ cs, k :: p => by
      rw [positions, List.mem_cons, mem_positionsAmong 0 cs k p]
      simp [at?, children]

theorem mem_positionsAmong : (i : Nat) → (ts : List Tree) → (k : Nat) → (p : List Nat) →
    (k :: p ∈ positionsAmong i ts ↔ i ≤ k ∧ (ts[k - i]?.bind fun t => t.at? p).isSome)
  | i, [], k, p => by simp [positionsAmong]
  | i, t :: ts, k, p => by
      have hhead : k :: p ∈ t.positions.map (i :: ·) ↔ k = i ∧ (t.at? p).isSome := by
        rw [← mem_positions t p, List.mem_map]
        constructor
        · rintro ⟨q, hq, heq⟩
          obtain ⟨rfl, rfl⟩ := List.cons.inj heq
          exact ⟨rfl, hq⟩
        · rintro ⟨rfl, hp⟩
          exact ⟨p, hp, rfl⟩
      rw [positionsAmong, List.mem_append, hhead, mem_positionsAmong (i + 1) ts k p]
      by_cases hk : k = i
      · subst hk
        have : ¬k + 1 ≤ k := by omega
        simp [this]
      by_cases hlt : i < k
      · obtain ⟨m, rfl⟩ : ∃ m, k = i + 1 + m := ⟨k - (i + 1), by omega⟩
        have h1 : i + 1 + m - (i + 1) = m := by omega
        have h2 : i + 1 + m - i = m + 1 := by omega
        rw [h1, h2, List.getElem?_cons_succ]
        simp [hk]
        omega
      · simp [hk]
        omega

end

/-- Positions in children from number `i` on begin with a number from `i` on. -/
theorem exists_cons_of_mem_positionsAmong {i : Nat} {ts : List Tree} {p : List Nat}
    (h : p ∈ positionsAmong i ts) : ∃ k q, p = k :: q ∧ i ≤ k := by
  induction ts generalizing i with
  | nil => cases h
  | cons t ts ih =>
      rw [positionsAmong, List.mem_append] at h
      rcases h with h | h
      · obtain ⟨q, -, rfl⟩ := List.mem_map.mp h
        exact ⟨i, q, rfl, Nat.le_refl i⟩
      · obtain ⟨k, q, rfl, hk⟩ := ih h
        exact ⟨k, q, rfl, by omega⟩

mutual

/-- The positions come in the order of dictionaries, so none comes twice. -/
theorem pairwise_positions : (t : Tree) → t.positions.Pairwise (· < ·)
  | .node _ _ _ cs => by
      rw [positions, List.pairwise_cons]
      refine ⟨fun p hp => ?_, pairwise_positionsAmong 0 cs⟩
      obtain ⟨k, q, rfl, -⟩ := exists_cons_of_mem_positionsAmong hp
      exact List.nil_lt_cons k q

theorem pairwise_positionsAmong : (i : Nat) → (ts : List Tree) →
    (positionsAmong i ts).Pairwise (· < ·)
  | _, [] => List.Pairwise.nil
  | i, t :: ts => by
      rw [positionsAmong, List.pairwise_append]
      refine ⟨?_, pairwise_positionsAmong (i + 1) ts, fun p hp q hq => ?_⟩
      · rw [List.pairwise_map]
        exact (pairwise_positions t).imp fun h => List.cons_lt_cons_self.mpr h
      · obtain ⟨p', -, rfl⟩ := List.mem_map.mp hp
        obtain ⟨k, q', rfl, hk⟩ := exists_cons_of_mem_positionsAmong hq
        exact List.cons_lt_cons_iff.mpr (Or.inl (by omega))

end

end Tree

namespace Cursor

/-! ## Pre-order by recursion -/

/-- The place that a cursor looks at. -/
def position (above : List Frame) : List Nat := (above.map (·.before.length)).reverse

/-- The tree around a node. -/
def rootOf (t : Tree) : List Frame → Tree
  | [] => t
  | frame :: above => rootOf (frame.plug t) above

mutual

/-- The cursors at the nodes of a tree below `above`: that of its root, then
those of its children from left to right. -/
def preorderFrom (above : List Frame) : Tree → List Cursor
  | .node l f s cs => ⟨.node l f s cs, above⟩ :: preorderAmong l f s above [] cs

/-- Those of the children of an entered node that have `before` in front. -/
def preorderAmong (l : Label) (f : Option Field) (s : Span) (above : List Frame)
    (before : List Tree) : List Tree → List Cursor
  | [] => []
  | t :: ts => preorderFrom (⟨l, f, s, before, ts⟩ :: above) t
      ++ preorderAmong l f s above (t :: before) ts

end

mutual

theorem map_tree_preorderFrom (above : List Frame) : (t : Tree) →
    (preorderFrom above t).map (·.tree) = t.preorder
  | .node l f s cs => by
      rw [preorderFrom, List.map_cons, map_tree_preorderAmong l f s above [] cs, Tree.preorder]

theorem map_tree_preorderAmong (l : Label) (f : Option Field) (s : Span) (above : List Frame)
    (before : List Tree) : (ts : List Tree) →
    (preorderAmong l f s above before ts).map (·.tree) = Tree.preorderOfAll ts
  | [] => rfl
  | t :: ts => by
      rw [preorderAmong, List.map_append, map_tree_preorderFrom _ t,
        map_tree_preorderAmong l f s above (t :: before) ts, Tree.preorderOfAll]

end

mutual

theorem length_preorderFrom (above : List Frame) : (t : Tree) →
    (preorderFrom above t).length = t.size
  | .node l f s cs => by
      rw [preorderFrom, List.length_cons, length_preorderAmong l f s above [] cs, Tree.size,
        Nat.add_comm]

theorem length_preorderAmong (l : Label) (f : Option Field) (s : Span) (above : List Frame)
    (before : List Tree) : (ts : List Tree) →
    (preorderAmong l f s above before ts).length = Tree.sizeOfAll ts
  | [] => rfl
  | t :: ts => by
      rw [preorderAmong, List.length_append, length_preorderFrom _ t,
        length_preorderAmong l f s above (t :: before) ts, Tree.sizeOfAll]

end

mutual

theorem map_position_preorderFrom (above : List Frame) : (t : Tree) →
    (preorderFrom above t).map (fun c => position c.above)
      = t.positions.map (position above ++ ·)
  | .node l f s cs => by
      rw [preorderFrom, List.map_cons, map_position_preorderAmong l f s above [] cs,
        Tree.positions, List.map_cons, List.append_nil]
      rfl

theorem map_position_preorderAmong (l : Label) (f : Option Field) (s : Span) (above : List Frame)
    (before : List Tree) : (ts : List Tree) →
    (preorderAmong l f s above before ts).map (fun c => position c.above)
      = (Tree.positionsAmong before.length ts).map (position above ++ ·)
  | [] => rfl
  | t :: ts => by
      have hposition : position (⟨l, f, s, before, ts⟩ :: above)
          = position above ++ [before.length] := by
        simp [position]
      rw [preorderAmong, List.map_append, map_position_preorderFrom _ t,
        map_position_preorderAmong l f s above (t :: before) ts, hposition, Tree.positionsAmong,
        List.map_append, List.map_map]
      simp [Function.comp_def]

end

mutual

/-- A cursor of the pre-order looks at the place that its position names. -/
theorem at?_of_mem_preorderFrom (above : List Frame) : (t : Tree) → {c : Cursor} →
    c ∈ preorderFrom above t →
    ∃ p, position c.above = position above ++ p ∧ t.at? p = some c.tree
      ∧ rootOf c.tree c.above = rootOf t above
  | .node l f s cs, c, h => by
      rw [preorderFrom, List.mem_cons] at h
      rcases h with rfl | h
      · exact ⟨[], (List.append_nil _).symm, rfl, rfl⟩
      · obtain ⟨i, p, hp, hat, hroot⟩ := at?_of_mem_preorderAmong l f s above [] cs h
        refine ⟨i :: p, by simpa using hp, hat, by simpa using hroot⟩

theorem at?_of_mem_preorderAmong (l : Label) (f : Option Field) (s : Span) (above : List Frame)
    (before : List Tree) : (ts : List Tree) → {c : Cursor} →
    c ∈ preorderAmong l f s above before ts →
    ∃ i p, position c.above = position above ++ (before.length + i) :: p
      ∧ (ts[i]?.bind fun t => t.at? p) = some c.tree
      ∧ rootOf c.tree c.above = rootOf (.node l f s (before.reverse ++ ts)) above
  | [], _, h => by cases h
  | t :: ts, c, h => by
      rw [preorderAmong, List.mem_append] at h
      rcases h with h | h
      · obtain ⟨p, hp, hat, hroot⟩ := at?_of_mem_preorderFrom (⟨l, f, s, before, ts⟩ :: above) t h
        exact ⟨0, p, by simpa [position] using hp, by simpa using hat, hroot⟩
      · obtain ⟨i, p, hp, hat, hroot⟩ :=
          at?_of_mem_preorderAmong l f s above (t :: before) ts h
        refine ⟨i + 1, p, ?_, by simpa using hat, by simpa using hroot⟩
        rw [hp, List.length_cons, Nat.add_assoc, Nat.add_comm 1]

end

mutual

/-- Every cursor of the pre-order but the first comes with its parent. -/
theorem exists_parent_of_mem_preorderFrom (above : List Frame) : (t : Tree) → {c : Cursor} →
    c ∈ preorderFrom above t →
    c = ⟨t, above⟩ ∨ ∃ p, c.parent? = some p ∧ p ∈ preorderFrom above t
  | .node l f s cs, c, h => by
      rw [preorderFrom] at h ⊢
      rcases List.mem_cons.mp h with rfl | h
      · exact .inl rfl
      · obtain ⟨p, hp, rfl | hmem⟩ := exists_parent_of_mem_preorderAmong l f s above [] cs h
        · exact .inr ⟨_, hp, List.mem_cons_self⟩
        · exact .inr ⟨p, hp, List.mem_cons_of_mem _ hmem⟩

theorem exists_parent_of_mem_preorderAmong (l : Label) (f : Option Field) (s : Span)
    (above : List Frame) (before : List Tree) : (ts : List Tree) → {c : Cursor} →
    c ∈ preorderAmong l f s above before ts →
    ∃ p, c.parent? = some p ∧ (p = ⟨.node l f s (before.reverse ++ ts), above⟩
      ∨ p ∈ preorderAmong l f s above before ts)
  | [], _, h => by cases h
  | t :: ts, c, h => by
      rw [preorderAmong] at h ⊢
      rcases List.mem_append.mp h with h | h
      · rcases exists_parent_of_mem_preorderFrom _ t h with rfl | ⟨p, hp, hmem⟩
        · exact ⟨_, rfl, .inl rfl⟩
        · exact ⟨p, hp, .inr (List.mem_append_left _ hmem)⟩
      · obtain ⟨p, hp, rfl | hmem⟩ :=
          exists_parent_of_mem_preorderAmong l f s above (t :: before) ts h
        · exact ⟨_, hp, .inl (by simp)⟩
        · exact ⟨p, hp, .inr (List.mem_append_right _ hmem)⟩

end

/-! ## The walk -/

/-- The cursors to the right of a node, those of the nearest ancestor first. -/
def behind (t : Tree) : List Frame → List Cursor
  | [] => []
  | ⟨l, f, s, before, after⟩ :: above =>
      preorderAmong l f s above (t :: before) after
        ++ behind (Frame.plug ⟨l, f, s, before, after⟩ t) above

/-- The cursors that are still to come, that of the node itself included. -/
def unvisited (c : Cursor) : List Cursor := preorderFrom c.above c.tree ++ behind c.tree c.above

theorem behind_of_climb {t : Tree} {above : List Frame} :
    behind t above = match climb t above with
      | some c => c.unvisited
      | none => [] := by
  induction above generalizing t with
  | nil => rfl
  | cons frame above ih =>
      obtain ⟨l, f, s, before, after⟩ := frame
      cases after with
      | nil =>
          rw [behind, preorderAmong, List.nil_append, ih]
          rfl
      | cons next rest =>
          have hplug : Frame.plug ⟨l, f, s, before, next :: rest⟩ t
              = Frame.plug ⟨l, f, s, t :: before, rest⟩ next := by
            simp [Frame.plug]
          rw [behind, preorderAmong, List.append_assoc, hplug]
          rfl

/-- A step takes one cursor off the front of those that are still to come. -/
theorem unvisited_next (c : Cursor) :
    c.unvisited = c :: match c.next? with
      | some next => next.unvisited
      | none => [] := by
  obtain ⟨⟨l, f, s, cs⟩, above⟩ := c
  cases cs with
  | nil =>
      rw [unvisited, preorderFrom, preorderAmong, behind_of_climb]
      rfl
  | cons child rest =>
      rw [unvisited, preorderFrom, preorderAmong, List.cons_append, List.append_assoc]
      rfl

theorem walkFrom_eq (visited : List Cursor) (c : Cursor) :
    walkFrom visited c = visited.reverse ++ c.unvisited := by
  fun_induction walkFrom visited c with
  | case1 visited c next h _ ih =>
      rw [ih, unvisited_next c, h, List.reverse_cons, List.append_assoc]
      rfl
  | case2 visited c h =>
      rw [unvisited_next c, h, List.reverse_cons]

theorem walk_ofTree (t : Tree) : (ofTree t).walk = preorderFrom [] t := by
  rw [walk, walkFrom_eq, unvisited, ofTree, behind, List.append_nil]
  rfl

/-- The walk comes by the parents of the nodes that it comes by. -/
theorem parent?_mem_walk {t : Tree} {c p : Cursor} (hc : c ∈ (ofTree t).walk)
    (h : c.parent? = some p) : p ∈ (ofTree t).walk := by
  rw [walk_ofTree] at hc ⊢
  rcases exists_parent_of_mem_preorderFrom [] t hc with rfl | ⟨q, hq, hmem⟩
  · cases h
  · rw [h] at hq
    exact Option.some.inj hq ▸ hmem

/-- The cursor that the loop has reached after `k` steps, if it still runs. -/
def after (c : Cursor) : Nat → Option Cursor
  | 0 => some c
  | k + 1 => c.next?.bind fun next => next.after k

theorem after_eq (c : Cursor) (k : Nat) : c.after k = c.unvisited[k]? := by
  induction k generalizing c with
  | zero =>
      rw [unvisited_next]
      rfl
  | succ k ih =>
      rw [unvisited_next, List.getElem?_cons_succ, after]
      cases c.next? with
      | none => rfl
      | some next => exact ih next

end Cursor

end CodeSurvey
