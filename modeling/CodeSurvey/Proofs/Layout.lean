import CodeSurvey.Proofs.Path
import CodeSurvey.Syntax.Tree

/-!
# Trees that are laid out in a text

A node of a tree stands for a stretch of the text, and its children for stretches in
that one, one behind the other (`Tree.IsLaidOut`). This is what relates the order of a
walk to the order of the lines: of two nodes in pre-order the second one begins no
earlier, and it either stands in the first one or begins behind it (`Tree.Follows`,
`pairwise_follows`). The line of an offset goes up with the offset, so the same holds of
lines.

Lines are counted in two ways: the line of an offset by the line feeds in front of it,
and the lines of a text as the parts between its line feeds. The second number is the
line of the end of the text (`lineCount_eq`), which is why no node has a line beyond it.
-/

namespace CodeSurvey

/-! ## Lines of a text -/

namespace Source

variable {s : Source} {i j : Nat}

theorem foldl_countLineFeeds (cs : List Char) (n : Nat) :
    cs.foldl (fun n c => if c = '\n' then n + 1 else n) n = n + cs.count '\n' := by
  induction cs generalizing n with
  | nil => rfl
  | cons c cs ih =>
      rw [List.foldl_cons, ih, List.count_cons]
      by_cases hc : c = '\n'
      · rw [if_pos hc, if_pos (beq_iff_eq.mpr hc)]
        omega
      · rw [if_neg hc, if_neg fun h => hc (eq_of_beq h)]
        omega

/-- The row of an offset is the number of the line feeds in front of it. -/
theorem row_eq_count (s : Source) (i : Nat) : s.row i = (s.chars.toList.take i).count '\n' := by
  rw [row, Array.foldl_eq_foldl_extract, ← Array.foldl_toList, foldl_countLineFeeds, Nat.zero_add]
  simp

theorem line_le_line (h : i ≤ j) : s.line i ≤ s.line j := by
  have hrow : s.row i ≤ s.row j := by
    rw [row_eq_count, row_eq_count]
    exact (List.take_sublist_take_left h).count_le '\n'
  exact Nat.succ_le_succ hrow

theorem one_le_line (s : Source) (i : Nat) : 1 ≤ s.line i := Nat.le_add_left 1 _

theorem line_le_lineCount (h : i ≤ s.size) : s.line i ≤ s.lineCount := line_le_line h

theorem length_partsAt (sep : Char) (cs : List Char) :
    (partsAt sep cs).length = cs.count sep + 1 := by
  induction cs with
  | nil => rfl
  | cons c cs ih =>
      by_cases hc : c = sep
      · rw [hc, partsAt_cons_self, List.length_cons, ih, List.count_cons_self]
      · obtain ⟨part, parts, hparts⟩ := List.exists_cons_of_ne_nil (partsAt_ne_nil sep cs)
        rw [partsAt_cons_ne hc hparts, List.count_cons_of_ne hc, ← ih, hparts]
        rfl

/-- The lines of a text are the parts between its line feeds. -/
theorem lineCount_eq (s : Source) : s.lineCount = (partsAt '\n' s.chars.toList).length := by
  rw [length_partsAt, lineCount, line, row_eq_count, size, ← Array.length_toList, List.take_length]

end Source

/-! ## Layout -/

namespace Tree

mutual

/-- The children of a node, and theirs, stand in its span, one behind the other. -/
def IsLaidOut : Tree → Prop
  | .node _ _ s cs => AreLaidOut s.start s.stop cs

/-- The trees stand between two offsets, one behind the other, and each is laid out. -/
def AreLaidOut (i stop : Nat) : List Tree → Prop
  | [] => i ≤ stop
  | t :: ts => i ≤ t.span.start ∧ t.IsLaidOut ∧ AreLaidOut t.span.stop stop ts

end

/-- A tree of a text: it is laid out, and the text reaches as far. -/
structure IsTreeOf (src : Source) (t : Tree) : Prop where
  isLaidOut : t.IsLaidOut
  stop_le : t.span.stop ≤ src.size

mutual

theorem start_le_stop : (t : Tree) → t.IsLaidOut → t.span.start ≤ t.span.stop
  | .node _ _ _ cs, h => le_of_areLaidOut cs h

theorem le_of_areLaidOut {i stop : Nat} : (ts : List Tree) → AreLaidOut i stop ts → i ≤ stop
  | [], h => h
  | t :: ts, ⟨hstart, ht, hts⟩ =>
      Nat.le_trans hstart (Nat.le_trans (start_le_stop t ht) (le_of_areLaidOut ts hts))

end

/-- The node stands between two offsets. -/
structure StandsIn (i stop : Nat) (t : Tree) : Prop where
  start_le : i ≤ t.span.start
  ordered : t.span.start ≤ t.span.stop
  le_stop : t.span.stop ≤ stop

theorem StandsIn.mono {i i' stop stop' : Nat} {t : Tree} (h : t.StandsIn i stop) (hi : i' ≤ i)
    (hstop : stop ≤ stop') : t.StandsIn i' stop' :=
  ⟨Nat.le_trans hi h.start_le, h.ordered, Nat.le_trans h.le_stop hstop⟩

mutual

/-- Every node stands in the span of the root. -/
theorem standsIn_of_mem_preorder {u : Tree} : (t : Tree) → t.IsLaidOut → u ∈ t.preorder →
    u.StandsIn t.span.start t.span.stop
  | .node l f s cs, h, hu => by
      rw [preorder] at hu
      rcases List.mem_cons.mp hu with rfl | hu
      · exact ⟨Nat.le_refl _, le_of_areLaidOut cs h, Nat.le_refl _⟩
      · exact standsIn_of_mem_preorderOfAll cs h hu

theorem standsIn_of_mem_preorderOfAll {u : Tree} {i stop : Nat} : (ts : List Tree) →
    AreLaidOut i stop ts → u ∈ preorderOfAll ts → u.StandsIn i stop
  | t :: ts, ⟨hstart, ht, hts⟩, hu => by
      rw [preorderOfAll] at hu
      rcases List.mem_append.mp hu with hu | hu
      · exact (standsIn_of_mem_preorder t ht hu).mono hstart (le_of_areLaidOut ts hts)
      · exact (standsIn_of_mem_preorderOfAll ts hts hu).mono
          (Nat.le_trans hstart (start_le_stop t ht)) (Nat.le_refl stop)

end

mutual

/-- Every node is laid out itself. -/
theorem isLaidOut_of_mem_preorder {u : Tree} : (t : Tree) → t.IsLaidOut → u ∈ t.preorder →
    u.IsLaidOut
  | .node l f s cs, h, hu => by
      rw [preorder] at hu
      rcases List.mem_cons.mp hu with rfl | hu
      · exact h
      · exact isLaidOut_of_mem_preorderOfAll cs h hu

theorem isLaidOut_of_mem_preorderOfAll {u : Tree} {i stop : Nat} : (ts : List Tree) →
    AreLaidOut i stop ts → u ∈ preorderOfAll ts → u.IsLaidOut
  | t :: ts, ⟨_, ht, hts⟩, hu => by
      rw [preorderOfAll] at hu
      rcases List.mem_append.mp hu with hu | hu
      · exact isLaidOut_of_mem_preorder t ht hu
      · exact isLaidOut_of_mem_preorderOfAll ts hts hu

end

/-- The node `u` begins no earlier than `t`, and stands in it or begins behind it. -/
def Follows (t u : Tree) : Prop :=
  t.span.start ≤ u.span.start ∧ (u.span.stop ≤ t.span.stop ∨ t.span.stop ≤ u.span.start)

mutual

/-- In pre-order a node is followed by those in it, and then by those behind it. -/
theorem pairwise_follows : (t : Tree) → t.IsLaidOut → t.preorder.Pairwise Follows
  | .node l f s cs, h => by
      rw [preorder, List.pairwise_cons]
      refine ⟨fun u hu => ?_, pairwise_follows_all cs h⟩
      have hin := standsIn_of_mem_preorderOfAll cs h hu
      exact ⟨hin.start_le, .inl hin.le_stop⟩

theorem pairwise_follows_all {i stop : Nat} : (ts : List Tree) → AreLaidOut i stop ts →
    (preorderOfAll ts).Pairwise Follows
  | [], _ => List.Pairwise.nil
  | t :: ts, ⟨_, ht, hts⟩ => by
      rw [preorderOfAll, List.pairwise_append]
      refine ⟨pairwise_follows t ht, pairwise_follows_all ts hts, fun u hu v hv => ?_⟩
      have hleft := standsIn_of_mem_preorder t ht hu
      have hright := standsIn_of_mem_preorderOfAll ts hts hv
      have hbehind : u.span.stop ≤ v.span.start := Nat.le_trans hleft.le_stop hright.start_le
      exact ⟨Nat.le_trans hleft.ordered hbehind, .inr hbehind⟩

end

end Tree

end CodeSurvey
