import CodeSurvey.Proofs.Layout
import CodeSurvey.Proofs.MovedTree
import CodeSurvey.Proofs.QuotedLiteral

/-!
# Text that is put in

`Source.insertAt` puts characters into a text. What stands in front of them stays where it
is, and what stands behind them moves back by their number. If no line feed is among them,
both stay on their lines (`readsSame_of_stop_le`, `readsSame_of_le_start`). So does a tree on
either side of them, since all of it stands in its span; and siblings that are moved back
are laid out as they were (`areLaidOut_moved`).
-/

namespace CodeSurvey

namespace Source

variable {src : Source} {i j : Nat} {text : List Char}

/-- The text with characters put in at an offset. -/
def insertAt (src : Source) (i : Nat) (text : List Char) : Source :=
  ⟨(src.chars.toList.take i ++ (text ++ src.chars.toList.drop i)).toArray⟩

/-- The two sides of the offset, and what stands between them afterwards. -/
theorem exists_sides (hi : i ≤ src.size) (text : List Char) : ∃ a b : List Char,
    a.length = i ∧ src.chars.toList = a ++ b
      ∧ (src.insertAt i text).chars.toList = a ++ (text ++ b) := by
  refine ⟨_, _, ?_, (List.take_append_drop i src.chars.toList).symm, rfl⟩
  rw [List.length_take, Array.length_toList]
  exact Nat.min_eq_left hi

theorem size_insertAt (hi : i ≤ src.size) :
    (src.insertAt i text).size = src.size + text.length := by
  obtain ⟨a, b, -, hold, hnew⟩ := exists_sides hi text
  rw [size, size, ← Array.length_toList, ← Array.length_toList, hold, hnew, List.length_append,
    List.length_append, List.length_append]
  omega

/-! ## In front of it -/

theorem take_insertAt (hi : i ≤ src.size) (hj : j ≤ i) :
    (src.insertAt i text).chars.toList.take j = src.chars.toList.take j := by
  obtain ⟨a, b, rfl, hold, hnew⟩ := exists_sides hi text
  rw [hold, hnew, List.take_append_of_le_length hj, List.take_append_of_le_length hj]

theorem line_insertAt_of_le (hi : i ≤ src.size) (hj : j ≤ i) :
    (src.insertAt i text).line j = src.line j := by
  rw [line, line, row_eq_count, row_eq_count, take_insertAt hi hj]

theorem slice_insertAt_of_le {start stop : Nat} (hi : i ≤ src.size) (hstop : stop ≤ i) :
    (src.insertAt i text).slice start stop = src.slice start stop := by
  refine String.toList_inj.mp ?_
  rw [toList_slice, toList_slice, ← List.drop_take, ← List.drop_take, take_insertAt hi hstop]

/-! ## Behind it -/

theorem drop_insertAt (hi : i ≤ src.size) (hj : i ≤ j) :
    (src.insertAt i text).chars.toList.drop (j + text.length) = src.chars.toList.drop j := by
  obtain ⟨a, b, rfl, hold, hnew⟩ := exists_sides hi text
  obtain ⟨n, rfl⟩ := Nat.exists_eq_add_of_le hj
  rw [hold, hnew, Nat.add_assoc, Nat.add_comm n, List.drop_length_add_append,
    List.drop_length_add_append, List.drop_length_add_append]

theorem line_insertAt_of_ge (hi : i ≤ src.size) (hj : i ≤ j) (htext : '\n' ∉ text) :
    (src.insertAt i text).line (j + text.length) = src.line j := by
  obtain ⟨a, b, rfl, hold, hnew⟩ := exists_sides hi text
  obtain ⟨n, rfl⟩ := Nat.exists_eq_add_of_le hj
  rw [line, line, row_eq_count, row_eq_count, hold, hnew, Nat.add_assoc, Nat.add_comm n,
    List.take_length_add_append, List.take_length_add_append, List.take_length_add_append,
    List.count_append, List.count_append, List.count_append, List.count_eq_zero_of_not_mem htext,
    Nat.zero_add]

theorem slice_insertAt_of_ge {start stop : Nat} (hi : i ≤ src.size) (hstart : i ≤ start) :
    (src.insertAt i text).slice (start + text.length) (stop + text.length)
      = src.slice start stop := by
  refine String.toList_inj.mp ?_
  rw [toList_slice, toList_slice, drop_insertAt hi hstart, Nat.add_sub_add_right]

end Source

/-! ## Reading the same -/

section Reading

variable {src : Source} {i : Nat} {text : List Char}

theorem Span.readsSame_of_stop_le {s : Span} (hi : i ≤ src.size) (hle : s.start ≤ s.stop)
    (hstop : s.stop ≤ i) : s.ReadsSame src (src.insertAt i text) 0 where
  text := Source.slice_insertAt_of_le hi hstop
  startLine := Source.line_insertAt_of_le hi (Nat.le_trans hle hstop)
  endLine := Source.line_insertAt_of_le hi hstop

theorem Span.readsSame_of_le_start {s : Span} (hi : i ≤ src.size) (hle : s.start ≤ s.stop)
    (hstart : i ≤ s.start) (htext : '\n' ∉ text) :
    s.ReadsSame src (src.insertAt i text) text.length where
  text := Source.slice_insertAt_of_ge hi hstart
  startLine := Source.line_insertAt_of_ge hi hstart htext
  endLine := Source.line_insertAt_of_ge hi (Nat.le_trans hstart hle) htext

namespace Tree

variable {t : Tree} {ts : List Tree} {j stop : Nat}

theorem readsSame_of_stop_le (hi : i ≤ src.size) (h : AreLaidOut j stop ts) (hstop : stop ≤ i) :
    ∀ t ∈ ts, t.ReadsSame src (src.insertAt i text) 0 := by
  intro t ht u hu
  have hin := standsIn_of_mem_preorderOfAll ts h (mem_preorderOfAll.mpr ⟨t, ht, hu⟩)
  exact Span.readsSame_of_stop_le hi hin.ordered (Nat.le_trans hin.le_stop hstop)

theorem readsSame_of_le_start (hi : i ≤ src.size) (h : AreLaidOut j stop ts) (hstart : i ≤ j)
    (htext : '\n' ∉ text) : ∀ t ∈ ts, t.ReadsSame src (src.insertAt i text) text.length := by
  intro t ht u hu
  have hin := standsIn_of_mem_preorderOfAll ts h (mem_preorderOfAll.mpr ⟨t, ht, hu⟩)
  exact Span.readsSame_of_le_start hi hin.ordered (Nat.le_trans hstart hin.start_le) htext

/-! ## Layout -/

/-- Siblings are laid out if those in front of one of them, it, and those behind it are. -/
theorem areLaidOut_append_cons {us : List Tree} : AreLaidOut j stop (ts ++ t :: us)
    ↔ AreLaidOut j t.span.start ts ∧ t.IsLaidOut ∧ AreLaidOut t.span.stop stop us := by
  induction ts generalizing j with
  | nil => rfl
  | cons u ts ih => rw [List.cons_append, AreLaidOut, AreLaidOut, ih, and_assoc, and_assoc]

theorem isLaidOut_withField {f : Field} : (t.withField f).IsLaidOut ↔ t.IsLaidOut := by
  obtain ⟨l, g, s, cs⟩ := t
  rfl

mutual

theorem isLaidOut_moved (k : Nat) : (t : Tree) → t.IsLaidOut → (t.moved k).IsLaidOut
  | .node _ _ _ cs, h => areLaidOut_moved k cs h

theorem areLaidOut_moved (k : Nat) {j stop : Nat} : (ts : List Tree) → AreLaidOut j stop ts →
    AreLaidOut (j + k) (stop + k) (movedAll k ts)
  | [], h => Nat.add_le_add_right h k
  | t :: ts, ⟨hstart, ht, hts⟩ => by
      rw [movedAll, AreLaidOut, span_moved]
      exact ⟨Nat.add_le_add_right hstart k, isLaidOut_moved k t ht, areLaidOut_moved k ts hts⟩

end

end Tree

end Reading

end CodeSurvey
