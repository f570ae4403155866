import CodeSurvey.Text.Sorted

/-!
# Sorted sets of texts, by their members

A sorted set is determined by what is in it: `mem_sortedSet` says which texts
those are, `sorted_sortedSet` that they come in byte order and once, and
`eq_of_sorted` that there is only one such list. So a statement about a sorted
set is one about membership.
-/

namespace CodeSurvey

/-! ## The order of texts -/

theorem textLess_irrefl (a : String) : textLess a a = false := by
  simp [textLess]

theorem textLess_trans {a b c : String} (hab : textLess a b = true) (hbc : textLess b c = true) :
    textLess a c = true := by
  simp only [textLess, decide_eq_true_eq] at *
  exact List.lt_trans hab hbc

theorem textLess_of_not_textLess {a b : String} (hne : a ≠ b) (h : ¬textLess a b = true) :
    textLess b a = true := by
  simp only [textLess, decide_eq_true_eq] at *
  rcases Std.lt_trichotomy a.toList b.toList with hlt | heq | hgt
  · exact absurd hlt h
  · exact absurd (String.toList_inj.mp heq) hne
  · exact hgt

/-! ## Members -/

/-- In byte order, each text once. -/
abbrev Sorted (items : List String) : Prop := items.Pairwise fun a b => textLess a b = true

theorem mem_insertText {s t : String} {items : List String} :
    t ∈ insertText s items ↔ t = s ∨ t ∈ items := by
  induction items with
  | nil => simp [insertText]
  | cons u rest ih =>
      rw [insertText]
      split
      · rename_i h
        simp [h]
      split
      · simp
      · rw [List.mem_cons, ih, List.mem_cons]
        exact or_left_comm

theorem sorted_insertText (s : String) {items : List String} (h : Sorted items) :
    Sorted (insertText s items) := by
  induction items with
  | nil => exact List.pairwise_singleton ..
  | cons t rest ih =>
      obtain ⟨hhead, hrest⟩ := List.pairwise_cons.mp h
      rw [insertText]
      split
      · exact h
      rename_i hne
      split
      · rename_i hlt
        refine List.pairwise_cons.mpr ⟨fun u hu => ?_, h⟩
        rcases List.mem_cons.mp hu with rfl | hu
        · exact hlt
        · exact textLess_trans hlt (hhead u hu)
      · rename_i hnlt
        refine List.pairwise_cons.mpr ⟨fun u hu => ?_, ih hrest⟩
        rcases mem_insertText.mp hu with rfl | hu
        · exact textLess_of_not_textLess hne hnlt
        · exact hhead u hu

theorem mem_foldl_insertText {t : String} {items set : List String} :
    t ∈ items.foldl (fun set s => insertText s set) set ↔ t ∈ items ∨ t ∈ set := by
  induction items generalizing set with
  | nil => simp
  | cons s items ih =>
      rw [List.foldl_cons, ih, mem_insertText, List.mem_cons, or_left_comm, or_assoc]

@[simp] theorem mem_sortedSet {t : String} {items : List String} :
    t ∈ sortedSet items ↔ t ∈ items := by
  rw [sortedSet, mem_foldl_insertText]
  simp

theorem sorted_foldl_insertText (items : List String) {set : List String} (h : Sorted set) :
    Sorted (items.foldl (fun set s => insertText s set) set) := by
  induction items generalizing set with
  | nil => exact h
  | cons s items ih => exact ih (sorted_insertText s h)

theorem sorted_sortedSet (items : List String) : Sorted (sortedSet items) :=
  sorted_foldl_insertText items List.Pairwise.nil

theorem Sorted.nodup {items : List String} (h : Sorted items) : items.Nodup := by
  refine h.imp ?_
  intro a b hab heq
  rw [heq, textLess_irrefl] at hab
  cases hab

/-- There is one sorted list of a given set of texts. -/
theorem eq_of_sorted {as bs : List String} (ha : Sorted as) (hb : Sorted bs)
    (h : ∀ t, t ∈ as ↔ t ∈ bs) : as = bs := by
  refine ((List.perm_ext_iff_of_nodup ha.nodup hb.nodup).mpr h).eq_of_pairwise ?_ ha hb
  intro a b _ _ hab hba
  have := textLess_trans hab hba
  rw [textLess_irrefl] at this
  cases this

end CodeSurvey
