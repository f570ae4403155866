import CodeSurvey.Language
import CodeSurvey.Proofs.Path

/-!
# The last place of a part

Three searches in a text go from its end: for the last place of a part (`lastPlace?`),
for the last separator (`cutAtLast?`) and for the last character of a kind
(`Language.behindLast`). Each is pinned down by what it answers, so that no later proof
opens it: the first by the places at which the part stands (`lastPlace?_eq_some_iff`),
the second by the two sides of the cut (`cutAtLast?_eq_some_iff`), the third by what it
makes of a text that is cut at such a character (`behindLast_append_cons`).
-/

namespace CodeSurvey

/-! ## Places of a part -/

/-- The part stands in `cs` at place `i`. -/
def StandsAtPlace (part cs : List Char) (i : Nat) : Prop := part <+: cs.drop i

section Places

variable {part cs ds : List Char} {i : Nat}

theorem StandsAtPlace.append_right (h : StandsAtPlace part cs i) (ds : List Char) :
    StandsAtPlace part (cs ++ ds) i := by
  have hdrop : cs.drop i <+: (cs ++ ds).drop i := by
    rw [List.drop_append]
    exact List.prefix_append _ _
  exact h.trans hdrop

/-- What stands within the front of a text stands in the front. -/
theorem StandsAtPlace.of_append (h : StandsAtPlace part (cs ++ ds) i)
    (hle : i + part.length ≤ cs.length) : StandsAtPlace part cs i := by
  obtain ⟨back, hback⟩ := h
  have hdrop : (cs ++ ds).drop i = cs.drop i ++ ds := by
    rw [List.drop_append_of_le_length (by omega)]
  rw [hdrop] at hback
  refine List.prefix_of_prefix_length_le ⟨back, hback⟩ (List.prefix_append _ _) ?_
  rw [List.length_drop]
  omega

theorem standsAtPlace_append_left :
    StandsAtPlace part (cs ++ ds) (cs.length + i) ↔ StandsAtPlace part ds i := by
  rw [StandsAtPlace, StandsAtPlace, List.drop_append, List.drop_eq_nil_of_le (by omega),
    Nat.add_sub_cancel_left, List.nil_append]

/-- The back of a part stands behind its front. -/
theorem StandsAtPlace.behind {front : List Char} (h : StandsAtPlace (front ++ part) cs i) :
    StandsAtPlace part cs (i + front.length) := by
  obtain ⟨back, hback⟩ := h
  rw [StandsAtPlace, ← List.drop_drop, ← hback, List.append_assoc, List.drop_left]
  exact List.prefix_append _ _

theorem StandsAtPlace.le_length (h : StandsAtPlace part cs i) (hne : part ≠ []) :
    i + part.length ≤ cs.length := by
  have hlength := h.length_le
  have hpos := List.length_pos_iff.mpr hne
  rw [List.length_drop] at hlength
  omega

theorem StandsAtPlace.exists_eq (h : StandsAtPlace part cs i) (hne : part ≠ []) :
    ∃ front back, cs = front ++ (part ++ back) ∧ front.length = i := by
  have hle := h.le_length hne
  obtain ⟨back, hback⟩ := h
  refine ⟨cs.take i, back, ?_, ?_⟩
  · rw [hback, List.take_append_drop]
  · rw [List.length_take]
    omega

/-- The characters of a part stand where the part stands. -/
theorem StandsAtPlace.getElem? (h : StandsAtPlace part cs i) {k : Nat} (hk : k < part.length) :
    cs[i + k]? = part[k]? := by
  obtain ⟨back, hback⟩ := h
  rw [← List.getElem?_drop, ← hback, List.getElem?_append_left hk]

end Places

/-! ## The last place -/

section LastPlace

variable {part cs : List Char} {i : Nat}

theorem lastPlace?_spec (hne : part ≠ []) (cs : List Char) :
    match lastPlace? part cs with
    | some i => StandsAtPlace part cs i ∧ ∀ j, i < j → ¬StandsAtPlace part cs j
    | none => ∀ j, ¬StandsAtPlace part cs j := by
  have hnil : ∀ j, ¬StandsAtPlace part [] j := by
    intro j h
    have := h.le_length hne
    have := List.length_pos_iff.mpr hne
    rw [List.length_nil] at *
    omega
  induction cs with
  | nil =>
      rw [lastPlace?, if_neg (by simp [hne])]
      exact hnil
  | cons c cs ih =>
      rw [lastPlace?]
      cases hlast : lastPlace? part cs with
      | some i =>
          rw [hlast] at ih
          refine ⟨ih.1, fun j hj => ?_⟩
          obtain ⟨k, rfl⟩ : ∃ k, j = k + 1 := ⟨j - 1, by omega⟩
          exact ih.2 k (by omega)
      | none =>
          rw [hlast] at ih
          dsimp only
          by_cases hfirst : part.isPrefixOf (c :: cs) = true
          · rw [if_pos hfirst]
            refine ⟨List.isPrefixOf_iff_prefix.mp hfirst, fun j hj => ?_⟩
            obtain ⟨k, rfl⟩ : ∃ k, j = k + 1 := ⟨j - 1, by omega⟩
            exact ih k
          · rw [if_neg hfirst]
            intro j
            cases j with
            | zero => exact fun h => hfirst (List.isPrefixOf_iff_prefix.mpr h)
            | succ k => exact ih k

/-- It is a place of the part, and there is none behind it. -/
theorem lastPlace?_eq_some_iff (hne : part ≠ []) : lastPlace? part cs = some i
    ↔ StandsAtPlace part cs i ∧ ∀ j, i < j → ¬StandsAtPlace part cs j := by
  have hspec := lastPlace?_spec hne cs
  cases hlast : lastPlace? part cs with
  | none =>
      rw [hlast] at hspec
      exact ⟨fun h => (nomatch h), fun h => absurd h.1 (hspec i)⟩
  | some k =>
      rw [hlast] at hspec
      constructor
      · rintro ⟨⟩
        exact hspec
      · rintro ⟨hi, hlater⟩
        have hle : ¬k < i := fun hlt => hspec.2 i hlt hi
        have hge : ¬i < k := fun hlt => hlater k hlt hspec.1
        exact congrArg some (by omega)

theorem lastPlace?_eq_none_iff (hne : part ≠ []) :
    lastPlace? part cs = none ↔ ∀ j, ¬StandsAtPlace part cs j := by
  have hspec := lastPlace?_spec hne cs
  cases hlast : lastPlace? part cs with
  | none =>
      rw [hlast] at hspec
      exact ⟨fun _ => hspec, fun _ => rfl⟩
  | some k =>
      rw [hlast] at hspec
      exact ⟨fun h => (nomatch h), fun h => absurd hspec.1 (h k)⟩

end LastPlace

/-! ## The last separator -/

section LastSeparator

variable {sep : Char} {cs front back : List Char}

theorem cutAtLast?_append (h : sep ∉ back) :
    cutAtLast? sep (front ++ sep :: back) = some (front, back) := by
  have hbehind : ((front ++ sep :: back).reverse.takeWhile (· != sep)).length = back.length := by
    have hreverse : (front ++ sep :: back).reverse = back.reverse ++ sep :: front.reverse := by
      simp
    have hback : ∀ c ∈ back.reverse, (c != sep) = true := by
      intro c hc
      rw [bne_iff_ne]
      rintro rfl
      exact h (List.mem_reverse.mp hc)
    rw [hreverse, List.takeWhile_append_of_pos hback, List.takeWhile_cons_of_neg (by simp),
      List.append_nil, List.length_reverse]
  rw [cutAtLast?, if_pos (by simp)]
  dsimp only
  rw [hbehind]
  have htake : (front ++ sep :: back).length - back.length - 1 = front.length := by
    simp only [List.length_append, List.length_cons]
    omega
  have hdrop : (front ++ sep :: back).length - back.length = (front ++ [sep]).length := by
    simp only [List.length_append, List.length_cons, List.length_nil]
    omega
  have hsplit : front ++ sep :: back = (front ++ [sep]) ++ back := by simp
  rw [htake, hdrop, List.take_left, hsplit, List.drop_left]

theorem exists_cut_of_mem (h : sep ∈ cs) : ∃ front back, cs = front ++ sep :: back ∧ sep ∉ back := by
  obtain ⟨back, front, heq, hback⟩ := List.eq_append_cons_of_mem (List.mem_reverse.mpr h)
  refine ⟨front.reverse, back.reverse, ?_, fun hmem => hback (List.mem_reverse.mp hmem)⟩
  rw [← List.reverse_reverse cs, heq]
  simp

/-- Behind the cut there is no separator. -/
theorem cutAtLast?_eq_some_iff :
    cutAtLast? sep cs = some (front, back) ↔ cs = front ++ sep :: back ∧ sep ∉ back := by
  constructor
  · intro h
    have hmem : sep ∈ cs := by
      rw [cutAtLast?] at h
      split at h
      · exact List.contains_iff_mem.mp ‹_›
      · cases h
    obtain ⟨front', back', rfl, hback⟩ := exists_cut_of_mem hmem
    rw [cutAtLast?_append hback] at h
    cases h
    exact ⟨rfl, hback⟩
  · rintro ⟨rfl, hback⟩
    exact cutAtLast?_append hback

theorem cutAtLast?_eq_none_iff : cutAtLast? sep cs = none ↔ sep ∉ cs := by
  rw [cutAtLast?]
  split
  · rename_i hmem
    exact ⟨fun h => (nomatch h), fun h => absurd (List.contains_iff_mem.mp hmem) h⟩
  · rename_i hmem
    exact ⟨fun _ h => hmem (List.contains_iff_mem.mpr h), fun _ => rfl⟩

end LastSeparator

/-! ## Behind the last character of a kind -/

section BehindLast

variable (p : Char → Bool)

theorem behindLast_append_cons {c : Char} (hc : p c = true) (cs ds : List Char) :
    Language.behindLast p (cs ++ c :: ds) = Language.behindLast p ds := by
  have hstop : ((ds.reverse ++ c :: cs.reverse).takeWhile fun c => !p c)
      = ds.reverse.takeWhile fun c => !p c := by
    rw [List.takeWhile_append]
    split
    · rename_i hall
      rw [List.takeWhile_cons, hc, Bool.not_true, if_neg Bool.false_ne_true, List.append_nil]
      exact (List.IsPrefix.eq_of_length (List.takeWhile_prefix _) hall).symm
    · rfl
  simp only [Language.behindLast, List.reverse_append, List.reverse_cons, List.append_assoc,
    List.singleton_append, hstop]

theorem behindLast_of_forall {cs : List Char} (h : ∀ c ∈ cs, p c = false) :
    Language.behindLast p cs = cs := by
  have hkept : ∀ c ∈ cs.reverse, (!p c) = true := fun c hc => by simp [h c (List.mem_reverse.mp hc)]
  have hall : (cs.reverse ++ []).takeWhile (fun c => !p c) = cs.reverse ++ [] :=
    List.takeWhile_append_of_pos hkept
  rw [List.append_nil] at hall
  rw [Language.behindLast, hall, List.reverse_reverse]

/-- What stands behind the last character of a kind is not rewritten by a map
that rewrites only characters of the kind, and into such. -/
theorem behindLast_map (g : Char → Char) (hkind : ∀ c, p (g c) = p c)
    (hkeep : ∀ c, p c = false → g c = c) (cs : List Char) :
    Language.behindLast p (cs.map g) = Language.behindLast p cs := by
  have hnone : (fun c => !p (g c)) = fun c => !p c := by
    funext c
    rw [hkind]
  have hsame : ∀ c ∈ cs.reverse.takeWhile (fun c => !p c), g c = c := by
    intro c hc
    exact hkeep c (by simpa using List.all_eq_true.mp List.all_takeWhile c hc)
  rw [Language.behindLast, Language.behindLast, ← List.map_reverse, List.takeWhile_map,
    Function.comp_def, hnone, List.map_congr_left hsame, List.map_id']

end BehindLast

/-- The name of a file does not depend on how the path is written. -/
theorem behindLast_withSlashes (path : String) :
    Language.behindLast Language.isPathSeparator (withSlashes path)
      = Language.behindLast Language.isPathSeparator path.toList := by
  refine behindLast_map _ _ (fun c => ?_) (fun c hc => ?_) path.toList
  · by_cases hc : c = '\\'
    · subst hc
      rfl
    · rw [if_neg hc]
  · have hback : c ≠ '\\' := by
      rintro rfl
      exact absurd hc (by decide)
    rw [if_neg hback]

end CodeSurvey
