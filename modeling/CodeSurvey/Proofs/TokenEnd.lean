import CodeSurvey.Grammar.Lexeme
import CodeSurvey.Grammar.Form

/-!
# Where tokens end

Every scanner answers an offset at or behind the one that it was given, and none behind
the end of the text. One lemma for each of the two, by the recursion of the scanner;
`Shape.le_end`, `Shape.end_le` and the lemmas on trivia, operators and virtual semicolons
are what an induction over the reading of a text needs of them (`Proofs/Weight`,
`Proofs/TiledReading`).

That no token goes beyond the text has one reason: what stands behind the end is NUL, and
no scanner asks for that (`lt_size_of_kind`).
-/

namespace CodeSurvey

namespace Source

variable {s : Source} {i j : Nat}

/-! ## Words and numbers -/

theorem lt_unicodeEscapeEnd (h : s.unicodeEscapeEnd? i = some j) : i < j := by
  have hle := s.le_skipWhile isHexDigit (i + 3)
  unfold unicodeEscapeEnd? at h
  grind

theorem le_wordTailEnd (s : Source) (i : Nat) : i ≤ s.wordTailEnd i := by
  fun_induction wordTailEnd s i with
  | case1 i _ _ ih => omega
  | case2 i _ _ j _ hlt ih => omega
  | case3 => exact Nat.le_refl _
  | case4 => exact Nat.le_refl _
  | case5 => exact Nat.le_refl _

theorem lt_wordEnd (h : s.wordEnd? i = some j) : i < j := by
  unfold wordEnd? at h
  split at h
  · split at h
    · obtain rfl := Option.some.inj h
      exact s.le_wordTailEnd (i + 1)
    · obtain ⟨k, hk, rfl⟩ := Option.map_eq_some_iff.mp h
      exact Nat.lt_of_lt_of_le (lt_unicodeEscapeEnd hk) (s.le_wordTailEnd k)
  · cases h

theorem lt_digitsEnd {isDigit : Char → Bool} (h : s.digitsEnd? isDigit i = some j) : i < j := by
  fun_induction digitsEnd? s isDigit i generalizing j with
  | case1 => grind
  | case2 => grind
  | case3 => cases h

theorem lt_exponentEnd (h : s.exponentEnd? i = some j) : i < j := by
  unfold exponentEnd? at h
  grind [→ lt_digitsEnd]

theorem lt_integerEnd (h : s.integerEnd? i = some j) : i < j := by
  unfold integerEnd? at h
  grind [→ lt_digitsEnd]

theorem lt_of_mem_digitsEnd {isDigit : Char → Bool} {k : Nat} (hk : i ≤ k)
    (h : j ∈ (s.digitsEnd? isDigit k).toList) : i < j :=
  Nat.lt_of_le_of_lt hk (lt_digitsEnd (Option.mem_toList.mp h))

theorem lt_of_mem_exponentEnd {k : Nat} (hk : i < k) (h : j ∈ (s.exponentEnd? k).toList) : i < j :=
  Nat.lt_trans hk (lt_exponentEnd (Option.mem_toList.mp h))

theorem lt_of_mem_numberEnds (h : j ∈ s.numberEnds i) : i < j := by
  have hbased : ∀ {p : Prop} [Decidable p] {isDigit k},
      k ∈ (if p then (s.digitsEnd? isDigit (i + 2)).toList else []) → i < k := by
    intro p _ isDigit k hmem
    split at hmem
    · exact lt_of_mem_digitsEnd (by omega) hmem
    · cases hmem
  unfold numberEnds at h
  simp only [List.mem_append, List.mem_map, List.mem_filter] at h
  rcases h with ((hinteger | ⟨k, ⟨hinteger, -⟩, rfl⟩) | hpointed) | hfraction
  · rcases hinteger with ((h | h) | h) | h
    · exact hbased h
    · exact hbased h
    · exact hbased h
    · exact lt_of_mem_digitsEnd (Nat.le_refl i) h
  · refine Nat.lt_succ_of_lt ?_
    rcases hinteger with ((h | h) | h) | h
    · exact hbased h
    · exact hbased h
    · exact hbased h
    · exact lt_of_mem_digitsEnd (Nat.le_refl i) h
  · split at hpointed
    · cases hpointed
    · rename_i k hk
      have hlt := lt_integerEnd hk
      have hpoint : i < (s.digitsEnd? isAsciiDigit (k + 1)).getD (k + 1) := by
        cases hdigits : s.digitsEnd? isAsciiDigit (k + 1) with
        | none => exact Nat.lt_succ_of_lt hlt
        | some k' => exact Nat.lt_trans hlt (Nat.lt_of_succ_lt (lt_digitsEnd hdigits))
      grind [→ lt_of_mem_exponentEnd]
  · grind [→ lt_of_mem_exponentEnd, → lt_digitsEnd]

theorem lt_numberEnd (h : s.numberEnd? i = some j) : i < j := lt_of_mem_numberEnds (List.max?_mem h)

/-! ## Strings, templates and regular expressions -/

theorem lt_escapeEnd (h : s.escapeEnd? i = some j) : i < j := by
  unfold escapeEnd? at h
  grind [→ lt_unicodeEscapeEnd]

theorem lt_stringTailEnd {quote : Char} (h : s.stringTailEnd? quote i = some j) : i < j := by
  fun_induction stringTailEnd? s quote i <;> grind

theorem lt_stringEnd (h : s.stringEnd? i = some j) : i < j := by
  unfold stringEnd? at h
  grind [→ lt_stringTailEnd]

theorem le_regexPatternEnd (h : s.regexPatternEnd? i = some j) : i ≤ j := by
  fun_induction regexPatternEnd? s i <;> grind

theorem lt_regexEnd (h : s.regexEnd? i = some j) : i < j := by
  unfold regexEnd? at h
  grind [→ le_regexPatternEnd, le_skipWhile]

/-! ## Markup -/

theorem lt_characterReferenceEnd (h : s.characterReferenceEnd? i = some j) : i < j := by
  unfold characterReferenceEnd? at h
  grind [le_skipWhile]

theorem lt_markupStringTailEnd {quote : Char} (h : s.markupStringTailEnd? quote i = some j) :
    i < j := by
  fun_induction markupStringTailEnd? s quote i <;> grind

theorem lt_markupStringEnd (h : s.markupStringEnd? i = some j) : i < j := by
  unfold markupStringEnd? at h
  grind [→ lt_markupStringTailEnd]

theorem le_markupTextEnd (h : s.markupTextEnd? i = some j) : i ≤ j := by
  unfold markupTextEnd? at h
  grind [le_skipWhile]

theorem le_markupNameEnd (h : s.markupNameEnd? i = some j) : i ≤ j := by
  have hmem := List.max?_mem h
  grind [le_skipWhile, → lt_wordEnd]

end Source

/-- A token does not end before it begins. -/
theorem Shape.le_end {shape : Shape} {s : Source} {i j : Nat} (h : shape.end? s i = some j) :
    i ≤ j := by
  cases shape <;> simp only [Shape.end?] at h
  case word => exact Nat.le_of_lt (Source.lt_wordEnd h)
  case number => exact Nat.le_of_lt (Source.lt_numberEnd h)
  case string => exact Nat.le_of_lt (Source.lt_stringEnd h)
  case regex => exact Nat.le_of_lt (Source.lt_regexEnd h)
  case privateName => grind [→ Source.lt_wordEnd]
  case escape => exact Nat.le_of_lt (Source.lt_escapeEnd h)
  case templateChars => grind
  case markupText => exact Source.le_markupTextEnd h
  case markupString => exact Nat.le_of_lt (Source.lt_markupStringEnd h)
  case markupName => exact Source.le_markupNameEnd h
  case characterReference => exact Nat.le_of_lt (Source.lt_characterReferenceEnd h)
  case hashBangLine => grind [Source.le_skipWhile]

namespace Source

variable {s : Source} {i j : Nat}

/-! ## Between tokens -/

theorem le_skipTrivia (s : Source) (markup : Bool) (i : Nat) : i ≤ s.skipTrivia markup i := by
  fun_induction skipTrivia s markup i with
  | case1 i _ _ ih => omega
  | case2 i _ _ k j hc ih =>
      have hlt := lt_anyCommentEnd hc
      omega
  | case3 => exact Nat.le_refl _
  | case4 => exact Nat.le_refl _

theorem le_virtualSemicolon {d : Dialect} {afterOperand : Bool}
    (h : s.virtualSemicolon? d afterOperand i = some j) : i ≤ j := by
  fun_induction virtualSemicolon? s d afterOperand i with
  | case1 => exact Nat.le_of_eq (Option.some.inj h)
  | case2 i _ k' k hc _ ih =>
      have hlt := lt_commentEnd hc
      have hle := s.le_skipWhile isBlank i
      have := ih h
      omega
  | case3 => cases h
  | case4 => cases h

/-! ## Within the text -/

theorem lt_size_of_peek (h : s.peek i ≠ '\x00') : i < s.size := by
  unfold peek at h
  split at h
  · assumption
  · exact absurd rfl h

/-- Behind the end stands nothing that a scanner asks for. -/
theorem lt_size_of_kind {p : Char → Bool} (hp : p '\x00' = false) (h : p (s.peek i) = true) :
    i < s.size := by
  refine lt_size_of_peek fun hnul => ?_
  rw [hnul, hp] at h
  cases h

theorem lt_size_of_peek_eq {c : Char} (h : s.peek i = c) (hc : c ≠ '\x00') : i < s.size :=
  lt_size_of_peek (h ▸ hc)

theorem lt_size_of_isConditionalMark (h : s.isConditionalMark i = true) : i < s.size := by
  refine lt_size_of_peek fun hnul => ?_
  simp [isConditionalMark, hnul] at h

theorem unicodeEscapeEnd_le (h : s.unicodeEscapeEnd? i = some j) : j ≤ s.size := by
  unfold unicodeEscapeEnd? at h
  split at h
  · split at h
    · dsimp only at h
      split at h
      · rename_i hclose
        obtain rfl := Option.some.inj h
        exact lt_size_of_peek_eq (by simpa using (Bool.and_eq_true_iff.mp hclose).2) (by decide)
      · cases h
    · split at h
      · rename_i hdigits
        obtain rfl := Option.some.inj h
        have hdigit : isHexDigit (s.peek (i + 5)) = true :=
          List.all_eq_true.mp hdigits 3 (by decide)
        exact lt_size_of_kind (by decide) hdigit
      · cases h
  · cases h

theorem wordTailEnd_le (h : i ≤ s.size) : s.wordTailEnd i ≤ s.size := by
  fun_induction wordTailEnd s i with
  | case1 i hi _ ih => exact ih hi
  | case2 i _ _ j hj _ ih => exact ih (unicodeEscapeEnd_le hj)
  | case3 => exact h
  | case4 => exact h
  | case5 => exact h

theorem wordEnd_le (h : s.wordEnd? i = some j) : j ≤ s.size := by
  unfold wordEnd? at h
  split at h
  · rename_i hi
    split at h
    · obtain rfl := Option.some.inj h
      exact wordTailEnd_le hi
    · obtain ⟨k, hk, rfl⟩ := Option.map_eq_some_iff.mp h
      exact wordTailEnd_le (unicodeEscapeEnd_le hk)
  · cases h

theorem digitsEnd_le {isDigit : Char → Bool} (h : s.digitsEnd? isDigit i = some j) : j ≤ s.size := by
  fun_induction digitsEnd? s isDigit i generalizing j with
  | case1 => grind
  | case2 => grind
  | case3 => cases h

theorem exponentEnd_le (h : s.exponentEnd? i = some j) : j ≤ s.size := by
  unfold exponentEnd? at h
  grind [→ digitsEnd_le]

theorem le_size_of_mem_digitsEnd {isDigit : Char → Bool}
    (h : j ∈ (s.digitsEnd? isDigit i).toList) : j ≤ s.size :=
  digitsEnd_le (Option.mem_toList.mp h)

theorem le_size_of_mem_exponentEnd (h : j ∈ (s.exponentEnd? i).toList) : j ≤ s.size :=
  exponentEnd_le (Option.mem_toList.mp h)

theorem le_size_of_mem_numberEnds (h : j ∈ s.numberEnds i) : j ≤ s.size := by
  have hbased : ∀ {p : Prop} [Decidable p] {isDigit k},
      k ∈ (if p then (s.digitsEnd? isDigit (i + 2)).toList else []) → k ≤ s.size := by
    intro p _ isDigit k hmem
    split at hmem
    · exact le_size_of_mem_digitsEnd hmem
    · cases hmem
  have hpoint : ∀ k, s.peek k = '.' → (s.digitsEnd? isAsciiDigit (k + 1)).getD (k + 1) ≤ s.size := by
    intro k hk
    have hlt := lt_size_of_peek_eq hk (by decide)
    cases hdigits : s.digitsEnd? isAsciiDigit (k + 1) with
    | none => exact hlt
    | some k' => exact digitsEnd_le hdigits
  unfold numberEnds at h
  simp only [List.mem_append, List.mem_map, List.mem_filter] at h
  rcases h with ((hinteger | ⟨k, ⟨-, hk⟩, rfl⟩) | hpointed) | hfraction
  · rcases hinteger with ((h | h) | h) | h
    · exact hbased h
    · exact hbased h
    · exact hbased h
    · exact le_size_of_mem_digitsEnd h
  · exact lt_size_of_peek_eq (by simpa using hk) (by decide)
  · split at hpointed
    · cases hpointed
    · grind [→ le_size_of_mem_exponentEnd]
  · grind [→ le_size_of_mem_exponentEnd, → digitsEnd_le]

theorem numberEnd_le (h : s.numberEnd? i = some j) : j ≤ s.size :=
  le_size_of_mem_numberEnds (List.max?_mem h)

theorem escapeEnd_le (h : s.escapeEnd? i = some j) : j ≤ s.size := by
  have hhex : ∀ k, isHexDigit (s.peek k) = true → k < s.size :=
    fun k => lt_size_of_kind (by decide)
  have hbreak : ∀ k, isStatementBreak (s.peek k) = true → k < s.size :=
    fun k => lt_size_of_kind (by decide)
  have hoctal : ∀ k, isOctalDigit (s.peek k) = true → k < s.size :=
    fun k => lt_size_of_kind (by decide)
  have hdigits : i + 1 < s.size →
      i + 2 + ([2, 3].takeWhile fun k => isOctalDigit (s.peek (i + k))).length ≤ s.size := by
    intro hi
    simp only [List.takeWhile_cons, List.takeWhile_nil]
    grind
  unfold escapeEnd? at h
  grind [→ unicodeEscapeEnd_le]

theorem stringTailEnd_le {quote : Char} (h : s.stringTailEnd? quote i = some j) : j ≤ s.size := by
  fun_induction stringTailEnd? s quote i <;> grind

theorem stringEnd_le (h : s.stringEnd? i = some j) : j ≤ s.size := by
  unfold stringEnd? at h
  grind [→ stringTailEnd_le]

theorem templateCharsEnd_le (h : i ≤ s.size) : s.templateCharsEnd i ≤ s.size := by
  fun_induction templateCharsEnd s i <;> grind

theorem regexPatternEnd_lt (h : s.regexPatternEnd? i = some j) : j < s.size := by
  fun_induction regexPatternEnd? s i <;> grind

theorem regexEnd_le (h : s.regexEnd? i = some j) : j ≤ s.size := by
  unfold regexEnd? at h
  grind [→ regexPatternEnd_lt, skipWhile_le, size]

theorem characterReferenceEnd_le (h : s.characterReferenceEnd? i = some j) : j ≤ s.size := by
  have hclose : ∀ k, s.peek k = ';' → k + 1 ≤ s.size :=
    fun k hk => lt_size_of_peek_eq hk (by decide)
  unfold characterReferenceEnd? at h
  grind

theorem markupStringTailEnd_le {quote : Char} (h : s.markupStringTailEnd? quote i = some j) :
    j ≤ s.size := by
  fun_induction markupStringTailEnd? s quote i <;> grind

theorem markupStringEnd_le (h : s.markupStringEnd? i = some j) : j ≤ s.size := by
  unfold markupStringEnd? at h
  grind [→ markupStringTailEnd_le]

theorem markupTextEnd_le (hi : i ≤ s.size) (h : s.markupTextEnd? i = some j) : j ≤ s.size := by
  unfold markupTextEnd? at h
  grind [skipWhile_le, size]

theorem markupNameEnd_le (hi : i ≤ s.size) (h : s.markupNameEnd? i = some j) : j ≤ s.size := by
  have hmem := List.max?_mem h
  grind [skipWhile_le, size, → wordEnd_le]

end Source

/-- A token does not go beyond the text. -/
theorem Shape.end_le {shape : Shape} {s : Source} {i j : Nat} (hi : i ≤ s.size)
    (h : shape.end? s i = some j) : j ≤ s.size := by
  cases shape <;> simp only [Shape.end?] at h
  case word => exact Source.wordEnd_le h
  case number => exact Source.numberEnd_le h
  case string => exact Source.stringEnd_le h
  case regex => exact Source.regexEnd_le h
  case privateName => grind [→ Source.wordEnd_le]
  case escape => exact Source.escapeEnd_le h
  case templateChars => grind [Source.templateCharsEnd_le]
  case markupText => exact Source.markupTextEnd_le hi h
  case markupString => exact Source.markupStringEnd_le h
  case markupName => exact Source.markupNameEnd_le hi h
  case characterReference => exact Source.characterReferenceEnd_le h
  case hashBangLine =>
    split at h
    · obtain rfl := Option.some.inj h
      exact Source.skipWhile_le _ _ hi
    · cases h

namespace Source

variable {s : Source} {i j : Nat}

theorem le_of_startsWith {text : List Char} (hi : i ≤ s.size) (h : s.startsWith text i = true) :
    i + text.length ≤ s.size := by
  induction text generalizing i with
  | nil => exact hi
  | cons c cs ih =>
      rw [startsWith, Bool.and_eq_true, Bool.and_eq_true, decide_eq_true_eq] at h
      have := ih h.1.1 h.2
      rw [List.length_cons]
      omega

theorem length_slice_le (s : Source) {i : Nat} (hi : i ≤ s.size) (stop : Nat) :
    i + (s.slice i stop).length ≤ s.size := by
  rw [slice, String.length_ofList, Array.length_toList, Array.size_extract]
  unfold size at hi ⊢
  omega

/-- An operator is one of the known ones, written where it is found. -/
theorem of_operatorAt {text : String} (h : s.operatorAt? i = some text) :
    isOperatorChar (s.peek i) = true ∧ text ∈ operators ∧ ∃ stop, text = s.slice i stop := by
  unfold operatorAt? at h
  split at h
  · rename_i hchar
    obtain ⟨n, -, hn⟩ := List.exists_of_findSome?_eq_some h
    dsimp only at hn
    split at hn
    · rename_i hmem
      obtain rfl := Option.some.inj hn
      exact ⟨hchar, List.contains_iff_mem.mp (Bool.and_eq_true_iff.mp hmem).1, i + n, rfl⟩
    · cases hn
  · cases h

theorem operatorAt_le {text : String} (hi : i ≤ s.size) (h : s.operatorAt? i = some text) :
    i + text.length ≤ s.size := by
  obtain ⟨-, -, stop, rfl⟩ := of_operatorAt h
  exact s.length_slice_le hi stop

theorem blockCommentEnd_le (h : s.blockCommentEnd? i = some j) : j ≤ s.size := by
  fun_induction blockCommentEnd? s i <;> grind

theorem commentEnd_le (h : s.commentEnd? i = some j) : j ≤ s.size := by
  have hslash : s.peek (i + 1) = '/' → i + 2 ≤ s.size := fun h => lt_size_of_peek_eq h (by decide)
  unfold commentEnd? at h
  grind [→ blockCommentEnd_le, skipWhile_le, size]

theorem htmlCommentEnd_le (hi : i ≤ s.size) (h : s.htmlCommentEnd? i = some j) : j ≤ s.size := by
  simp only [htmlCommentEnd?] at h
  split at h
  · rename_i hstart
    obtain rfl := Option.some.inj h
    exact s.skipWhile_le _ (le_of_startsWith hi hstart)
  · split at h
    · rename_i hstart
      obtain rfl := Option.some.inj h
      exact s.skipWhile_le _ (le_of_startsWith hi hstart)
    · cases h

theorem anyCommentEnd_le {markup : Bool} {kind : NodeKind} (hi : i ≤ s.size)
    (h : s.anyCommentEnd? markup i = some (kind, j)) : j ≤ s.size := by
  unfold anyCommentEnd? at h
  split at h
  · rename_i hcomment
    cases h
    exact commentEnd_le hcomment
  · split at h
    · obtain ⟨k, hk, heq⟩ := Option.map_eq_some_iff.mp h
      cases heq
      exact htmlCommentEnd_le hi hk
    · cases h

theorem skipTrivia_le (markup : Bool) (hi : i ≤ s.size) : s.skipTrivia markup i ≤ s.size := by
  fun_induction skipTrivia s markup i with
  | case1 i hlt _ ih => exact ih hlt
  | case2 i _ _ k j hc ih => exact ih (anyCommentEnd_le hi hc)
  | case3 => exact hi
  | case4 => exact hi

theorem virtualSemicolon_le {d : Dialect} {afterOperand : Bool} (hi : i ≤ s.size)
    (h : s.virtualSemicolon? d afterOperand i = some j) : j ≤ s.size := by
  fun_induction virtualSemicolon? s d afterOperand i with
  | case1 i _ =>
      obtain rfl := Option.some.inj h
      exact hi
  | case2 i _ k' k _ hk ih => exact ih hk h
  | case3 => cases h
  | case4 => cases h

end Source

end CodeSurvey
