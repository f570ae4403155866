import CodeSurvey.Proofs.NextToken
import CodeSurvey.Proofs.TreeShape

/-!
# Arrow functions in one another

The texts `a=>a=>a||a||a`: `n` arrow functions, one in another, around a choice of
`m + 1` names. They are short, they are within the grammar, and every function in them
has all the decisions, so nothing keeps the complexities of one file small together
(`Proofs/TotalComplexity`).

A text is followed through the grammar from the inside to the outside: the names
(`ChoosesAt.operand`), the choice (`expression_choice`), the functions from the last one
to the first (`expression_arrow`), and the program (`program_arrow`). No comment finds a
gap in its tree (`Tree.Tiled`), so that tree is what the parser answers
(`parse_nestedArrows`).
-/

namespace CodeSurvey

/-! ## The texts -/

def nestedArrows : Nat → Nat → List Char
  | n + 1, m => 'a' :: '=' :: '>' :: nestedArrows n m
  | 0, m + 1 => 'a' :: '|' :: '|' :: nestedArrows 0 m
  | 0, 0 => ['a']

theorem length_nestedArrows (n m : Nat) : (nestedArrows n m).length = 3 * (n + m) + 1 := by
  fun_induction nestedArrows n m with
  | case1 n m ih => simp only [List.length_cons, ih]; omega
  | case2 m ih => simp only [List.length_cons, ih]; omega
  | case3 => rfl

theorem drop_choice (k m : Nat) : (nestedArrows 0 (k + m)).drop (3 * k) = nestedArrows 0 m := by
  induction k with
  | zero => simp
  | succ k ih =>
      have hcons : nestedArrows 0 (k + 1 + m) = 'a' :: '|' :: '|' :: nestedArrows 0 (k + m) := by
        rw [Nat.add_right_comm, nestedArrows]
      rw [hcons, show 3 * (k + 1) = 3 * k + 3 by omega]
      simpa using ih

/-! ## What stands at an offset -/

namespace Source

variable {s : Source} {i : Nat} {c : Char} {cs : List Char}

/-- The characters from an offset on. -/
def rest (s : Source) (i : Nat) : List Char := s.chars.toList.drop i

theorem size_of_rest (h : s.rest i = c :: cs) : s.size = i + cs.length + 1 := by
  have hlength := congrArg List.length h
  simp only [rest, List.length_drop, Array.length_toList, List.length_cons] at hlength
  unfold size
  omega

theorem lt_size_of_rest (h : s.rest i = c :: cs) : i < s.size := by
  have hsize := size_of_rest h
  omega

theorem peek_of_rest (h : s.rest i = c :: cs) : s.peek i = c := by
  have hi := lt_size_of_rest h
  have hget : s.chars.toList[i]? = some c := by
    rw [← List.head?_drop]
    exact congrArg List.head? h
  rw [Array.getElem?_toList, Array.getElem?_eq_getElem hi] at hget
  exact (dif_pos hi).trans (Option.some.inj hget)

theorem size_le_of_rest (h : s.rest i = []) : s.size ≤ i := by
  simpa [rest, size] using h

theorem rest_succ (h : s.rest i = c :: cs) : s.rest (i + 1) = cs := by
  rw [rest, ← List.drop_drop, ← rest, h]
  rfl

theorem slice_eq (s : Source) (i k : Nat) :
    s.slice i (i + k) = String.ofList ((s.rest i).take k) := by
  simp [slice, rest]

theorem wordEnd?_of_rest (h : s.rest i = c :: cs) (hstart : isWordStart c = true)
    (hcs : ∀ c' ∈ cs.head?, isWordChar c' = false ∧ c' ≠ '\\') : s.wordEnd? i = some (i + 1) := by
  have htail : s.wordTailEnd (i + 1) = i + 1 := by
    rw [wordTailEnd]
    split
    · rename_i hi
      cases cs with
      | nil =>
          rw [size_of_rest h, List.length_nil] at hi
          omega
      | cons c' cs =>
          have hpeek := peek_of_rest (rest_succ h)
          obtain ⟨hword, hescape⟩ := hcs c' rfl
          rw [hpeek, if_neg (by simp [hword])]
          simp [unicodeEscapeEnd?, hpeek, hescape]
    · rfl
  rw [wordEnd?, if_pos (lt_size_of_rest h), peek_of_rest h, if_pos hstart, htail]

/-- An operator of two characters ends in front of a letter. -/
theorem operatorAt?_of_rest {c' letter : Char} {text : String}
    (h : s.rest i = c :: c' :: letter :: cs) (htext : String.ofList [c, c'] = text)
    (hchar : isOperatorChar c = true) (hmem : operators.contains text = true)
    (hchain : (text == "?.") = false) (hletter : ∀ op ∈ operators, op.toList[2]? ≠ some letter) :
    s.operatorAt? i = some text := by
  have hlonger : ∀ k, operators.contains (s.slice i (i + (k + 3))) = false := by
    intro k
    rw [slice_eq, h]
    refine Bool.eq_false_iff.mpr fun hop => ?_
    refine hletter _ (List.contains_iff_mem.mp hop) ?_
    simp
  have htwo : s.slice i (i + 2) = text := by
    rw [slice_eq, h, ← htext]
    rfl
  rw [operatorAt?, peek_of_rest h, if_pos hchar]
  simp only [List.findSome?, hlonger 1, hlonger 0, htwo, hmem, hchain, Bool.false_and,
    Bool.false_eq_true, if_false, Bool.true_and, Bool.not_false, if_true]

end Source

/-! ## The tokens of these texts -/

def nameToken : NextToken := ⟨'a', some "a", none⟩

def arrowToken : NextToken := ⟨'=', none, some "=>"⟩

def choiceToken : NextToken := ⟨'|', none, some "||"⟩

section Tokens

variable {s : Source} {i : Nat}

theorem exists_nestedArrows (n m : Nat) : ∃ cs, nestedArrows n m = 'a' :: cs
    ∧ ∀ c ∈ cs.head?, isWordChar c = false ∧ c ≠ '\\' := by
  fun_cases nestedArrows n m with
  | case1 n =>
      refine ⟨_, rfl, ?_⟩
      rintro _ ⟨⟩
      decide
  | case2 m =>
      refine ⟨_, rfl, ?_⟩
      rintro _ ⟨⟩
      decide
  | case3 =>
      refine ⟨[], rfl, ?_⟩
      rintro _ ⟨⟩

theorem standsAt_name {n m : Nat} (h : s.rest i = nestedArrows n m) :
    nameToken.StandsAt s .javascript i ∧ s.wordEnd? i = some (i + 1) := by
  obtain ⟨cs, hcs, hend⟩ := exists_nestedArrows n m
  rw [hcs] at h
  have hword := Source.wordEnd?_of_rest h (by decide) hend
  refine ⟨.of_plain (by decide) (Source.lt_size_of_rest h) (Source.peek_of_rest h) ?_ ?_, hword⟩
  · rw [hword, Option.map_some, Source.slice_eq, h]
    rfl
  · rw [Source.operatorAt?, Source.peek_of_rest h]
    rfl

theorem operators_letter : ∀ op ∈ Source.operators, op.toList[2]? ≠ some 'a' := by
  decide +kernel

theorem standsAt_sign {n m : Nat} {c c' : Char} {text : String}
    (h : s.rest i = c :: c' :: nestedArrows n m) (htext : String.ofList [c, c'] = text)
    (hplain : NextToken.isPlainChar c = true) (hstart : isWordStart c = false ∧ c ≠ '\\')
    (hchar : Source.isOperatorChar c = true) (hmem : Source.operators.contains text = true)
    (hchain : (text == "?.") = false) :
    NextToken.StandsAt ⟨c, none, some text⟩ s .javascript i := by
  obtain ⟨cs, hcs, -⟩ := exists_nestedArrows n m
  rw [hcs] at h
  have hpeek := Source.peek_of_rest h
  refine .of_plain hplain (Source.lt_size_of_rest h) hpeek ?_ ?_
  · simp [Source.wordEnd?, Source.unicodeEscapeEnd?, hpeek, hstart]
  · exact Source.operatorAt?_of_rest h htext hchar hmem hchain operators_letter

theorem standsAt_arrow {n m : Nat} (h : s.rest i = '=' :: '>' :: nestedArrows n m) :
    arrowToken.StandsAt s .javascript i :=
  standsAt_sign h rfl (by decide) (by decide) (by decide) rfl (by decide)

theorem standsAt_choice {n m : Nat} (h : s.rest i = '|' :: '|' :: nestedArrows n m) :
    choiceToken.StandsAt s .javascript i :=
  standsAt_sign h rfl (by decide) (by decide) (by decide) rfl (by decide)

end Tokens

/-! ## Names -/

section Reading

/-- The mode in which these texts are read. -/
def plainMode : Mode := .ofDialect .javascript

/-- A rule is read in a text with so much depth. -/
abbrev readAt (src : Source) (depth : Nat) (r : Rule) (i : Nat) : Option (Option Match) :=
  plainRule Rule.form src depth r plainMode i

variable {src : Source} {i : Nat} {k : NextToken}

open Form

theorem word_name (hk : nameToken.StandsAt src .javascript i) (hend : src.wordEnd? i = some (i + 1))
    {call : Rule → Mode → Nat → Option (Option Match)} (kind : NodeKind) :
    (word kind).plain? call src plainMode i = some (some ⟨[.leaf kind i (i + 1)], i + 1⟩) := by
  simp [word, plain?, token?, Form.read, hk.skip, Shape.end?, hend]

/-- The leaf of a name. -/
def nameLeaf (i : Nat) : Tree := .leaf .identifier i (i + 1)

theorem identifier_name (hk : nameToken.StandsAt src .javascript i)
    (hend : src.wordEnd? i = some (i + 1)) {depth : Nat} (hdepth : glanceDepth ≤ depth) :
    identifier.plain? (plainRule Rule.form src depth) src plainMode i
      = some (some ⟨[nameLeaf i], i + 1⟩) :=
  plain?_seq (plain?_empty_of_glance hk rfl hdepth ⟨rfl, rfl⟩)
    (word_name hk hend .identifier)

/-- A name stands at an offset, and behind it another one to choose from or nothing. -/
structure ChoosesAt (src : Source) (i : Nat) : Prop where
  name : nameToken.StandsAt src .javascript i
  word : src.wordEnd? i = some (i + 1)
  next : ∃ k ∈ [choiceToken, .behind], k.StandsAt src .javascript (i + 1)

namespace ChoosesAt

variable (h : ChoosesAt src i)

include h

/-- A form that takes neither is not to be found behind the name. -/
theorem none_behind {depth : Nat} (hdepth : glanceDepth ≤ depth) {a : Form}
    (ha : ∀ k ∈ [choiceToken, .behind], a.keepsDialect = true
      ∧ a.glance (glanceRule Rule.form k glanceDepth) k plainMode = some false) :
    a.plain? (plainRule Rule.form src depth) src plainMode (i + 1) = some none := by
  obtain ⟨k, hmem, hk⟩ := h.next
  exact plain?_none_of_glance hk rfl hdepth (ha k hmem)

theorem primary (depth : Nat) :
    readAt src (depth + 11) .primary i = some (some ⟨[nameLeaf i], i + 1⟩) := by
  refine (plain?_alt_of_glance h.name rfl (Nat.le_add_left _ _) ⟨rfl, rfl⟩).trans ?_
  exact plain?_alt_left (identifier_name h.name h.word (Nat.le_add_left _ _))

theorem reach (depth : Nat) :
    readAt src (depth + 12) .reach i = some (some ⟨[nameLeaf i], i + 1⟩) :=
  plain?_chain (plain?_alt_left (h.primary depth))
    (h.none_behind (Nat.le_add_left _ (depth + 1)) (by decide +kernel))

/-- Nothing is assigned to the name. -/
theorem assignment (depth : Nat) : readAt src (depth + 13) .assignment i = some none := by
  have hreach : (ofKind assignable Rule.reach).plain? (plainRule Rule.form src (depth + 12)) src
      plainMode i = some (some ⟨[nameLeaf i], i + 1⟩) := plain?_ofKind (h.reach depth) rfl
  refine (plain?_alt_of_glance h.name rfl (Nat.le_add_left _ (depth + 2))
    ⟨rfl, rfl⟩).trans ?_
  refine (plain?_alt_right (plain?_node_none (plain?_seq_none
    (plain?_field rfl (plain?_alt_left hreach)) ?_))).trans ?_
  · exact h.none_behind (Nat.le_add_left _ (depth + 2)) (by decide +kernel)
  · refine plain?_node_none (plain?_seq_none (plain?_field rfl hreach) ?_)
    exact h.none_behind (Nat.le_add_left _ (depth + 2)) (by decide +kernel)

/-- The name is no parameter. -/
theorem arrowFunction (depth : Nat) : readAt src (depth + 13) .arrowFunction i = some none := by
  refine (plain?_alt_right (plain?_node_none (plain?_seq_none
    (plain?_field rfl (identifier_name h.name h.word (Nat.le_add_left _ (depth + 2))))
    ?_))).trans ?_
  · exact h.none_behind (Nat.le_add_left _ (depth + 2)) (by decide +kernel)
  · exact plain?_none_of_glance h.name rfl (Nat.le_add_left _ (depth + 2)) ⟨rfl, rfl⟩

theorem operand (depth : Nat) :
    readAt src (depth + 14) .operand i = some (some ⟨[nameLeaf i], i + 1⟩) := by
  refine (plain?_alt_right ?_).trans ((plain?_alt_right ?_).trans ?_)
  · exact h.arrowFunction depth
  · exact h.assignment depth
  repeat
    refine (plain?_alt_of_glance h.name rfl (Nat.le_add_left _ (depth + 3))
      ⟨rfl, rfl⟩).trans ?_
  exact plain?_alt_left (h.reach (depth + 1))

end ChoosesAt

/-- Nothing more is found at the end of the text. -/
theorem none_at_end {depth : Nat} (hdepth : glanceDepth ≤ depth) {a : Form}
    (ha : a.keepsDialect = true
      ∧ a.glance (glanceRule Rule.form .behind glanceDepth) .behind plainMode = some false) :
    a.plain? (plainRule Rule.form src depth) src plainMode src.size = some none :=
  plain?_none_of_glance (.of_le (Nat.le_refl _)) rfl hdepth ha

/-! ## The choice -/

theorem ChoosesAt.of_rest {m : Nat} (h : src.rest i = nestedArrows 0 m) : ChoosesAt src i := by
  obtain ⟨hname, hword⟩ := standsAt_name h
  refine ⟨hname, hword, ?_⟩
  cases m with
  | zero =>
      rw [nestedArrows] at h
      exact ⟨.behind, by simp, .of_le (Source.size_le_of_rest (Source.rest_succ h))⟩
  | succ m =>
      rw [nestedArrows] at h
      exact ⟨choiceToken, by simp, standsAt_choice (Source.rest_succ h)⟩

/-- The sign behind the `k`-th name of a choice, and the name that follows it. -/
def choicePair (b k : Nat) : Tree × Tree :=
  (.ofToken "||" (b + 3 * k + 1) (b + 3 * k + 3), nameLeaf (b + 3 * k + 3))

/-- The tree of a choice that begins at `b` and has so many signs. -/
def choiceTree (b : Nat) : Nat → Tree
  | 0 => nameLeaf b
  | k + 1 =>
    .node (.named .binaryExpression) none ⟨b, b + 3 * k + 4⟩
      [(choiceTree b k).withField .left, (choicePair b k).1.withField .operator,
        (choicePair b k).2.withField .right]

theorem span_choiceTree (b k : Nat) : (choiceTree b k).span = ⟨b, b + 3 * k + 1⟩ := by
  cases k with
  | zero => rfl
  | succ k => rfl

theorem close_choice (b k : Nat) : PendingOperation.close
    ⟨choiceTree b k, (choicePair b k).1, "||"⟩ (choicePair b k).2 = choiceTree b (k + 1) := by
  rw [PendingOperation.close, span_choiceTree]
  rfl

theorem group_cons {pending : List PendingOperation} {t operator right : Tree} {text : String}
    (h : operator.label = .token text) (rest : List (Tree × Tree)) :
    PendingOperation.group pending t ((operator, right) :: rest)
      = PendingOperation.group
        (⟨(PendingOperation.closeTighter (bindingOf text) pending t).2, operator, text⟩
          :: (PendingOperation.closeTighter (bindingOf text) pending t).1) right rest := by
  rw [PendingOperation.group, h]

/-- A choice is grouped from the left. -/
theorem group_choice (b k r : Nat) :
    PendingOperation.group [⟨choiceTree b k, (choicePair b k).1, "||"⟩] (choicePair b k).2
      ((List.range' (k + 1) r).map (choicePair b)) = choiceTree b (k + 1 + r) := by
  induction r generalizing k with
  | zero => exact close_choice b k
  | succ r ih =>
      have htighter : PendingOperation.closeTighter (bindingOf "||")
          [⟨choiceTree b k, (choicePair b k).1, "||"⟩] (choicePair b k).2
            = ([], choiceTree b (k + 1)) := by
        rw [← close_choice]
        simp [PendingOperation.closeTighter, bindingOf]
      rw [List.range'_succ, List.map_cons, group_cons rfl, htighter,
        show k + 1 + (r + 1) = k + 1 + 1 + r by omega]
      exact ih (k + 1)

theorem group_choicePairs (b m : Nat) :
    PendingOperation.group [] (nameLeaf b) ((List.range' 0 m).map (choicePair b))
      = choiceTree b m := by
  cases m with
  | zero => rfl
  | succ m =>
      rw [List.range'_succ, List.map_cons, group_cons rfl, Nat.add_comm m 1]
      exact group_choice b 0 m

section Choice

variable {b m : Nat} (h : src.rest b = nestedArrows 0 m)

include h

theorem rest_choice {k j : Nat} (hm : m = k + j) : src.rest (b + 3 * k) = nestedArrows 0 j := by
  rw [Source.rest, ← List.drop_drop, ← Source.rest, h, hm, drop_choice]

theorem size_choice : src.size = b + 3 * m + 1 := by
  have hrest : src.rest (b + 3 * m) = nestedArrows 0 0 := rest_choice h rfl
  rw [nestedArrows] at hrest
  exact Source.size_of_rest hrest

/-- The sign behind a name, with the next name. -/
theorem operationTail_choice {k : Nat} (hk : k < m) (depth : Nat) :
    operationTail.plain? (plainRule Rule.form src (depth + 14)) src plainMode (b + 3 * k + 1)
      = some (some ⟨[(choicePair b k).1, (choicePair b k).2], b + 3 * (k + 1) + 1⟩) := by
  obtain ⟨j, rfl⟩ : ∃ j, m = k + (j + 1) := ⟨m - k - 1, by omega⟩
  have hrest := rest_choice h rfl
  rw [nestedArrows] at hrest
  have hsign : src.rest (b + 3 * k + 1) = '|' :: '|' :: nestedArrows 0 j :=
    Source.rest_succ hrest
  have hname : src.rest (b + 3 * k + 3) = nestedArrows 0 j :=
    Source.rest_succ (Source.rest_succ hsign)
  have hoperand := (ChoosesAt.of_rest hname).operand depth
  rw [show b + 3 * (k + 1) + 1 = b + 3 * k + 3 + 1 by omega]
  exact plain?_alt_left (plain?_seq (y := ⟨[nameLeaf (b + 3 * k + 3)], b + 3 * k + 3 + 1⟩)
    (plain?_operator (standsAt_choice hsign) rfl rfl) hoperand)

theorem plainPairs_choice (k r : Nat) (hm : m = k + r) (depth fuel : Nat) (hfuel : r < fuel)
    (acc : List (Tree × Tree)) :
    plainPairs (operationTail.plain? (plainRule Rule.form src (depth + 14)) src plainMode) fuel
        (b + 3 * k + 1) acc
      = some (acc.reverse ++ (List.range' k r).map (choicePair b), src.size) := by
  obtain ⟨fuel, rfl⟩ : ∃ e, fuel = e + 1 := ⟨fuel - 1, by omega⟩
  induction r generalizing k fuel acc with
  | zero =>
      have hnone : operationTail.plain? (plainRule Rule.form src (depth + 14)) src plainMode
          src.size = some none := none_at_end (Nat.le_add_left _ (depth + 4)) ⟨rfl, rfl⟩
      rw [← Nat.add_zero k, ← hm, ← size_choice h, plainPairs, hnone]
      simp
  | succ r ih =>
      obtain ⟨fuel, rfl⟩ : ∃ e, fuel = e + 1 := ⟨fuel - 1, by omega⟩
      rw [plainPairs, operationTail_choice h (by omega), Option.bind_some]
      dsimp only
      rw [if_pos (by omega), ih (k + 1) (by omega) _ fuel (by omega), List.range'_succ]
      simp

/-- The choice is read as a whole. -/
theorem expression_choice (depth : Nat) :
    readAt src (depth + 15) .expression b = some (some ⟨[choiceTree b m], src.size⟩) := by
  have hsize := size_choice h
  have hpairs := plainPairs_choice h 0 m (Nat.zero_add m).symm depth (src.size + 1 - (b + 1))
    (by omega) []
  rw [← group_choicePairs]
  refine plain?_chain (plain?_operation ((ChoosesAt.of_rest h).operand depth) hpairs) ?_
  exact none_at_end (Nat.le_add_left _ (depth + 4)) ⟨rfl, rfl⟩

end Choice

/-! ## The functions -/

/-- The tree of so many functions around a choice, the first of which begins at an
offset. -/
def arrowTree (m : Nat) : Nat → Nat → Tree
  | 0, i => choiceTree i m
  | n + 1, i =>
    .node (.named .arrowFunction) none ⟨i, i + 3 * (n + 1 + m) + 1⟩
      [(nameLeaf i).withField .parameter, .ofToken "=>" (i + 1) (i + 3),
        (arrowTree m n (i + 3)).withField .body]

theorem span_arrowTree (m n i : Nat) : (arrowTree m n i).span = ⟨i, i + 3 * (n + m) + 1⟩ := by
  cases n with
  | zero => rw [arrowTree, span_choiceTree, Nat.zero_add]
  | succ n => rfl

theorem field_arrowTree (m n i : Nat) : (arrowTree m n i).field = none := by
  cases n with
  | zero => cases m <;> rfl
  | succ n => rfl

section Functions

variable {n m : Nat}

theorem size_nestedArrows (h : src.rest i = nestedArrows n m) : src.size = i + 3 * (n + m) + 1 := by
  obtain ⟨cs, hcs, -⟩ := exists_nestedArrows n m
  have hlength := length_nestedArrows n m
  rw [hcs, List.length_cons] at hlength
  rw [Source.size_of_rest (h.trans hcs)]
  omega

theorem operand_arrow (h : src.rest i = nestedArrows (n + 1) m) {depth : Nat}
    (hdepth : glanceDepth ≤ depth)
    (hbody : readAt src depth .expression (i + 3)
      = some (some ⟨[arrowTree m n (i + 3)], src.size⟩)) :
    readAt src (depth + 2) .operand i = some (some ⟨[arrowTree m (n + 1) i], src.size⟩) := by
  have hsize := size_nestedArrows h
  obtain ⟨hname, hword⟩ := standsAt_name h
  rw [nestedArrows] at h
  have hsign : src.rest (i + 1) = '=' :: '>' :: nestedArrows n m := Source.rest_succ h
  obtain ⟨hinner, -⟩ := standsAt_name (Source.rest_succ (Source.rest_succ hsign))
  have hblock : (alt Rule.bodyBlock Rule.expression).plain? (plainRule Rule.form src depth) src
      plainMode (i + 3) = some (some ⟨[arrowTree m n (i + 3)], src.size⟩) :=
    (plain?_alt_of_glance hinner rfl hdepth ⟨rfl, rfl⟩).trans hbody
  have harrow : (op "=>").plain? (plainRule Rule.form src depth) src plainMode (i + 1)
      = some (some ⟨[.ofToken "=>" (i + 1) (i + 3)], i + 3⟩) :=
    plain?_operator (standsAt_arrow hsign) rfl rfl
  have hparameter := plain?_field (f := .parameter) rfl (identifier_name hname hword hdepth)
  have hfunction := plain?_field (f := .body) (field_arrowTree m n (i + 3)) hblock
  rw [arrowTree, ← hsize]
  exact plain?_alt_left (plain?_alt_left
    (plain?_node (plain?_seq hparameter (plain?_seq harrow hfunction))))

/-- An operand that goes on to the end of the text is the expression. -/
theorem expression_of_operand {t : Tree} {depth : Nat} (hdepth : glanceDepth ≤ depth)
    (h : readAt src depth .operand i = some (some ⟨[t], src.size⟩)) :
    readAt src (depth + 1) .expression i = some (some ⟨[t], src.size⟩) := by
  have hend : operationTail.plain? (plainRule Rule.form src depth) src plainMode src.size
      = some none := none_at_end hdepth ⟨rfl, rfl⟩
  have hoperand : (Form.rule .operand).plain? (plainRule Rule.form src depth) src plainMode i
      = some (some ⟨[t], src.size⟩) := h
  have hpairs : plainPairs (operationTail.plain? (plainRule Rule.form src depth) src plainMode)
      (src.size + 1 - src.size) src.size [] = some ([], src.size) := by
    rw [Nat.add_sub_cancel_left, plainPairs, hend]
    rfl
  exact plain?_chain (plain?_operation hoperand hpairs) (none_at_end hdepth ⟨rfl, rfl⟩)

/-- A text of this form is an expression from the first function on. -/
theorem expression_arrow (h : src.rest i = nestedArrows n m) (depth : Nat) :
    readAt src (depth + 3 * n + 15) .expression i
      = some (some ⟨[arrowTree m n i], src.size⟩) := by
  induction n generalizing i with
  | zero => exact expression_choice h depth
  | succ n ih =>
      have hinner : src.rest (i + 3) = nestedArrows n m := by
        rw [nestedArrows] at h
        exact Source.rest_succ (Source.rest_succ (Source.rest_succ h))
      have hoperand := operand_arrow h (Nat.le_add_left _ (depth + 3 * n + 5)) (ih hinner)
      exact expression_of_operand (Nat.le_add_left _ (depth + 3 * n + 7)) hoperand

/-! ## The program -/

/-- The one statement of such a text. -/
def arrowStatement (n m : Nat) : Tree :=
  .node (.named .expressionStatement) none ⟨0, 3 * (n + m) + 1⟩ [arrowTree m n 0]

theorem exists_standsAt_behind (h : src.rest i = nestedArrows n m) :
    ∃ k ∈ [arrowToken, choiceToken, .behind], k.StandsAt src .javascript (i + 1) := by
  cases n with
  | zero =>
      obtain ⟨k, hmem, hk⟩ := (ChoosesAt.of_rest h).next
      exact ⟨k, List.mem_cons_of_mem _ hmem, hk⟩
  | succ n =>
      rw [nestedArrows] at h
      exact ⟨arrowToken, List.mem_cons_self, standsAt_arrow (Source.rest_succ h)⟩

/-- The first name is no label. -/
theorem labeledStatement_arrow (h : src.rest i = nestedArrows n m) {depth : Nat}
    (hdepth : glanceDepth ≤ depth) :
    labeledStatement.plain? (plainRule Rule.form src depth) src plainMode i = some none := by
  obtain ⟨hname, hword⟩ := standsAt_name h
  obtain ⟨k, hmem, hk⟩ := exists_standsAt_behind h
  refine plain?_node_none (plain?_seq_none
    (plain?_empty_of_glance hname rfl hdepth ⟨rfl, rfl⟩) (plain?_seq_none
      (plain?_empty_of_glance hname rfl hdepth ⟨rfl, rfl⟩) (plain?_seq_none
        (plain?_field rfl (word_name hname hword .statementIdentifier)) ?_)))
  refine plain?_none_of_glance hk rfl hdepth ?_
  clear hk
  revert k
  decide +kernel

theorem expressions_arrow (h : src.rest i = nestedArrows n m) (depth : Nat) :
    readAt src (depth + 3 * n + 16) .expressions i = some (some ⟨[arrowTree m n i], src.size⟩) := by
  have hexpression : (Form.rule .expression).plain? (plainRule Rule.form src (depth + 3 * n + 15))
      src plainMode i = some (some ⟨[arrowTree m n i], src.size⟩) := expression_arrow h depth
  refine (plain?_alt_right (plain?_node_none (plain?_seq_none hexpression ?_))).trans hexpression
  exact none_at_end (Nat.le_add_left _ (depth + 3 * n + 5)) ⟨rfl, rfl⟩

theorem statement_arrow (h : src.rest 0 = nestedArrows n m) (depth : Nat) :
    readAt src (depth + 3 * n + 17) .statement 0
      = some (some ⟨[arrowStatement n m], src.size⟩) := by
  obtain ⟨hname, hword⟩ := standsAt_name h
  have hsize := size_nestedArrows h
  have hexpressions : (Form.rule .expressions).plain? (plainRule Rule.form src (depth + 3 * n + 16))
      src plainMode 0 = some (some ⟨[arrowTree m n 0], src.size⟩) := expressions_arrow h depth
  have hdepth : glanceDepth ≤ depth + 3 * n + 16 := Nat.le_add_left _ (depth + 3 * n + 6)
  have hstatement : expressionStatement.plain? (plainRule Rule.form src (depth + 3 * n + 16)) src
      plainMode 0 = some (some ⟨[.node (.named .expressionStatement) none
        ⟨(arrowTree m n 0).span.start, src.size⟩ [arrowTree m n 0]], src.size⟩) :=
    plain?_node (plain?_seq (plain?_empty_of_glance hname rfl hdepth ⟨rfl, rfl⟩)
      (plain?_seq (plain?_empty_of_glance hname rfl hdepth ⟨rfl, rfl⟩)
        (plain?_seq hexpressions
          (plain?_empty_of_glance (.of_le (Nat.le_refl _)) rfl hdepth ⟨rfl, rfl⟩))))
  rw [span_arrowTree, hsize, Nat.zero_add] at hstatement
  rw [hsize, Nat.zero_add]
  repeat
    refine (plain?_alt_of_glance hname rfl hdepth ⟨rfl, rfl⟩).trans ?_
  exact (plain?_alt_right (labeledStatement_arrow h hdepth)).trans hstatement

/-- The tree of such a text. -/
def arrowProgram (n m : Nat) : Tree :=
  .node (.named .program) none ⟨0, 3 * (n + m) + 1⟩ [arrowStatement n m]

theorem program_arrow (h : src.rest 0 = nestedArrows n m) :
    readAt src (3 * n + 18) .program 0 = some (some ⟨[arrowProgram n m], src.size⟩) := by
  obtain ⟨hname, -⟩ := standsAt_name h
  have hsize := size_nestedArrows h
  have hdepth : glanceDepth ≤ 3 * n + 17 := Nat.le_add_left _ (3 * n + 7)
  have hstatement : (Form.rule .statement).plain? (plainRule Rule.form src (3 * n + 17)) src
      plainMode 0 = some (some ⟨[arrowStatement n m], src.size⟩) := by
    have hread := statement_arrow h 0
    rw [Nat.zero_add] at hread
    exact hread
  have hend : (Form.rule .statement).plain? (plainRule Rule.form src (3 * n + 17)) src plainMode
      src.size = some none := none_at_end hdepth ⟨rfl, rfl⟩
  have hmany : (many Rule.statement).plain? (plainRule Rule.form src (3 * n + 17)) src plainMode 0
      = some (some ⟨[arrowStatement n m], src.size⟩) := by
    obtain ⟨fuel, hfuel⟩ : ∃ e, src.size + 1 - 0 = e + 2 := ⟨src.size - 1, by omega⟩
    rw [plain?, hfuel, plainIterate, hstatement, Option.bind_some]
    dsimp only
    rw [if_pos (by omega), plainIterate, hend]
    rfl
  have hprogram : readAt src (3 * n + 18) .program 0 = some (some ⟨[.node (.named .program) none
      ⟨(arrowStatement n m).span.start, src.size⟩ [arrowStatement n m]], src.size⟩) :=
    plain?_node (plain?_seq (plain?_empty_of_glance hname rfl hdepth ⟨rfl, rfl⟩)
      (plain?_seq hmany
        (plain?_empty_of_glance (.of_le (Nat.le_refl _)) rfl hdepth ⟨rfl, rfl⟩)))
  rw [hprogram, hsize, Nat.zero_add]
  rfl

end Functions

end Reading

/-! ## The tree -/

namespace Tree

mutual

/-- No node leaves room for a comment between its children. -/
def Tiled : Tree → Prop
  | .node _ _ _ [] => True
  | .node _ _ s (c :: cs) => TiledAmong s.start s.stop (c :: cs)

def TiledAmong (i stop : Nat) : List Tree → Prop
  | [] => i = stop
  | t :: ts => t.span.start = i ∧ t.Tiled ∧ TiledAmong t.span.stop stop ts

end

theorem commentsBetween_self (src : Source) (i : Nat) : src.commentsBetween i i = [] := by
  rw [Source.commentsBetween, dif_neg (Nat.lt_irrefl i)]

mutual

theorem placeComments_of_tiled (src : Source) : (t : Tree) → t.Tiled → t.placeComments src = t
  | .node _ _ _ [], _ => rfl
  | .node l f s (c :: cs), h =>
    congrArg (Tree.node l f s) (placeCommentsAmong_of_tiled src s.start s.stop (c :: cs) h)

theorem placeCommentsAmong_of_tiled (src : Source) (i stop : Nat) :
    (ts : List Tree) → TiledAmong i stop ts → placeCommentsAmong src i stop ts = ts
  | [], h => by
    obtain rfl : i = stop := h
    exact commentsBetween_self src i
  | t :: ts, h => by
    obtain ⟨rfl, ht, hts⟩ := h
    rw [placeCommentsAmong, commentsBetween_self, placeComments_of_tiled src t ht,
      placeCommentsAmong_of_tiled src t.span.stop stop ts hts]
    rfl

end

theorem tiled_withField (f : Field) (t : Tree) : (t.withField f).Tiled ↔ t.Tiled := by
  obtain ⟨l, g, s, cs⟩ := t
  cases cs <;> rfl

end Tree

theorem tiled_choiceTree (b m : Nat) : (choiceTree b m).Tiled := by
  induction m with
  | zero => trivial
  | succ m ih =>
      refine ⟨?_, ?_, ?_, trivial, rfl, trivial, rfl⟩
      · rw [Tree.span_withField, span_choiceTree]
      · exact (Tree.tiled_withField _ _).mpr ih
      · show b + 3 * m + 1 = ((choiceTree b m).withField .left).span.stop
        rw [Tree.span_withField, span_choiceTree]

theorem tiled_arrowTree (m n i : Nat) : (arrowTree m n i).Tiled := by
  induction n generalizing i with
  | zero => exact tiled_choiceTree i m
  | succ n ih =>
      refine ⟨rfl, trivial, rfl, trivial, ?_, ?_, ?_⟩
      · rw [Tree.span_withField, span_arrowTree]
        rfl
      · exact (Tree.tiled_withField _ _).mpr (ih (i + 3))
      · show (Tree.withField _ _).span.stop = i + 3 * (n + 1 + m) + 1
        rw [Tree.span_withField, span_arrowTree]
        show i + 3 + 3 * (n + m) + 1 = _
        omega

/-- The source with one of these texts. -/
def arrowSource (n m : Nat) : Source := ⟨(nestedArrows n m).toArray⟩

theorem parse_nestedArrows (n m : Nat) :
    (arrowSource n m).parse .javascript = arrowProgram n m := by
  have hrest : (arrowSource n m).rest 0 = nestedArrows n m := rfl
  have hsize := size_nestedArrows hrest
  rw [Nat.zero_add] at hsize
  have hread : ((arrowSource n m).readProgram .javascript).1
      = some ⟨[arrowProgram n m], (arrowSource n m).size⟩ := by
    refine Source.readProgram_of_plainRule ?_ (program_arrow hrest)
    unfold Source.ruleDepth
    omega
  have htiled : Tree.TiledAmong 0 (3 * (n + m) + 1) [arrowStatement n m] := by
    refine ⟨rfl, ⟨?_, tiled_arrowTree m n 0, ?_⟩, rfl⟩
    · rw [span_arrowTree]
    · show (arrowTree m n 0).span.stop = 3 * (n + m) + 1
      rw [span_arrowTree, Nat.zero_add]
  rw [Source.parse]
  rcases hprogram : (arrowSource n m).readProgram .javascript with ⟨found, notes⟩
  rw [hprogram] at hread
  obtain rfl : found = _ := hread
  show Tree.node _ none _ (Tree.placeCommentsAmong _ 0 _ [arrowStatement n m]) = _
  rw [hsize, Tree.placeCommentsAmong_of_tiled _ _ _ _ htiled]
  rfl

end CodeSurvey
