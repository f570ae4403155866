import CodeSurvey.Proofs.RouteParts

/-!
# How a segment is written

Three ways of writing the name of a directory mean something in a route: a group in
parentheses, a name in brackets, and a name behind three dots, in one pair of brackets or
in two. `Route.ByConvention` says what each is to contribute, and that every other segment
is copied.

The three searches are each pinned down by what they answer (`isGroup_iff`,
`catchAll?_eq_some_iff`, `dynamic?_eq_some_iff`), so the convention is a matter of which
texts are told apart by their brackets. There is one way of writing that the searches take
for another: the brackets at the end of a name behind three dots are not counted against
those at its front (`IsLopsided`). This is the only difference
(`segment?_byConvention_iff`), and it is real (`not_byConvention_oneBracketMore`).
-/

namespace CodeSurvey

namespace Route

/-! ## The forms of a segment -/

/-- What stands in brackets: a text that is not empty and has none. -/
structure IsName (x : List Char) : Prop where
  nonempty : x ≠ []
  no_bracket : ∀ c ∈ x, isBracket c = false

/-- A group: a text without parentheses in a pair of them. -/
def IsGroup (s : List Char) : Prop :=
  ∃ g, s = '(' :: (g ++ [')']) ∧ ∀ c ∈ g, isParenthesis c = false

/-- The name `x` in a pair of brackets. -/
def IsDynamic (s x : List Char) : Prop := IsName x ∧ s = '[' :: (x ++ [']'])

/-- The name `x` behind three dots, with so many brackets in front and so many behind. -/
def IsCatchAll (opening closing : Nat) (s x : List Char) : Prop :=
  IsName x ∧ s = List.replicate opening '[' ++ ['.', '.', '.'] ++ x ++ List.replicate closing ']'

/-- The name `x` behind three dots in one pair of brackets or in two. -/
def IsBalanced (s x : List Char) : Prop := IsCatchAll 1 1 s x ∨ IsCatchAll 2 2 s x

/-- The name `x` behind three dots with one bracket too many on one side. -/
def IsLopsided (s x : List Char) : Prop := IsCatchAll 1 2 s x ∨ IsCatchAll 2 1 s x

/-- What a segment contributes to a route by the conventions for the names of
directories. -/
inductive ByConvention : List Char → Option (List Char) → Prop where
  | group {s : List Char} (h : IsGroup s) : ByConvention s none
  | catchAll {s x : List Char} (h : IsBalanced s x) : ByConvention s (some (':' :: (x ++ ['*'])))
  | dynamic {s x : List Char} (h : IsDynamic s x) (hdots : ∀ y, ¬IsBalanced s y) :
    ByConvention s (some (':' :: x))
  | copied {s : List Char} (hgroup : ¬IsGroup s) (hdots : ∀ y, ¬IsBalanced s y)
    (hname : ∀ x, ¬IsDynamic s x) : ByConvention s (some s)

/-! ## The searches -/

section Search

variable {cs s x rest : List Char}

theorem name?_of_isName (h : IsName x) (hrest : ∀ c ∈ rest.head?, isBracket c = true) :
    name? (x ++ rest) = some (x, rest) := by
  have htake : (x ++ rest).takeWhile (fun c => !isBracket c) = x := by
    rw [List.takeWhile_append_of_pos fun c hc => by simp [h.no_bracket c hc]]
    cases rest with
    | nil => simp
    | cons c rest =>
        have hc := hrest c rfl
        rw [List.takeWhile_cons_of_neg (by simp [hc]), List.append_nil]
  unfold name?
  dsimp only
  rw [htake, if_neg (by simpa using h.nonempty), List.drop_left]

/-- The search for a name takes all up to the first bracket. -/
theorem isName_of_name? (h : name? cs = some (x, rest)) : IsName x ∧ cs = x ++ rest := by
  unfold name? at h
  dsimp only at h
  split at h
  · cases h
  · rename_i hne
    obtain ⟨rfl, rfl⟩ := Prod.mk.inj (Option.some.inj h)
    refine ⟨⟨by simpa using hne, fun c hc => ?_⟩, ?_⟩
    · simpa using List.all_eq_true.mp List.all_takeWhile c hc
    · have hprefix := List.takeWhile_prefix (fun c => !isBracket c) (l := cs)
      exact (List.prefix_iff_eq_append.mp hprefix).symm

theorem isGroup_eq_true_iff : isGroup s = true ↔ IsGroup s := isGroup_iff

theorem dynamic?_eq_some_iff : dynamic? s = some x ↔ IsDynamic s x := by
  have hbracket : ∀ c ∈ [']'].head?, isBracket c = true := by
    rintro _ ⟨⟩
    rfl
  unfold dynamic?
  split
  · rename_i cs
    split
    · rename_i name hname
      obtain ⟨h, rfl⟩ := isName_of_name? hname
      constructor
      · rintro ⟨⟩
        exact ⟨h, rfl⟩
      · rintro ⟨h', heq⟩
        exact congrArg some (List.append_cancel_right (List.cons.inj heq).2)
    · rename_i hnone
      refine ⟨fun h => (nomatch h), ?_⟩
      rintro ⟨h, heq⟩
      rw [(List.cons.inj heq).2] at hnone
      exact absurd (name?_of_isName h hbracket) (hnone x)
  · rename_i hother
    refine ⟨fun h => (nomatch h), ?_⟩
    rintro ⟨-, heq⟩
    exact absurd heq (hother _)

/-- Behind a name there are brackets. -/
theorem name?_replicate (h : IsName x) (n : Nat) :
    name? (x ++ List.replicate n ']') = some (x, List.replicate n ']') := by
  refine name?_of_isName h fun c hc => ?_
  obtain rfl := List.eq_of_mem_replicate (List.mem_of_mem_head? hc)
  rfl

theorem catchAll?_of_name?
    (hs : s = '[' :: '.' :: '.' :: '.' :: cs ∨ s = '[' :: '[' :: '.' :: '.' :: '.' :: cs)
    (h : name? cs = some (x, rest)) (hrest : rest = [']'] ∨ rest = [']', ']']) :
    catchAll? s = some x := by
  rcases hs with rfl | rfl <;> rcases hrest with rfl | rfl <;> simp only [catchAll?, h]

/-- The search for a name behind dots counts no brackets. -/
theorem catchAll?_eq_some_iff : catchAll? s = some x ↔ IsBalanced s x ∨ IsLopsided s x := by
  constructor
  · intro h
    unfold catchAll? at h
    dsimp only at h
    split at h
    · rename_i name hinner
      obtain rfl := Option.some.inj h
      split at hinner
      · obtain ⟨hname, rfl⟩ := isName_of_name? hinner
        exact .inr (.inr ⟨hname, rfl⟩)
      · obtain ⟨hname, rfl⟩ := isName_of_name? hinner
        exact .inl (.inl ⟨hname, rfl⟩)
      · cases hinner
    · rename_i name hinner
      obtain rfl := Option.some.inj h
      split at hinner
      · obtain ⟨hname, rfl⟩ := isName_of_name? hinner
        exact .inl (.inr ⟨hname, rfl⟩)
      · obtain ⟨hname, rfl⟩ := isName_of_name? hinner
        exact .inr (.inl ⟨hname, rfl⟩)
      · cases hinner
    · cases h
  · rintro ((⟨h, rfl⟩ | ⟨h, rfl⟩) | (⟨h, rfl⟩ | ⟨h, rfl⟩))
    · exact catchAll?_of_name? (.inl rfl) (name?_replicate h 1) (.inl rfl)
    · exact catchAll?_of_name? (.inr rfl) (name?_replicate h 2) (.inr rfl)
    · exact catchAll?_of_name? (.inl rfl) (name?_replicate h 2) (.inr rfl)
    · exact catchAll?_of_name? (.inr rfl) (name?_replicate h 1) (.inl rfl)

end Search

/-! ## Which form a text has -/

section Forms

variable {s x y : List Char} {m n m' n' : Nat}

/-- A name and the brackets behind it are told from one another. -/
theorem name_replicate_inj (hx : IsName x) (hy : IsName y)
    (h : x ++ List.replicate n ']' = y ++ List.replicate n' ']') : x = y ∧ n = n' := by
  have hread := name?_replicate hx n
  rw [h, name?_replicate hy n'] at hread
  obtain ⟨hname, hbrackets⟩ := Prod.mk.inj (Option.some.inj hread)
  have hlength := congrArg List.length hbrackets
  rw [List.length_replicate, List.length_replicate] at hlength
  exact ⟨hname.symm, hlength.symm⟩

theorem replicate_append_inj {c d : Char} (hne : c ≠ d) {cs ds : List Char}
    (h : List.replicate m c ++ d :: cs = List.replicate m' c ++ d :: ds) : m = m' ∧ cs = ds := by
  induction m generalizing m' with
  | zero =>
      cases m' with
      | zero => exact ⟨rfl, (List.cons.inj h).2⟩
      | succ m' => exact absurd (List.cons.inj h).1.symm hne
  | succ m ih =>
      cases m' with
      | zero => exact absurd (List.cons.inj h).1 hne
      | succ m' =>
          obtain ⟨rfl, hcs⟩ := ih (List.cons.inj h).2
          exact ⟨rfl, hcs⟩

/-- The brackets on either side of a name behind dots can be counted. -/
theorem IsCatchAll.unique (h : IsCatchAll m n s x) (h' : IsCatchAll m' n' s y) :
    m = m' ∧ n = n' ∧ x = y := by
  obtain ⟨hx, rfl⟩ := h
  obtain ⟨hy, heq⟩ := h'
  simp only [List.append_assoc, List.cons_append, List.nil_append] at heq
  obtain ⟨hopening, hbehind⟩ := replicate_append_inj (by decide) heq
  obtain ⟨hname, hclosing⟩ := name_replicate_inj hx hy (List.cons.inj (List.cons.inj hbehind).2).2
  exact ⟨hopening, hclosing, hname⟩

theorem IsBalanced.unique (h : IsBalanced s x) (h' : IsBalanced s y) : x = y := by
  rcases h with h | h <;> rcases h' with h' | h' <;> exact (h.unique h').2.2

theorem IsLopsided.not_isBalanced (h : IsLopsided s x) : ¬IsBalanced s y := by
  intro h'
  rcases h with h | h <;> rcases h' with h' | h'
  · exact absurd (h.unique h').2.1 (by decide)
  · exact absurd (h.unique h').1 (by decide)
  · exact absurd (h.unique h').1 (by decide)
  · exact absurd (h.unique h').2.1 (by decide)

theorem IsDynamic.unique (h : IsDynamic s x) (h' : IsDynamic s y) : x = y := by
  obtain ⟨-, rfl⟩ := h
  exact List.append_cancel_right (List.cons.inj h'.2).2

/-- Dots and a name in one pair of brackets are a name of their own, so a text that is
lopsided is no name in brackets. -/
theorem IsLopsided.not_isDynamic (h : IsLopsided s x) : ¬IsDynamic s y := by
  rintro ⟨hy, heq⟩
  have hclosing : ∀ k, y = '.' :: '.' :: '.' :: (x ++ List.replicate k ']') → k = 0 := by
    intro k hk
    cases k with
    | zero => rfl
    | succ k =>
        have hmem : ']' ∈ y := by simp [hk]
        exact absurd (hy.no_bracket _ hmem) (by decide)
  rcases h with ⟨-, rfl⟩ | ⟨-, rfl⟩
  · have hinner : y ++ [']'] = '.' :: '.' :: '.' :: (x ++ List.replicate 1 ']') ++ [']'] := by
      simpa using (List.cons.inj heq).2.symm
    exact absurd (hclosing 1 (List.append_cancel_right hinner)) (by decide)
  · have hopening : '[' ∈ y := by
      obtain ⟨c, y, rfl⟩ := List.exists_cons_of_ne_nil hy.nonempty
      have hfirst : '[' = c := (List.cons.inj (List.cons.inj heq).2).1
      exact hfirst ▸ List.mem_cons_self
    exact absurd (hy.no_bracket _ hopening) (by decide)

theorem IsGroup.not_cons (h : IsGroup ('[' :: s)) : False := by
  obtain ⟨g, heq, -⟩ := h
  exact absurd (List.cons.inj heq).1 (by decide)

theorem IsGroup.not_isCatchAll (h : IsGroup s) : ¬IsCatchAll (m + 1) n s x := by
  rintro ⟨-, rfl⟩
  exact IsGroup.not_cons h

theorem IsGroup.not_isBalanced (h : IsGroup s) : ¬IsBalanced s x := by
  rintro (h' | h')
  · exact h.not_isCatchAll h'
  · exact h.not_isCatchAll h'

theorem IsGroup.not_isLopsided (h : IsGroup s) : ¬IsLopsided s x := by
  rintro (h' | h')
  · exact h.not_isCatchAll h'
  · exact h.not_isCatchAll h'

theorem IsGroup.not_isDynamic (h : IsGroup s) : ¬IsDynamic s x := by
  rintro ⟨-, rfl⟩
  exact IsGroup.not_cons h

end Forms

/-! ## The convention -/

variable {s x : List Char} {r r' : Option (List Char)}

/-- The convention leaves no choice. -/
theorem ByConvention.unique (h : ByConvention s r) (h' : ByConvention s r') : r = r' := by
  cases h with
  | group h =>
      cases h' with
      | group _ => rfl
      | catchAll h' => exact absurd h' h.not_isBalanced
      | dynamic h' _ => exact absurd h' h.not_isDynamic
      | copied hgroup _ _ => exact absurd h hgroup
  | catchAll h =>
      cases h' with
      | group h' => exact absurd h h'.not_isBalanced
      | catchAll h' => rw [h.unique h']
      | dynamic _ hdots => exact absurd h (hdots _)
      | copied _ hdots _ => exact absurd h (hdots _)
  | dynamic h hdots =>
      cases h' with
      | group h' => exact absurd h h'.not_isDynamic
      | catchAll h' => exact absurd h' (hdots _)
      | dynamic h' _ => rw [h.unique h']
      | copied _ _ hname => exact absurd h (hname _)
  | copied hgroup hdots hname =>
      cases h' with
      | group h' => exact absurd h' hgroup
      | catchAll h' => exact absurd h' (hdots _)
      | dynamic h' _ => exact absurd h' (hname _)
      | copied _ _ _ => rfl

theorem IsLopsided.byConvention (h : IsLopsided s x) : ByConvention s (some s) :=
  .copied (fun hgroup => hgroup.not_isLopsided h) (fun _ => h.not_isBalanced)
    (fun _ => h.not_isDynamic)

theorem segment?_of_isLopsided (h : IsLopsided s x) :
    segment? s = some (':' :: (x ++ ['*'])) := by
  have hgroup : isGroup s ≠ true := fun hs => (isGroup_eq_true_iff.mp hs).not_isLopsided h
  rw [segment?, if_neg hgroup, catchAll?_eq_some_iff.mpr (.inr h)]
  rfl

/-- A lopsided segment contributes what it should not: the convention copies it. -/
theorem IsLopsided.not_byConvention (h : IsLopsided s x) : ¬ByConvention s (segment? s) := by
  intro hs
  have heq := hs.unique h.byConvention
  rw [segment?_of_isLopsided h] at heq
  rcases h with ⟨-, rfl⟩ | ⟨-, rfl⟩
  · exact absurd (List.cons.inj (Option.some.inj heq)).1 (by decide)
  · exact absurd (List.cons.inj (Option.some.inj heq)).1 (by decide)

theorem byConvention_segment? (h : ∀ x, ¬IsLopsided s x) : ByConvention s (segment? s) := by
  unfold segment?
  split
  · rename_i hgroup
    exact .group (isGroup_eq_true_iff.mp hgroup)
  · rename_i hgroup
    split
    · rename_i name hname
      exact .catchAll ((catchAll?_eq_some_iff.mp hname).resolve_right (h name))
    · rename_i hnone
      have hdots : ∀ y, ¬IsBalanced s y := by
        intro y hy
        rw [catchAll?_eq_some_iff.mpr (.inl hy)] at hnone
        cases hnone
      split
      · rename_i name hname
        exact .dynamic (dynamic?_eq_some_iff.mp hname) hdots
      · rename_i hother
        refine .copied (fun hs => hgroup (isGroup_eq_true_iff.mpr hs)) hdots fun y hy => ?_
        rw [dynamic?_eq_some_iff.mpr hy] at hother
        cases hother

/-- What a segment contributes is what the convention says, and nothing else, for all
segments but those in which a name behind dots has a bracket too many on one side. The
convention copies these, and they are taken for balanced. -/
theorem segment?_byConvention_iff (s : List Char) :
    ((∀ r, ByConvention s r ↔ segment? s = r) ↔ ∀ x, ¬IsLopsided s x)
      ∧ ∀ x, IsLopsided s x →
        ByConvention s (some s) ∧ segment? s = some (':' :: (x ++ ['*'])) := by
  refine ⟨⟨fun h x hx => ?_, fun h r => ⟨fun hr => ?_, ?_⟩⟩, fun x hx => ?_⟩
  · exact hx.not_byConvention ((h _).mpr rfl)
  · exact (byConvention_segment? h).unique hr
  · rintro rfl
    exact byConvention_segment? h
  · exact ⟨hx.byConvention, segment?_of_isLopsided hx⟩

/-- The name of this directory has one bracket in front and two behind, and its route has
the name as if there were two in front. -/
theorem not_byConvention_oneBracketMore :
    ByConvention "[...x]]".toList (some "[...x]]".toList)
      ∧ segment? "[...x]]".toList = some ":x*".toList
      ∧ ¬ByConvention "[...x]]".toList (segment? "[...x]]".toList)
      ∧ RouteConfig.standard.route? "app/api/[...x]]/route.ts" = some "/api/:x*" := by
  have hname : IsName ['x'] := ⟨List.cons_ne_nil _ _, List.forall_mem_singleton.mpr rfl⟩
  have h : IsLopsided "[...x]]".toList ['x'] := .inl ⟨hname, rfl⟩
  exact ⟨h.byConvention, segment?_of_isLopsided h, h.not_byConvention, rfl⟩

end Route

end CodeSurvey
