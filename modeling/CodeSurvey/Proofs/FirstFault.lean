import CodeSurvey.Record.File

/-!
# The first fault in pre-order

The place that is told of a text outside the grammar is found by a loop with a stack: a
tree is taken from the top, and unless it is a fault its children take its place, those
only in which a fault is to be found. Here the loop meets the search through all nodes
in pre-order (`firstFault_is_first`).

The invariant is that of the trees on the stack, read from the top, the first fault in
pre-order is that of the whole tree. Leaving out a tree without a fault does not
change it (`find?_faultyAmong`), nor do children in the place of a node that is none.
So a stack that is empty means that there is no fault, and the answer that is kept for
that case in a faulty tree is never given. A turn takes at least one node off the
stack, so the loop ends after no more turns than the tree has nodes.
-/

namespace CodeSurvey.Tree

/-! ## Where a fault is to be found -/

theorem isFault_eq_false_iff {t : Tree} :
    t.isFault = false ↔ t.isError = false ∧ t.isMissing = false := by
  rw [isFault, Bool.or_eq_false_iff]

mutual

/-- A tree has an error if one of its nodes is a fault, the root included. -/
theorem hasError_eq_any : (t : Tree) → t.hasError = t.preorder.any isFault
  | .node l f s cs => by
      rw [hasError, preorder, List.any_cons, anyHasError_eq_any cs]
      rfl

theorem anyHasError_eq_any : (ts : List Tree) → anyHasError ts = (preorderOfAll ts).any isFault
  | [] => rfl
  | t :: ts => by
      rw [anyHasError, preorderOfAll, List.any_append, hasError_eq_any t, anyHasError_eq_any ts]

end

theorem find?_isFault_of_not_hasError {t : Tree} (h : t.hasError = false) :
    t.preorder.find? isFault = none := by
  rw [hasError_eq_any, List.any_eq_false] at h
  exact List.find?_eq_none.mpr h

/-- A supplied token has an error of its own, so it need not be asked for. -/
theorem faultyAmong_eq (ts : List Tree) : faultyAmong ts = ts.filter hasError := by
  refine List.filter_congr fun t _ => ?_
  obtain ⟨l, f, s, cs⟩ := t
  cases hmissing : l.isMissing <;> simp [hasError, isMissing, label, hmissing]

theorem preorderOfAll_append (ts us : List Tree) :
    preorderOfAll (ts ++ us) = preorderOfAll ts ++ preorderOfAll us := by
  simp only [preorderOfAll_eq_flatMap, List.flatMap_append]

/-- The trees that are left out have no fault that could be the first one. -/
theorem find?_faultyAmong (ts : List Tree) :
    (preorderOfAll (faultyAmong ts)).find? isFault = (preorderOfAll ts).find? isFault := by
  rw [faultyAmong_eq]
  induction ts with
  | nil => rfl
  | cons t ts ih =>
      cases h : t.hasError with
      | true =>
          rw [List.filter_cons_of_pos h, preorderOfAll, preorderOfAll, List.find?_append,
            List.find?_append, ih]
      | false =>
          rw [List.filter_cons_of_neg (by simp [h]), ih, preorderOfAll, List.find?_append,
            find?_isFault_of_not_hasError h, Option.none_or]

/-! ## One turn -/

/-- The stack after a turn of the search. There is no turn if the stack is empty, or if
its top tree is a fault, which is then what is found. -/
def turn? : List Tree → Option (List Tree)
  | [] => none
  | t :: rest => if t.isFault then none else some (faultyAmong t.children ++ rest)

theorem turn?_of_isFault {t : Tree} (h : t.isFault = true) (rest : List Tree) :
    turn? (t :: rest) = none := if_pos h

theorem turn?_of_not_isFault {t : Tree} (h : t.isFault = false) (rest : List Tree) :
    turn? (t :: rest) = some (faultyAmong t.children ++ rest) := if_neg (by simp [h])

/-- The search is its turns, and then what is on top. -/
theorem searchFault_eq (stack : List Tree) :
    searchFault stack = match turn? stack with
      | some next => searchFault next
      | none => stack.head? := by
  cases stack with
  | nil => rw [searchFault]; rfl
  | cons t rest =>
      obtain ⟨l, f, s, cs⟩ := t
      rw [searchFault]
      cases h : (node l f s cs).isFault with
      | true => rw [turn?_of_isFault h]; rfl
      | false => rw [turn?_of_not_isFault h]; rfl

/-- A turn keeps the first fault of the trees on the stack. -/
theorem find?_turn {stack next : List Tree} (h : turn? stack = some next) :
    (preorderOfAll next).find? isFault = (preorderOfAll stack).find? isFault := by
  cases stack with
  | nil => cases h
  | cons t rest =>
      obtain ⟨l, f, s, cs⟩ := t
      cases hfault : (node l f s cs).isFault with
      | true =>
          rw [turn?_of_isFault hfault] at h
          cases h
      | false =>
          rw [turn?_of_not_isFault hfault] at h
          obtain rfl := Option.some.inj h
          rw [preorderOfAll_append, List.find?_append, find?_faultyAmong, preorderOfAll, preorder,
            List.cons_append, List.find?_cons_of_neg (by simp [hfault]), List.find?_append]
          rfl

/-- A turn takes its node off the stack, and puts none on it that was not below. -/
theorem sizeOfAll_turn {stack next : List Tree} (h : turn? stack = some next) :
    sizeOfAll next + 1 ≤ sizeOfAll stack := by
  cases stack with
  | nil => cases h
  | cons t rest =>
      obtain ⟨l, f, s, cs⟩ := t
      cases hfault : (node l f s cs).isFault with
      | true =>
          rw [turn?_of_isFault hfault] at h
          cases h
      | false =>
          rw [turn?_of_not_isFault hfault] at h
          obtain rfl := Option.some.inj h
          have hpushed := sizeOfAll_filter_le (fun t => t.hasError || t.isMissing) cs
          rw [sizeOfAll_append, sizeOfAll, size]
          show sizeOfAll (faultyAmong cs) + sizeOfAll rest + 1 ≤ _
          rw [faultyAmong]
          omega

/-- What is on top when there is no further turn is the first fault of the stack. -/
theorem head?_of_turn?_eq_none {stack : List Tree} (h : turn? stack = none) :
    stack.head? = (preorderOfAll stack).find? isFault := by
  cases stack with
  | nil => rfl
  | cons t rest =>
      obtain ⟨l, f, s, cs⟩ := t
      cases hfault : (node l f s cs).isFault with
      | true => rw [preorderOfAll, preorder, List.cons_append, List.find?_cons_of_pos hfault]; rfl
      | false =>
          rw [turn?_of_not_isFault hfault] at h
          cases h

/-! ## The whole search -/

/-- The search finds the first fault of the trees on its stack. -/
theorem searchFault_eq_find? (stack : List Tree) :
    searchFault stack = (preorderOfAll stack).find? isFault := by
  rw [searchFault_eq]
  cases h : turn? stack with
  | none => exact head?_of_turn?_eq_none h
  | some next =>
      have := sizeOfAll_turn h
      rw [← find?_turn h]
      exact searchFault_eq_find? next
termination_by sizeOfAll stack

/-- The stack after `k` turns of the search in `t`, if it takes as many. -/
def stackAfter (t : Tree) : Nat → Option (List Tree)
  | 0 => some [t]
  | k + 1 => (t.stackAfter k).bind turn?

theorem preorderOfAll_singleton (t : Tree) : preorderOfAll [t] = t.preorder := by
  rw [preorderOfAll, preorderOfAll, List.append_nil]

theorem sizeOfAll_singleton (t : Tree) : sizeOfAll [t] = t.size := by
  rw [sizeOfAll, sizeOfAll, Nat.add_zero]

/-- The invariant of the loop. -/
theorem stackAfter_spec {t : Tree} {k : Nat} {stack : List Tree} (h : t.stackAfter k = some stack) :
    (preorderOfAll stack).find? isFault = t.preorder.find? isFault
      ∧ k + sizeOfAll stack ≤ t.size := by
  induction k generalizing stack with
  | zero =>
      obtain rfl := Option.some.inj h
      rw [preorderOfAll_singleton, sizeOfAll_singleton, Nat.zero_add]
      exact ⟨rfl, Nat.le_refl _⟩
  | succ k ih =>
      obtain ⟨before, hbefore, hturn⟩ := Option.bind_eq_some_iff.mp h
      obtain ⟨hfirst, hsize⟩ := ih hbefore
      have hless := sizeOfAll_turn hturn
      exact ⟨(find?_turn hturn).trans hfirst, by omega⟩

/-- The loop comes to a stack that has no further turn. -/
theorem exists_last_stack {t : Tree} {k : Nat} {stack : List Tree} (h : t.stackAfter k = some stack) :
    ∃ j last, t.stackAfter j = some last ∧ turn? last = none := by
  cases hturn : turn? stack with
  | none => exact ⟨k, stack, h, hturn⟩
  | some next =>
      have := sizeOfAll_turn hturn
      have hnext : t.stackAfter (k + 1) = some next := by
        rw [stackAfter, h, Option.bind_some, hturn]
      exact exists_last_stack hnext
termination_by sizeOfAll stack

/-- The place that is told of a tree is the line and the column, from one on, of its
first fault in pre-order, and none is told if and only if no node of it is an error or
a supplied token. The search with the stack finds what the search through all nodes
finds, in every tree that has an error, so that it never falls back on the root; and it
gets there in no more turns than the tree has nodes, with the first fault still to come
or on top after every one of them. -/
theorem firstFault_is_first (src : Source) (t : Tree) :
    t.faultPosition? src = (t.preorder.find? isFault).map (fun u =>
        (u.startLine src, src.column u.span.start + 1))
      ∧ (t.faultPosition? src = none ↔ ∀ u ∈ t.preorder, u.isError = false ∧ u.isMissing = false)
      ∧ (t.hasError = true ↔ ∃ u ∈ t.preorder, u.isError = true ∨ u.isMissing = true)
      ∧ searchFault [t] = t.preorder.find? isFault
      ∧ (searchFault [t]).isSome = t.hasError
      ∧ (∀ k stack, t.stackAfter k = some stack →
        (preorderOfAll stack).find? isFault = t.preorder.find? isFault ∧ k ≤ t.size)
      ∧ ∃ k stack, t.stackAfter k = some stack ∧ t.stackAfter (k + 1) = none
        ∧ stack.head? = t.preorder.find? isFault := by
  have hsearch : searchFault [t] = t.preorder.find? isFault := by
    rw [searchFault_eq_find?, preorderOfAll_singleton]
  have hsome : (searchFault [t]).isSome = t.hasError := by
    rw [hsearch, hasError_eq_any, Bool.eq_iff_iff, List.find?_isSome, List.any_eq_true]
  have hfirst : t.firstFault? = t.preorder.find? isFault := by
    rw [firstFault?]
    cases herror : t.hasError with
    | false => rw [find?_isFault_of_not_hasError herror]; rfl
    | true =>
        -- The search finds something, so the root is not fallen back on.
        obtain ⟨fault, hfault⟩ := Option.isSome_iff_exists.mp (hsome.trans herror)
        rw [← hsearch, hfault]
        rfl
  have hplace : t.faultPosition? src = (t.preorder.find? isFault).map (fun u =>
      (u.startLine src, src.column u.span.start + 1)) := by
    rw [faultPosition?, hfirst]
    rfl
  refine ⟨hplace, ?_, ?_, hsearch, hsome, ?_, ?_⟩
  · rw [hplace, Option.map_eq_none_iff, List.find?_eq_none]
    simp only [Bool.not_eq_true, isFault_eq_false_iff]
  · rw [hasError_eq_any, List.any_eq_true]
    simp only [isFault, Bool.or_eq_true]
  · intro k stack hstack
    obtain ⟨hkept, hsize⟩ := stackAfter_spec hstack
    exact ⟨hkept, by omega⟩
  · have hstart : t.stackAfter 0 = some [t] := rfl
    obtain ⟨k, stack, hstack, hturn⟩ := exists_last_stack hstart
    refine ⟨k, stack, hstack, by rw [stackAfter, hstack, Option.bind_some, hturn], ?_⟩
    rw [head?_of_turn?_eq_none hturn, (stackAfter_spec hstack).1]

end CodeSurvey.Tree
