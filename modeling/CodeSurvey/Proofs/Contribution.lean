import CodeSurvey.Proofs.Matching

/-!
# What forms contribute

Which trees come out of a form is a question that needs no text: `Form.Contributes`
says what trees a form can contribute in a dialect, on the assumption that those of the
rules are known. It is what is left of `Form.Matches` if one does not say where the trees
stand (`contributes_of_matches`).

So what the rules contribute is only known to be closed, too: whatever holds of the
contributions of every form, if it holds of those of the rules in it, holds of every tree
that is read (`contributions_readProgram`).
-/

namespace CodeSurvey

/-- What the rules contribute. -/
abbrev Contributions := Rule → List Tree → Prop

namespace Form

/-- The trees that a form can contribute in a dialect, if those of the rules are
given. -/
def Contributes (rules : Contributions) (d : Dialect) : Form → List Tree → Prop
  | mark text, ts | gluedMark text, ts => ∃ start stop, ts = [Tree.ofToken text start stop]
  | operator among, ts | keyword among, ts =>
    ∃ text start stop, text ∈ among ∧ ts = [Tree.ofToken text start stop]
  | namedWord kind _, ts | literal kind _, ts | gluedLiteral kind _, ts =>
    ∃ start stop, ts = [Tree.leaf kind start stop]
  | conditionalMark, ts => ∃ start stop, ts = [Tree.ofToken "?" start stop]
  | semicolon _, ts | endOfText, ts | empty, ts | ahead _, ts | butNot _, ts => ts = []
  | rule r, ts => rules r ts
  | seq a b, ts => ∃ xs ys, a.Contributes rules d xs ∧ b.Contributes rules d ys ∧ ts = xs ++ ys
  | alt a b, ts => a.Contributes rules d ts ∨ b.Contributes rules d ts
  | many a, ts => ∃ parts : List (List Tree),
    (∀ part ∈ parts, a.Contributes rules d part) ∧ ts = parts.flatten
  | field f a, ts => ∃ xs, a.Contributes rules d xs
    ∧ ts = xs.map fun t => if t.field.isNone then t.withField f else t
  | node kind a, ts => ∃ span xs, a.Contributes rules d xs
    ∧ ts = [.node (.named kind) none span xs]
  | chain first step, ts => first.Contributes rules d ts
    ∨ ∃ (head : Tree) (steps : List Tree), first.Contributes rules d [head]
      ∧ (∀ next ∈ steps, step.Contributes rules d [next])
      ∧ ts = [steps.foldl Tree.prependChild head]
  | operation operand tail, ts => operand.Contributes rules d ts
    ∨ ∃ (head : Tree) (pairs : List (Tree × Tree)), operand.Contributes rules d [head]
      ∧ (∀ pair ∈ pairs, tail.Contributes rules d [pair.1, pair.2])
      ∧ ts = [PendingOperation.group [] head pairs]
  | ofKind kinds a, ts => a.Contributes rules d ts ∧ ∃ t, ts = [t] ∧ kinds.any t.isKind = true
  | inMode _ a, ts => a.Contributes rules d ts
  | when holds a, ts => (∃ m : Mode, m.dialect = d ∧ holds m = true) ∧ a.Contributes rules d ts

end Form

namespace Form

variable {rules : Contributions} {src : Source} {d : Dialect}

/-- What a form matches it contributes. -/
theorem contributes_of_matches {a : Form} (hkeeps : a.keepsDialect = true) {m : Mode} {i : Nat}
    {x : Match} (hm : m.dialect = d) (h : a.Matches (fun r _ _ x => rules r x.trees) src m i x) :
    a.Contributes rules d x.trees := by
  induction a generalizing m i x with
  | mark text | gluedMark text | conditionalMark =>
      obtain ⟨-, rfl⟩ := h
      exact ⟨_, _, rfl⟩
  | operator among =>
      obtain ⟨text, hmem, -, rfl⟩ := h
      exact ⟨text, _, _, hmem, rfl⟩
  | keyword among =>
      obtain ⟨stop, -, hmem, rfl⟩ := h
      exact ⟨_, _, _, hmem, rfl⟩
  | namedWord kind word =>
      obtain ⟨-, rfl⟩ := h
      exact ⟨_, _, rfl⟩
  | literal kind shape | gluedLiteral kind shape =>
      obtain ⟨stop, -, rfl⟩ := h
      exact ⟨_, _, rfl⟩
  | semicolon afterOperand =>
      obtain ⟨stop, -, rfl⟩ := h
      rfl
  | endOfText =>
      obtain ⟨-, rfl⟩ := h
      rfl
  | rule r => exact h
  | empty | ahead a | butNot a =>
      obtain rfl := h
      rfl
  | seq a b iha ihb =>
      obtain ⟨ha, hb⟩ := Bool.and_eq_true_iff.mp hkeeps
      obtain ⟨y, z, hy, hz, rfl⟩ := h
      exact ⟨_, _, iha ha hm hy, ihb hb hm hz, rfl⟩
  | alt a b iha ihb =>
      obtain ⟨ha, hb⟩ := Bool.and_eq_true_iff.mp hkeeps
      exact h.imp (iha ha hm) (ihb hb hm)
  | many a ih =>
      obtain ⟨parts, stop, hparts, rfl⟩ := h
      refine ⟨parts, fun part hpart => ?_, rfl⟩
      obtain ⟨i, j, hmatch⟩ := hparts.forall_mem part hpart
      exact ih hkeeps hm hmatch
  | field f a ih =>
      obtain ⟨y, hy, rfl⟩ := h
      exact ⟨_, ih hkeeps hm hy, rfl⟩
  | node kind a ih =>
      obtain ⟨y, hy, rfl⟩ := h
      exact ⟨_, _, ih hkeeps hm hy, rfl⟩
  | chain first step ihf ihs =>
      obtain ⟨hf, hs⟩ := Bool.and_eq_true_iff.mp hkeeps
      rcases h with h | ⟨head, steps, j, stop, hhead, hsteps, rfl⟩
      · exact .inl (ihf hf hm h)
      · refine .inr ⟨head, steps, ihf hf hm hhead, fun next hnext => ?_, rfl⟩
        obtain ⟨i, j, hmatch⟩ := hsteps.forall_mem next hnext
        exact ihs hs hm hmatch
  | operation operand tail iho iht =>
      obtain ⟨ho, ht⟩ := Bool.and_eq_true_iff.mp hkeeps
      rcases h with h | ⟨head, pairs, j, stop, hhead, hpairs, rfl⟩
      · exact .inl (iho ho hm h)
      · refine .inr ⟨head, pairs, iho ho hm hhead, fun pair hpair => ?_, rfl⟩
        obtain ⟨i, j, hmatch⟩ := hpairs.forall_mem pair hpair
        exact iht ht hm hmatch
  | ofKind kinds a ih => exact ⟨ih hkeeps hm h.1, h.2⟩
  | inMode change a ih =>
      exact ih (Bool.and_eq_true_iff.mp hkeeps).2 ((dialect_of_keepsDialect hkeeps m).trans hm) h
  | when holds a ih => exact ⟨⟨m, hm, h.1⟩, ih hkeeps hm h.2⟩

end Form

/-- What holds of the contributions of each form if it holds of those of the rules in it,
holds of the tree of a program. -/
theorem contributions_readProgram {rules : Contributions} {d : Dialect}
    (hclosed : ∀ r ts, (Rule.form r).Contributes rules d ts → rules r ts) {src : Source}
    {x : Match} {n : Notes} (h : src.readProgram d = (some x, n)) : rules .program x.trees := by
  have hmatches : ∀ r m i x, m.dialect = d →
      (Rule.form r).Matches (fun r _ _ x => rules r x.trees) src m i x → rules r x.trees :=
    fun r m i x hm hx =>
      hclosed r _ (Form.contributes_of_matches (Form.keepsDialect_form r) hm hx)
  exact matches_readProgram hmatches h

end CodeSurvey
