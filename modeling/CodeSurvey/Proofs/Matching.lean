import CodeSurvey.Grammar.Parse
import Std.Data.HashMap.Lemmas

/-!
# What forms match

`Form.read` decides where a form matches, and that takes lookahead, a table of
results and a count of the depth. None of this matters to the question what comes
out: `Form.Matches` answers it by the form alone. It says what a form can match from
an offset on, on the assumption that what the rules match is known, and it is told
apart from reading in two ways: it takes every alternative for possible, and it does
not ask how often a form is to be repeated.

Reading finds nothing else (`finds_read`). The rules refer to one another without
end, so what they match is only known to be *closed*: whatever holds of the matches
of every form, if it holds of those of the rules in it, holds of the program that is
read (`matches_readProgram`). This is the induction over the grammar, and the way to
prove anything about all that is read: the table and the depth are seen to here, once.

The table must not mix up rules, modes or offsets. It is kept per dialect, so no form
may change the dialect (`Form.keepsDialect`, a check on the grammar).
-/

namespace CodeSurvey

/-- What the rules match in a mode from an offset on. -/
abbrev RuleMatches := Rule → Mode → Nat → Match → Prop

/-- Parts one behind the other: each begins where the one before it stops. -/
inductive Series {α : Type} (P : Nat → α → Nat → Prop) : Nat → List α → Nat → Prop where
  | nil (i : Nat) : Series P i [] i
  | cons {i j k : Nat} {part : α} {parts : List α} :
    P i part j → Series P j parts k → Series P i (part :: parts) k

theorem Series.forall_mem {α : Type} {P : Nat → α → Nat → Prop} {i k : Nat} {parts : List α}
    (h : Series P i parts k) : ∀ part ∈ parts, ∃ i j, P i part j := by
  induction h with
  | nil => exact fun _ hpart => absurd hpart List.not_mem_nil
  | @cons i j k part parts hpart _ ih => exact List.forall_mem_cons.mpr ⟨⟨i, j, hpart⟩, ih⟩

theorem Series.imp {α : Type} {P Q : Nat → α → Nat → Prop} {i k : Nat} {parts : List α}
    (h : Series P i parts k) (himp : ∀ i part j, P i part j → Q i part j) :
    Series Q i parts k := by
  induction h with
  | nil i => exact .nil i
  | cons hpart _ ih => exact .cons (himp _ _ _ hpart) ih

/-- Where the first tree begins, and without one where the match stops. -/
def Match.start (x : Match) : Nat :=
  match x.trees with
  | t :: _ => t.span.start
  | [] => x.stop

namespace Form

/-- What a form can match in a mode from an offset on, if what the rules match is given. -/
def Matches (rules : RuleMatches) (src : Source) : Form → Mode → Nat → Match → Prop
  | mark text, _, i, x =>
    src.startsWith text.toList (src.skipTrivia (skipsMarkup text) i) = true
      ∧ x = ⟨[.ofToken text (src.skipTrivia (skipsMarkup text) i)
        (src.skipTrivia (skipsMarkup text) i + text.length)],
        src.skipTrivia (skipsMarkup text) i + text.length⟩
  | gluedMark text, _, i, x => src.startsWith text.toList i = true
    ∧ x = ⟨[.ofToken text i (i + text.length)], i + text.length⟩
  | operator among, _, i, x => ∃ text ∈ among, src.operatorAt? (src.skipTrivia false i) = some text
    ∧ x = ⟨[.ofToken text (src.skipTrivia false i) (src.skipTrivia false i + text.length)],
      src.skipTrivia false i + text.length⟩
  | keyword among, _, i, x => ∃ stop, src.wordEnd? (src.skipTrivia true i) = some stop
    ∧ src.slice (src.skipTrivia true i) stop ∈ among
    ∧ x = ⟨[.ofToken (src.slice (src.skipTrivia true i) stop) (src.skipTrivia true i) stop], stop⟩
  | namedWord kind word, _, i, x => src.atWord word.toList (src.skipTrivia true i) = true
    ∧ x = ⟨[.leaf kind (src.skipTrivia true i) (src.skipTrivia true i + word.length)],
      src.skipTrivia true i + word.length⟩
  | literal kind shape, _, i, x => ∃ stop, shape.end? src (src.skipTrivia true i) = some stop
    ∧ x = ⟨[.leaf kind (src.skipTrivia true i) stop], stop⟩
  | gluedLiteral kind shape, _, i, x => ∃ stop, shape.end? src i = some stop
    ∧ x = ⟨[.leaf kind i stop], stop⟩
  | semicolon afterOperand, m, i, x => ∃ stop,
    src.virtualSemicolon? m.dialect afterOperand i = some stop ∧ x = ⟨[], stop⟩
  | conditionalMark, _, i, x => src.isConditionalMark (src.skipTrivia false i) = true
    ∧ x = ⟨[.ofToken "?" (src.skipTrivia false i) (src.skipTrivia false i + 1)],
      src.skipTrivia false i + 1⟩
  | endOfText, _, i, x => src.size ≤ src.skipTrivia true i ∧ x = ⟨[], i⟩
  | rule r, m, i, x => rules r m i x
  | empty, _, i, x | ahead _, _, i, x | butNot _, _, i, x => x = ⟨[], i⟩
  | seq a b, m, i, x => ∃ y z, a.Matches rules src m i y ∧ b.Matches rules src m y.stop z
    ∧ x = ⟨y.trees ++ z.trees, z.stop⟩
  | alt a b, m, i, x => a.Matches rules src m i x ∨ b.Matches rules src m i x
  | many a, m, i, x => ∃ (parts : List (List Tree)) (stop : Nat),
    Series (fun i ts j => a.Matches rules src m i ⟨ts, j⟩) i parts stop ∧ x = ⟨parts.flatten, stop⟩
  | field f a, m, i, x => ∃ y, a.Matches rules src m i y
    ∧ x = ⟨y.trees.map fun t => if t.field.isNone then t.withField f else t, y.stop⟩
  | node kind a, m, i, x => ∃ y, a.Matches rules src m i y
    ∧ x = ⟨[.node (.named kind) none ⟨y.start, y.stop⟩ y.trees], y.stop⟩
  | chain first step, m, i, x => first.Matches rules src m i x
    ∨ ∃ (head : Tree) (steps : List Tree) (j stop : Nat), first.Matches rules src m i ⟨[head], j⟩
      ∧ Series (fun i next j => step.Matches rules src m i ⟨[next], j⟩) j steps stop
      ∧ x = ⟨[steps.foldl Tree.prependChild head], stop⟩
  | operation operand tail, m, i, x => operand.Matches rules src m i x
    ∨ ∃ (head : Tree) (pairs : List (Tree × Tree)) (j stop : Nat),
      operand.Matches rules src m i ⟨[head], j⟩
      ∧ Series (fun i pair j => tail.Matches rules src m i ⟨[pair.1, pair.2], j⟩) j pairs stop
      ∧ x = ⟨[PendingOperation.group [] head pairs], stop⟩
  | ofKind kinds a, m, i, x => a.Matches rules src m i x
    ∧ ∃ t, x.trees = [t] ∧ kinds.any t.isKind = true
  | inMode change a, m, i, x => a.Matches rules src (change m) i x
  | when holds a, m, i, x => holds m = true ∧ a.Matches rules src m i x

end Form

/-! ## The dialect stays -/

def Mode.all : List Mode :=
  [.javascript, .typescript, .tsx].flatMap fun d =>
    [false, true].flatMap fun breakable =>
      [false, true].flatMap fun relational =>
        [false, true].map fun returnTypes => ⟨d, breakable, relational, returnTypes⟩

theorem Mode.mem_all (m : Mode) : m ∈ Mode.all := by
  obtain ⟨d, breakable, relational, returnTypes⟩ := m
  cases d <;> cases breakable <;> cases relational <;> cases returnTypes <;> decide

namespace Form

/-- No change of mode in the form changes the dialect. -/
def keepsDialect : Form → Bool
  | seq a b | alt a b | chain a b | operation a b => a.keepsDialect && b.keepsDialect
  | many a | ahead a | butNot a | field _ a | node _ a | ofKind _ a | when _ a => a.keepsDialect
  | inMode change a =>
    (Mode.all.all fun m => (change m).dialect = m.dialect) && a.keepsDialect
  | _ => true

theorem dialect_of_keepsDialect {change : Mode → Mode} {a : Form}
    (h : (inMode change a).keepsDialect = true) (m : Mode) : (change m).dialect = m.dialect := by
  rw [keepsDialect, Bool.and_eq_true] at h
  exact of_decide_eq_true (List.all_eq_true.mp h.1 m m.mem_all)

theorem keepsDialect_form (r : Rule) : r.form.keepsDialect = true := by
  cases r <;> decide +kernel

end Form

/-! ## Forms of one token -/

namespace Form

/-- A form of one token asks for no rule and notes no result. -/
def isToken : Form → Bool
  | mark _ | gluedMark _ | operator _ | keyword _ | namedWord _ _ | literal _ _
  | gluedLiteral _ _ | semicolon _ | conditionalMark | endOfText | empty => true
  | _ => false

/-- What a form of one token answers. It asks for no rule and for no notes. -/
def token? (src : Source) (a : Form) (m : Mode) (i : Nat) : Option Match :=
  (a.read (fun _ _ _ n => (none, n)) src m i Notes.empty).1

theorem results_reached (n : Notes) (i : Nat) : (n.reached i).results = n.results := by
  unfold Notes.reached
  split <;> rfl

theorem read_token (call : Rule → Mode → Nat → Notes → Reading) (src : Source) {a : Form}
    (h : a.isToken = true) (m : Mode) (i : Nat) (n : Notes) :
    (a.read call src m i n).1 = a.token? src m i
      ∧ (a.read call src m i n).2.results = n.results := by
  cases a <;> cases h
  all_goals
    simp only [read, token?]
    repeat' split
    all_goals simp_all [results_reached]

/-- What a form of one token answers is what it can match. -/
theorem matches_of_token? {rules : RuleMatches} {src : Source} {a : Form} {m : Mode} {i : Nat}
    {x : Match} (h : a.isToken = true) (hx : a.token? src m i = some x) :
    a.Matches rules src m i x := by
  rw [token?] at hx
  cases a with
  | mark _ | gluedMark _ | namedWord _ _ | conditionalMark | endOfText =>
      simp only [read] at hx
      split at hx
      · rename_i htest
        exact ⟨htest, (Option.some.inj hx).symm⟩
      · cases hx
  | operator among =>
      simp only [read] at hx
      split at hx
      · split at hx
        · rename_i text htext hmem
          exact ⟨text, List.contains_iff_mem.mp hmem, htext, (Option.some.inj hx).symm⟩
        · cases hx
      · cases hx
  | keyword among =>
      simp only [read] at hx
      split at hx
      · split at hx
        · rename_i stop hend hmem
          exact ⟨stop, hend, List.contains_iff_mem.mp hmem, (Option.some.inj hx).symm⟩
        · cases hx
      · cases hx
  | literal _ _ | gluedLiteral _ _ | semicolon _ =>
      rw [read] at hx
      split at hx
      · rename_i stop hend
        exact ⟨stop, hend, (Option.some.inj hx).symm⟩
      · cases hx
  | empty => exact (Option.some.inj hx).symm
  | _ => cases h

end Form

/-! ## The table of results -/

theorem Rule.ctorIdx_lt (r : Rule) : r.ctorIdx < 128 := by
  cases r <;> decide

theorem Mode.index_lt (m : Mode) : m.index < 8 := by
  have hb := m.breakable.toNat_le
  have hl := m.relational.toNat_le
  have ht := m.returnTypes.toNat_le
  unfold index
  omega

theorem Mode.eq_of_index {m m' : Mode} (hm : m.dialect = m'.dialect) (h : m.index = m'.index) :
    m = m' := by
  have heq : ∀ {b b' : Bool}, b.toNat = b'.toNat → b = b' := by decide
  have hb := m.breakable.toNat_le
  have hl := m.relational.toNat_le
  have hb' := m'.breakable.toNat_le
  have hl' := m'.relational.toNat_le
  unfold index at h
  have hbreakable : m.breakable = m'.breakable := heq (by omega)
  have hrelational : m.relational = m'.relational := heq (by omega)
  have hreturnTypes : m.returnTypes = m'.returnTypes := heq (by omega)
  obtain ⟨d, b, l, t⟩ := m
  obtain ⟨d', b', l', t'⟩ := m'
  dsimp only at hm hbreakable hrelational hreturnTypes
  rw [hm, hbreakable, hrelational, hreturnTypes]

/-- The place of a result tells its rule, its offset and its mode within a dialect. -/
theorem eq_of_resultKey {r r' : Rule} {m m' : Mode} {i i' : Nat}
    (h : resultKey r m i = resultKey r' m' i') (hm : m.dialect = m'.dialect) :
    r = r' ∧ m = m' ∧ i = i' := by
  have hrule := r.ctorIdx_lt
  have hrule' := r'.ctorIdx_lt
  have hmode := m.index_lt
  have hmode' := m'.index_lt
  unfold resultKey at h
  have hidx : r.ctorIdx = r'.ctorIdx := by omega
  refine ⟨?_, Mode.eq_of_index hm (by omega), by omega⟩
  rw [← Rule.ofNat_ctorIdx r, hidx, Rule.ofNat_ctorIdx]

/-- Only what the rules match in the dialect is noted. -/
def Notes.Agree (rules : RuleMatches) (d : Dialect) (n : Notes) : Prop :=
  ∀ r m i x, m.dialect = d → n.results[resultKey r m i]? = some (some x) → rules r m i x

/-! ## Reading finds nothing else -/

/-- A reading finds what `P` says, if anything, and leaves notes that agree. -/
structure Finds (rules : RuleMatches) (d : Dialect) (P : Match → Prop) (r : Reading) : Prop where
  notes : r.2.Agree rules d
  found : ∀ x, r.1 = some x → P x

section Reading

variable {rules : RuleMatches} {d : Dialect} {n : Notes}

theorem Notes.agree_empty : Notes.empty.Agree rules d := by
  intro r m i x _ h
  simp [Notes.empty] at h

theorem Notes.Agree.of_results {n' : Notes} (h : n.Agree rules d)
    (hsame : n'.results = n.results) : n'.Agree rules d := by
  intro r m i x hm hx
  rw [hsame] at hx
  exact h r m i x hm hx

theorem Notes.Agree.insert (h : n.Agree rules d) {r : Rule} {m : Mode} {i : Nat}
    {found : Option Match} (hm : m.dialect = d) (hfound : ∀ x, found = some x → rules r m i x) :
    Notes.Agree rules d { n with results := n.results.insert (resultKey r m i) found } := by
  intro r' m' i' x hm' hx
  rw [Std.HashMap.getElem?_insert] at hx
  split at hx
  · rename_i hkey
    obtain ⟨rfl, rfl, rfl⟩ := eq_of_resultKey (eq_of_beq hkey) (hm.trans hm'.symm)
    exact hfound x (Option.some.inj hx)
  · exact h r' m' i' x hm' hx

section Outcomes

variable {P Q : Match → Prop}

theorem finds_none (hn : n.Agree rules d) : Finds rules d P (none, n) :=
  ⟨hn, fun _ hx => nomatch hx⟩

theorem finds_some {x : Match} (hn : n.Agree rules d) (hx : P x) : Finds rules d P (some x, n) := by
  refine ⟨hn, fun y hy => ?_⟩
  obtain rfl := Option.some.inj hy
  exact hx

theorem Finds.imp {r : Reading} (h : Finds rules d P r) (himp : ∀ x, P x → Q x) :
    Finds rules d Q r := ⟨h.notes, fun x hx => himp x (h.found x hx)⟩

/-- A reading finds nothing or what `P` says, and the notes agree either way. -/
theorem Finds.cases {r : Reading} (h : Finds rules d P r) :
    (∃ n', r = (none, n') ∧ n'.Agree rules d)
      ∨ ∃ x n', r = (some x, n') ∧ n'.Agree rules d ∧ P x := by
  obtain ⟨_ | x, n'⟩ := r
  · exact .inl ⟨n', rfl, h.notes⟩
  · exact .inr ⟨x, n', rfl, h.notes, h.found x rfl⟩

end Outcomes

namespace Form

section Steps

variable {P : Nat → Match → Prop} {step : Nat → Notes → Reading}
  (hstep : ∀ i n, n.Agree rules d → Finds rules d (P i) (step i n)) (fuel i : Nat)

include hstep

/-- What is read again and again is a series of parts; they are collected from the last
one to the first. -/
theorem finds_iterate (acc : List Tree) (hn : n.Agree rules d) :
    Finds rules d (fun x => ∃ (parts : List (List Tree)) (stop : Nat),
      Series (fun i ts j => P i ⟨ts, j⟩) i parts stop ∧ x = ⟨parts.flatten.reverse ++ acc, stop⟩)
      (iterate step fuel i acc n) := by
  induction fuel generalizing i acc n with
  | zero => exact finds_some hn ⟨[], i, .nil i, rfl⟩
  | succ fuel ih =>
      rw [iterate]
      rcases (hstep i n hn).cases with ⟨n', hread, hn'⟩ | ⟨x, n', hread, hn', hx⟩
      · rw [hread]
        exact finds_some hn' ⟨[], i, .nil i, rfl⟩
      · rw [hread]
        dsimp only
        split
        · refine (ih x.stop (x.trees.reverse ++ acc) hn').imp ?_
          rintro y ⟨parts, stop, hparts, rfl⟩
          refine ⟨x.trees :: parts, stop, .cons hx hparts, ?_⟩
          rw [List.flatten_cons, List.reverse_append, List.append_assoc]
        · exact finds_some hn' ⟨[], i, .nil i, rfl⟩

theorem finds_iterateChain (head : Tree) (hn : n.Agree rules d) :
    Finds rules d (fun x => ∃ (steps : List Tree) (stop : Nat),
      Series (fun i next j => P i ⟨[next], j⟩) i steps stop
        ∧ x = ⟨[steps.foldl Tree.prependChild head], stop⟩) (iterateChain step fuel i head n) := by
  induction fuel generalizing i head n with
  | zero => exact finds_some hn ⟨[], i, .nil i, rfl⟩
  | succ fuel ih =>
      have h := hstep i n hn
      rw [iterateChain]
      split
      · rename_i next stop n' hread
        rw [hread] at h
        split
        · refine (ih stop (head.prependChild next) h.notes).imp ?_
          rintro y ⟨steps, stop', hsteps, rfl⟩
          exact ⟨next :: steps, stop', .cons (h.found _ rfl) hsteps, rfl⟩
        · exact finds_some h.notes ⟨[], i, .nil i, rfl⟩
      · rename_i found n' _ hread
        rw [hread] at h
        exact finds_some h.notes ⟨[], i, .nil i, rfl⟩

theorem finds_iteratePairs (acc : List (Tree × Tree)) (hn : n.Agree rules d) :
    (iteratePairs step fuel i acc n).2.2.Agree rules d ∧ ∃ pairs : List (Tree × Tree),
      Series (fun i pair j => P i ⟨[pair.1, pair.2], j⟩) i pairs (iteratePairs step fuel i acc n).2.1
        ∧ (iteratePairs step fuel i acc n).1 = acc.reverse ++ pairs := by
  have hend : ∀ {i : Nat} {acc : List (Tree × Tree)} {n : Notes}, n.Agree rules d →
      n.Agree rules d ∧ ∃ pairs : List (Tree × Tree),
        Series (fun i pair j => P i ⟨[pair.1, pair.2], j⟩) i pairs i
          ∧ acc.reverse = acc.reverse ++ pairs :=
    fun {i acc n} hn => ⟨hn, [], .nil i, (List.append_nil _).symm⟩
  induction fuel generalizing i acc n with
  | zero => exact hend hn
  | succ fuel ih =>
      have h := hstep i n hn
      rw [iteratePairs]
      split
      · rename_i sign right stop n' hread
        rw [hread] at h
        split
        · obtain ⟨hagree, pairs, hpairs, heq⟩ := ih stop ((sign, right) :: acc) h.notes
          refine ⟨hagree, (sign, right) :: pairs, .cons (h.found _ rfl) hpairs, ?_⟩
          rw [heq, List.reverse_cons, List.append_assoc]
          rfl
        · exact hend h.notes
      · rename_i found n' _ hread
        rw [hread] at h
        exact hend h.notes

end Steps

variable {call : Rule → Mode → Nat → Notes → Reading} {src : Source}

theorem finds_token {a : Form} (h : a.isToken = true) (m : Mode) (i : Nat)
    (hn : n.Agree rules d) : Finds rules d (a.Matches rules src m i) (a.read call src m i n) := by
  obtain ⟨hfound, hresults⟩ := read_token call src h m i n
  exact ⟨hn.of_results hresults, fun x hx => matches_of_token? h (hfound.symm.trans hx)⟩

/-- Reading a form finds what the form can match, if reading a rule does. -/
theorem finds_read
    (hcall : ∀ r m i n, m.dialect = d → n.Agree rules d → Finds rules d (rules r m i) (call r m i n))
    (a : Form) (hkeeps : a.keepsDialect = true) (m : Mode) (i : Nat) (hm : m.dialect = d)
    (hn : n.Agree rules d) : Finds rules d (a.Matches rules src m i) (a.read call src m i n) := by
  induction a generalizing m i n with
  | rule r => exact hcall r m i n hm hn
  | seq a b iha ihb =>
      obtain ⟨ha, hb⟩ := Bool.and_eq_true_iff.mp hkeeps
      rw [read]
      rcases (iha ha m i hm hn).cases with ⟨n', hread, hn'⟩ | ⟨y, n', hread, hn', hy⟩
      · rw [hread]
        exact finds_none hn'
      · rw [hread]
        dsimp only
        rcases (ihb hb m y.stop hm hn').cases with ⟨n'', hread', hn''⟩ | ⟨z, n'', hread', hn'', hz⟩
        · rw [hread']
          exact finds_none hn''
        · rw [hread']
          exact finds_some hn'' ⟨y, z, hy, hz, rfl⟩
  | alt a b iha ihb =>
      obtain ⟨ha, hb⟩ := Bool.and_eq_true_iff.mp hkeeps
      rw [read]
      rcases (iha ha m i hm hn).cases with ⟨n', hread, hn'⟩ | ⟨y, n', hread, hn', hy⟩
      · rw [hread]
        exact (ihb hb m i hm hn').imp fun _ => Or.inr
      · rw [hread]
        exact finds_some hn' (.inl hy)
  | many a ih =>
      have h := finds_iterate (fun i n hn => ih hkeeps m i hm hn) (src.size + 1 - i) i [] hn
      rw [read]
      rcases h.cases with ⟨n', hread, hn'⟩ | ⟨_, n', hread, hn', parts, stop, hparts, rfl⟩
      · rw [hread]
        exact finds_none hn'
      · rw [hread]
        refine finds_some hn' ⟨parts, stop, hparts, ?_⟩
        rw [List.append_nil, List.reverse_reverse]
  | ahead a ih =>
      rw [read]
      rcases (ih hkeeps m i hm hn).cases with ⟨n', hread, hn'⟩ | ⟨y, n', hread, hn', -⟩
      · rw [hread]
        exact finds_none hn'
      · rw [hread]
        exact finds_some hn' rfl
  | butNot a ih =>
      rw [read]
      rcases (ih hkeeps m i hm hn).cases with ⟨n', hread, hn'⟩ | ⟨y, n', hread, hn', -⟩
      · rw [hread]
        exact finds_some hn' rfl
      · rw [hread]
        exact finds_none hn'
  | field f a ih | node kind a ih =>
      rw [read]
      rcases (ih hkeeps m i hm hn).cases with ⟨n', hread, hn'⟩ | ⟨y, n', hread, hn', hy⟩
      · rw [hread]
        exact finds_none hn'
      · rw [hread]
        exact finds_some hn' ⟨y, hy, rfl⟩
  | chain first step ihf ihs =>
      obtain ⟨hf, hs⟩ := Bool.and_eq_true_iff.mp hkeeps
      have h := ihf hf m i hm hn
      rw [read]
      split
      · rename_i head stop n' hread
        rw [hread] at h
        refine (finds_iterateChain (fun i n hn => ihs hs m i hm hn) _ stop head h.notes).imp ?_
        rintro x ⟨steps, stop', hsteps, rfl⟩
        exact .inr ⟨head, steps, stop, stop', h.found _ rfl, hsteps, rfl⟩
      · exact h.imp fun _ => Or.inl
  | operation operand tail iho iht =>
      obtain ⟨ho, ht⟩ := Bool.and_eq_true_iff.mp hkeeps
      have h := iho ho m i hm hn
      rw [read]
      split
      · rename_i head stop n' hread
        rw [hread] at h
        obtain ⟨hagree, pairs, hpairs, heq⟩ := finds_iteratePairs
          (fun i n hn => iht ht m i hm hn) (src.size + 1 - stop) stop [] h.notes
        refine finds_some hagree (.inr ⟨head, pairs, stop, _, h.found _ rfl, hpairs, ?_⟩)
        rw [heq, List.reverse_nil, List.nil_append]
      · exact h.imp fun _ => Or.inl
  | ofKind kinds a ih =>
      have h := ih hkeeps m i hm hn
      rw [read]
      split
      · rename_i t stop n' hread
        rw [hread] at h
        split
        · rename_i hkind
          exact finds_some h.notes ⟨h.found _ rfl, t, rfl, hkind⟩
        · exact finds_none h.notes
      · rename_i found n' _ hread
        rw [hread] at h
        exact finds_none h.notes
  | inMode change a ih =>
      rw [read]
      exact ih (Bool.and_eq_true_iff.mp hkeeps).2 (change m) i
        ((dialect_of_keepsDialect hkeeps m).trans hm) hn
  | when holds a ih =>
      rw [read]
      split
      · rename_i hholds
        exact (ih hkeeps m i hm hn).imp fun _ h => ⟨hholds, h⟩
      · exact finds_none hn
  | _ => exact finds_token rfl m i hn

end Form

/-- What the forms match, if it is closed, is all that reading a rule finds. -/
theorem finds_readRule {src : Source}
    (hclosed : ∀ r m i x, m.dialect = d → (Rule.form r).Matches rules src m i x → rules r m i x)
    (depth : Nat) (r : Rule) (m : Mode) (i : Nat) (n : Notes) (hm : m.dialect = d)
    (hn : n.Agree rules d) : Finds rules d (rules r m i) (readRule Rule.form src depth r m i n) := by
  induction depth generalizing r m i n with
  | zero => exact finds_none hn
  | succ depth ih =>
      rw [readRule]
      dsimp only
      split
      · rename_i found hfound
        refine ⟨hn, ?_⟩
        rintro x rfl
        exact hn r m i x hm hfound
      · have h : Finds rules d (r.form.Matches rules src m i)
            (r.form.read (readRule Rule.form src depth) src m i n) :=
          Form.finds_read ih r.form (Form.keepsDialect_form r) m i hm hn
        have hfound := fun x hx => hclosed r m i x hm (h.found x hx)
        exact ⟨h.notes.insert hm hfound, hfound⟩

end Reading

/-- The induction over the grammar: what holds of the matches of each form if it holds of
those of the rules in it, holds of the program that is read. -/
theorem matches_readProgram {rules : RuleMatches} {src : Source} {d : Dialect}
    (hclosed : ∀ r m i x, m.dialect = d → (Rule.form r).Matches rules src m i x → rules r m i x)
    {x : Match} {n : Notes} (h : src.readProgram d = (some x, n)) :
    rules .program (.ofDialect d) 0 x :=
  (finds_readRule hclosed src.ruleDepth .program (.ofDialect d) 0 Notes.empty rfl
    Notes.agree_empty).found x (congrArg Prod.fst h)

end CodeSurvey
