import CodeSurvey.Proofs.Matching

/-!
# Reading without a table

Which trees `readRule` finds in a text is hard to say from its definition: it looks
a result up before it works one out, and where the depth runs out it says "no match"
as if the text did not fit. Here is the reading that one has in mind instead
(`plainRule`). It has no table, and it has no answer where the depth does not suffice.

Where the plain reading has an answer, the real one has the same (`agrees_readRule`).
What carries the induction is that the table holds nothing that contradicts a plain
answer (`Notes.Plain`). The real reading takes the steps of the plain one and no
others, so it never comes to a rule with less depth than the plain one needs there.

The modules that follow one text through the grammar use the plain reading only.
-/

namespace CodeSurvey

namespace Form

/-! ## The plain reading -/

/-- Like `iterate`, or nothing if a step has no answer. -/
def plainIterate (step : Nat → Option (Option Match)) : Nat → Nat → List Tree → Option Match
  | 0, i, acc => some ⟨acc, i⟩
  | fuel + 1, i, acc =>
    (step i).bind fun found =>
      match found with
      | some x =>
        if i < x.stop then plainIterate step fuel x.stop (x.trees.reverse ++ acc)
        else some ⟨acc, i⟩
      | none => some ⟨acc, i⟩

/-- Like `iterateChain`, or nothing if a step has no answer. -/
def plainChain (step : Nat → Option (Option Match)) : Nat → Nat → Tree → Option Match
  | 0, i, t => some ⟨[t], i⟩
  | fuel + 1, i, t =>
    (step i).bind fun found =>
      match found with
      | some ⟨[next], stop⟩ =>
        if i < stop then plainChain step fuel stop (t.prependChild next) else some ⟨[t], i⟩
      | _ => some ⟨[t], i⟩

/-- Like `iteratePairs`, or nothing if a step has no answer. -/
def plainPairs (step : Nat → Option (Option Match)) :
    Nat → Nat → List (Tree × Tree) → Option (List (Tree × Tree) × Nat)
  | 0, i, acc => some (acc.reverse, i)
  | fuel + 1, i, acc =>
    (step i).bind fun found =>
      match found with
      | some ⟨[sign, right], stop⟩ =>
        if i < stop then plainPairs step fuel stop ((sign, right) :: acc)
        else some (acc.reverse, i)
      | _ => some (acc.reverse, i)

/-- The answer of a form, or nothing if `call` has none for a rule that is read. -/
def plain? (call : Rule → Mode → Nat → Option (Option Match)) (src : Source) :
    Form → Mode → Nat → Option (Option Match)
  | a@(mark _), m, i | a@(gluedMark _), m, i | a@(operator _), m, i | a@(keyword _), m, i
  | a@(namedWord _ _), m, i | a@(literal _ _), m, i | a@(gluedLiteral _ _), m, i
  | a@(semicolon _), m, i | a@conditionalMark, m, i | a@endOfText, m, i | a@empty, m, i =>
    some (a.token? src m i)
  | rule r, m, i => call r m i
  | seq a b, m, i =>
    (a.plain? call src m i).bind fun found =>
      match found with
      | some x => (b.plain? call src m x.stop).map fun found =>
        found.map fun y => ⟨x.trees ++ y.trees, y.stop⟩
      | none => some none
  | alt a b, m, i =>
    (a.plain? call src m i).bind fun found =>
      match found with
      | some x => some (some x)
      | none => b.plain? call src m i
  | many a, m, i =>
    (plainIterate (a.plain? call src m) (src.size + 1 - i) i []).map fun x =>
      some ⟨x.trees.reverse, x.stop⟩
  | ahead a, m, i => (a.plain? call src m i).map fun found => found.map fun _ => ⟨[], i⟩
  | butNot a, m, i =>
    (a.plain? call src m i).map fun found =>
      match found with
      | some _ => none
      | none => some ⟨[], i⟩
  | field f a, m, i =>
    (a.plain? call src m i).map fun found => found.map fun x =>
      ⟨x.trees.map fun t => if t.field.isNone then t.withField f else t, x.stop⟩
  | node kind a, m, i =>
    (a.plain? call src m i).map fun found => found.map fun x =>
      let start := match x.trees with
        | t :: _ => t.span.start
        | [] => x.stop
      ⟨[.node (.named kind) none ⟨start, x.stop⟩ x.trees], x.stop⟩
  | chain first step, m, i =>
    (first.plain? call src m i).bind fun found =>
      match found with
      | some ⟨[t], stop⟩ =>
        (plainChain (step.plain? call src m) (src.size + 1 - stop) stop t).map some
      | found => some found
  | operation operand tail, m, i =>
    (operand.plain? call src m i).bind fun found =>
      match found with
      | some ⟨[t], stop⟩ =>
        (plainPairs (tail.plain? call src m) (src.size + 1 - stop) stop []).map fun x =>
          some ⟨[PendingOperation.group [] t x.1], x.2⟩
      | found => some found
  | ofKind kinds a, m, i =>
    (a.plain? call src m i).map fun found =>
      match found with
      | some ⟨[t], stop⟩ => if kinds.any t.isKind then some ⟨[t], stop⟩ else none
      | _ => none
  | inMode change a, m, i => a.plain? call src (change m) i
  | when holds a, m, i => if holds m then a.plain? call src m i else some none

end Form

/-- The answer of a rule, or nothing if rules nest more deeply than `depth`. -/
def plainRule (grammar : Rule → Form) (src : Source) :
    Nat → Rule → Mode → Nat → Option (Option Match)
  | 0, _, _, _ => none
  | depth + 1, r, m, i => (grammar r).plain? (plainRule grammar src depth) src m i

/-! ## More depth, the same answer -/

/-- Where the first has a value the second has the same. -/
def Refines {α : Type} (o o' : Option α) : Prop := ∀ x, o = some x → o' = some x

namespace Refines

variable {α β : Type} {o o' : Option α}

theorem refl (o : Option α) : Refines o o := fun _ h => h

theorem none_left : Refines none o := fun _ h => nomatch h

theorem bind {f f' : α → Option β} (h : Refines o o') (hf : ∀ x, Refines (f x) (f' x)) :
    Refines (o.bind f) (o'.bind f') := by
  intro y hy
  obtain ⟨x, hx, hfx⟩ := Option.bind_eq_some_iff.mp hy
  rw [h x hx, Option.bind_some]
  exact hf x y hfx

theorem map (f : α → β) (h : Refines o o') : Refines (o.map f) (o'.map f) := by
  intro y hy
  obtain ⟨x, hx, rfl⟩ := Option.map_eq_some_iff.mp hy
  rw [h x hx, Option.map_some]

end Refines

namespace Form

section Depth

variable {call call' : Rule → Mode → Nat → Option (Option Match)} {src : Source}
  {step step' : Nat → Option (Option Match)}

theorem refines_plainIterate (h : ∀ i, Refines (step i) (step' i)) (fuel i : Nat)
    (acc : List Tree) : Refines (plainIterate step fuel i acc) (plainIterate step' fuel i acc) := by
  induction fuel generalizing i acc with
  | zero => exact .refl _
  | succ fuel ih =>
      refine (h i).bind ?_
      intro found
      cases found with
      | none => exact .refl _
      | some x =>
          dsimp only
          split
          · exact ih x.stop _
          · exact .refl _

theorem refines_plainChain (h : ∀ i, Refines (step i) (step' i)) (fuel i : Nat) (t : Tree) :
    Refines (plainChain step fuel i t) (plainChain step' fuel i t) := by
  induction fuel generalizing i t with
  | zero => exact .refl _
  | succ fuel ih =>
      refine (h i).bind ?_
      intro found
      split
      · split
        · exact ih _ _
        · exact .refl _
      · exact .refl _

theorem refines_plainPairs (h : ∀ i, Refines (step i) (step' i)) (fuel i : Nat)
    (acc : List (Tree × Tree)) :
    Refines (plainPairs step fuel i acc) (plainPairs step' fuel i acc) := by
  induction fuel generalizing i acc with
  | zero => exact .refl _
  | succ fuel ih =>
      refine (h i).bind ?_
      intro found
      split
      · split
        · exact ih _ _
        · exact .refl _
      · exact .refl _

theorem refines_plain? (h : ∀ r m i, Refines (call r m i) (call' r m i)) (a : Form) (m : Mode)
    (i : Nat) : Refines (a.plain? call src m i) (a.plain? call' src m i) := by
  induction a generalizing m i with
  | rule r => exact h r m i
  | seq a b iha ihb =>
      refine (iha m i).bind ?_
      intro found
      cases found with
      | none => exact .refl _
      | some x => exact (ihb m x.stop).map _
  | alt a b iha ihb =>
      refine (iha m i).bind ?_
      intro found
      cases found with
      | none => exact ihb m i
      | some x => exact .refl _
  | many a ih => exact (refines_plainIterate (ih m) _ i []).map _
  | ahead a ih | butNot a ih | field f a ih | node kind a ih | ofKind kinds a ih =>
      exact (ih m i).map _
  | chain first step ihf ihs =>
      refine (ihf m i).bind ?_
      intro found
      split
      · exact (refines_plainChain (ihs m) _ _ _).map _
      · exact .refl _
  | operation operand tail iho iht =>
      refine (iho m i).bind ?_
      intro found
      split
      · exact (refines_plainPairs (iht m) _ _ _).map _
      · exact .refl _
  | inMode change a ih => exact ih (change m) i
  | when holds a ih =>
      rw [plain?, plain?]
      split
      · exact ih m i
      · exact .refl _
  | _ => exact .refl _

end Depth

end Form

theorem refines_plainRule {grammar : Rule → Form} {src : Source} {depth depth' : Nat}
    (h : depth ≤ depth') (r : Rule) (m : Mode) (i : Nat) :
    Refines (plainRule grammar src depth r m i) (plainRule grammar src depth' r m i) := by
  induction depth generalizing depth' r m i with
  | zero => exact .none_left
  | succ depth ih =>
      obtain ⟨depth', rfl⟩ : ∃ k, depth' = k + 1 := ⟨depth' - 1, by omega⟩
      exact Form.refines_plain? (ih (by omega)) (grammar r) m i

/-! ## The real reading agrees -/

/-- Nothing is noted in a dialect that contradicts a plain answer. -/
def Notes.Plain (grammar : Rule → Form) (src : Source) (d : Dialect) (n : Notes) : Prop :=
  ∀ depth r m i found, m.dialect = d → n.results[resultKey r m i]? = some found →
    ∀ answer, plainRule grammar src depth r m i = some answer → found = answer

/-- A reading has the plain answer, if there is one, and leaves plain notes behind. -/
def Agrees (grammar : Rule → Form) (src : Source) (d : Dialect) (plain : Option (Option Match))
    (r : Reading) : Prop :=
  ∀ answer, plain = some answer → r.1 = answer ∧ r.2.Plain grammar src d

section Agreement

variable {grammar : Rule → Form} {src : Source} {d : Dialect} {n : Notes}

theorem Notes.plain_empty : Notes.empty.Plain grammar src d := by
  intro depth r m i found _ h
  simp [Notes.empty] at h

theorem Notes.Plain.of_results {n' : Notes} (h : n.Plain grammar src d)
    (hsame : n'.results = n.results) : n'.Plain grammar src d := by
  intro depth r m i found hm hfound
  rw [hsame] at hfound
  exact h depth r m i found hm hfound

/-- A plain answer contradicts no other one, so it can be noted. -/
theorem Notes.Plain.insert (h : n.Plain grammar src d) {depth : Nat} {r : Rule} {m : Mode}
    {i : Nat} {answer : Option Match} (hm : m.dialect = d)
    (hanswer : plainRule grammar src depth r m i = some answer) :
    Notes.Plain grammar src d { n with results := n.results.insert (resultKey r m i) answer } := by
  intro depth' r' m' i' found hm' hfound answer' hanswer'
  rw [Std.HashMap.getElem?_insert] at hfound
  split at hfound
  · rename_i hkey
    obtain ⟨rfl, rfl, rfl⟩ := eq_of_resultKey (eq_of_beq hkey) (hm.trans hm'.symm)
    obtain rfl := Option.some.inj hfound
    have hleft := refines_plainRule (Nat.le_max_left depth depth') r m i answer hanswer
    have hright := refines_plainRule (Nat.le_max_right depth depth') r m i answer' hanswer'
    exact Option.some.inj (hleft.symm.trans hright)
  · exact h depth' r' m' i' found hm' hfound answer' hanswer'

theorem agrees_unknown {r : Reading} : Agrees grammar src d none r := fun _ h => nomatch h

theorem agrees_some {found : Option Match} (hn : n.Plain grammar src d) :
    Agrees grammar src d (some found) (found, n) := by
  intro answer h
  obtain rfl := Option.some.inj h
  exact ⟨rfl, hn⟩

/-- A reading that goes on with what it found agrees if it does so from there. -/
theorem Agrees.bind {o : Option (Option Match)} {f : Option Match → Option (Option Match)}
    {found : Option Match} {r : Reading} (h : Agrees grammar src d o (found, n))
    (hf : n.Plain grammar src d → Agrees grammar src d (f found) r) :
    Agrees grammar src d (o.bind f) r := by
  intro answer hanswer
  obtain ⟨x, hx, hfx⟩ := Option.bind_eq_some_iff.mp hanswer
  obtain ⟨rfl, hn⟩ := h x hx
  exact hf hn answer hfx

theorem Agrees.map {o : Option (Option Match)} {f : Option Match → Option Match}
    {found found' : Option Match} (h : Agrees grammar src d o (found, n)) (hf : f found = found') :
    Agrees grammar src d (o.map f) (found', n) := by
  rw [← hf, Option.map_eq_bind]
  exact h.bind fun hn => agrees_some hn

namespace Form

variable {step : Nat → Notes → Reading} {plain : Nat → Option (Option Match)}

theorem agrees_iterate
    (hstep : ∀ i n, n.Plain grammar src d → Agrees grammar src d (plain i) (step i n))
    (fuel i : Nat) (acc : List Tree) (hn : n.Plain grammar src d) :
    Agrees grammar src d ((plainIterate plain fuel i acc).map some)
      (iterate step fuel i acc n) := by
  induction fuel generalizing i acc n with
  | zero => exact agrees_some hn
  | succ fuel ih =>
      have h := hstep i n hn
      rw [iterate, plainIterate, Option.map_bind]
      rcases hread : step i n with ⟨_ | x, n'⟩
      · rw [hread] at h
        exact h.bind agrees_some
      · rw [hread] at h
        refine h.bind fun hn' => ?_
        simp only [Function.comp]
        split
        · exact ih x.stop _ hn'
        · exact agrees_some hn'

theorem agrees_iterateChain
    (hstep : ∀ i n, n.Plain grammar src d → Agrees grammar src d (plain i) (step i n))
    (fuel i : Nat) (t : Tree) (hn : n.Plain grammar src d) :
    Agrees grammar src d ((plainChain plain fuel i t).map some)
      (iterateChain step fuel i t n) := by
  induction fuel generalizing i t n with
  | zero => exact agrees_some hn
  | succ fuel ih =>
      have h := hstep i n hn
      rw [iterateChain, plainChain, Option.map_bind]
      rcases hread : step i n with ⟨found, n'⟩
      rw [hread] at h
      refine h.bind fun hn' => ?_
      rcases found with _ | ⟨_ | ⟨next, _ | ⟨more, rest⟩⟩, stop⟩
      · exact agrees_some hn'
      · exact agrees_some hn'
      · simp only [Function.comp]
        split
        · exact ih _ _ hn'
        · exact agrees_some hn'
      · exact agrees_some hn'

theorem agrees_iteratePairs
    (hstep : ∀ i n, n.Plain grammar src d → Agrees grammar src d (plain i) (step i n))
    (fuel i : Nat) (acc : List (Tree × Tree)) (hn : n.Plain grammar src d)
    {pairs : List (Tree × Tree)} {stop : Nat}
    (h : plainPairs plain fuel i acc = some (pairs, stop)) :
    ∃ n' : Notes, iteratePairs step fuel i acc n = (pairs, stop, n') ∧ n'.Plain grammar src d := by
  induction fuel generalizing i acc n with
  | zero =>
      obtain ⟨rfl, rfl⟩ := Prod.mk.injEq .. |>.mp (Option.some.inj h)
      exact ⟨n, rfl, hn⟩
  | succ fuel ih =>
      obtain ⟨found, hfound, hrest⟩ := Option.bind_eq_some_iff.mp h
      obtain ⟨hread, hn'⟩ := hstep i n hn found hfound
      rcases hstep' : step i n with ⟨found', n'⟩
      rw [hstep'] at hread hn'
      obtain rfl : found' = found := hread
      rw [iteratePairs, hstep']
      split at hrest
      · rename_i sign right stop'
        split at hrest
        · rename_i hlt
          simp only [if_pos hlt]
          exact ih _ _ hn' hrest
        · rename_i hlt
          obtain ⟨rfl, rfl⟩ := Prod.mk.injEq .. |>.mp (Option.some.inj hrest)
          simp only [if_neg hlt]
          exact ⟨n', rfl, hn'⟩
      · rename_i hother
        obtain ⟨rfl, rfl⟩ := Prod.mk.injEq .. |>.mp (Option.some.inj hrest)
        split
        · rename_i sign right stop' n'' heq
          obtain ⟨rfl, -⟩ := Prod.mk.injEq .. |>.mp heq
          exact absurd rfl (hother sign right stop')
        · rename_i heq
          obtain ⟨-, rfl⟩ := Prod.mk.injEq .. |>.mp heq
          exact ⟨_, rfl, hn'⟩

variable {call : Rule → Mode → Nat → Notes → Reading}
  {plainCall : Rule → Mode → Nat → Option (Option Match)}

theorem agrees_token {a : Form} (h : a.isToken = true) (m : Mode) (i : Nat)
    (hn : n.Plain grammar src d) :
    Agrees grammar src d (some (a.token? src m i)) (a.read call src m i n) := by
  obtain ⟨hfound, hresults⟩ := read_token call src h m i n
  intro answer hanswer
  obtain rfl := Option.some.inj hanswer
  exact ⟨hfound, hn.of_results hresults⟩

/-- Reading a form has the plain answer, if reading a rule does. -/
theorem agrees_read
    (hcall : ∀ r m i n, m.dialect = d → n.Plain grammar src d →
      Agrees grammar src d (plainCall r m i) (call r m i n))
    (a : Form) (hkeeps : a.keepsDialect = true) (m : Mode) (i : Nat) (hm : m.dialect = d)
    (hn : n.Plain grammar src d) :
    Agrees grammar src d (a.plain? plainCall src m i) (a.read call src m i n) := by
  induction a generalizing m i n with
  | rule r => exact hcall r m i n hm hn
  | seq a b iha ihb =>
      obtain ⟨ha, hb⟩ := Bool.and_eq_true_iff.mp hkeeps
      have h := iha ha m i hm hn
      rw [read, plain?]
      rcases hread : a.read call src m i n with ⟨_ | x, n'⟩
      · rw [hread] at h
        exact h.bind agrees_some
      · rw [hread] at h
        refine h.bind fun hn' => ?_
        have h' := ihb hb m x.stop hm hn'
        dsimp only
        rcases hread' : b.read call src m x.stop n' with ⟨_ | y, n''⟩
        · rw [hread'] at h'
          exact h'.map rfl
        · rw [hread'] at h'
          exact h'.map rfl
  | alt a b iha ihb =>
      obtain ⟨ha, hb⟩ := Bool.and_eq_true_iff.mp hkeeps
      have h := iha ha m i hm hn
      rw [read, plain?]
      rcases hread : a.read call src m i n with ⟨_ | x, n'⟩
      · rw [hread] at h
        exact h.bind fun hn' => ihb hb m i hm hn'
      · rw [hread] at h
        exact h.bind agrees_some
  | many a ih =>
      have h := agrees_iterate (fun i n hn => ih hkeeps m i hm hn) (src.size + 1 - i) i [] hn
      rw [read, plain?]
      rcases hread : iterate (a.read call src m) (src.size + 1 - i) i [] n with ⟨_ | x, n'⟩
      · rw [hread] at h
        intro answer hanswer
        obtain ⟨y, hy, -⟩ := Option.map_eq_some_iff.mp hanswer
        cases (h (some y) (by rw [hy]; rfl)).1
      · rw [hread] at h
        intro answer hanswer
        obtain ⟨y, hy, rfl⟩ := Option.map_eq_some_iff.mp hanswer
        obtain ⟨heq, hn'⟩ := h (some y) (by rw [hy]; rfl)
        obtain rfl := Option.some.inj heq
        exact ⟨rfl, hn'⟩
  | ahead a ih | butNot a ih | field f a ih | node kind a ih =>
      have h := ih hkeeps m i hm hn
      rw [read, plain?]
      rcases hread : a.read call src m i n with ⟨_ | x, n'⟩
      · rw [hread] at h
        exact h.map rfl
      · rw [hread] at h
        exact h.map rfl
  | chain first step ihf ihs =>
      obtain ⟨hf, hs⟩ := Bool.and_eq_true_iff.mp hkeeps
      have h := ihf hf m i hm hn
      rw [read, plain?]
      rcases hread : first.read call src m i n with ⟨found, n'⟩
      rw [hread] at h
      refine h.bind fun hn' => ?_
      rcases found with _ | ⟨_ | ⟨t, _ | ⟨more, rest⟩⟩, stop⟩
      · exact agrees_some hn'
      · exact agrees_some hn'
      · exact agrees_iterateChain (fun i n hn => ihs hs m i hm hn) _ stop t hn'
      · exact agrees_some hn'
  | operation operand tail iho iht =>
      obtain ⟨ho, ht⟩ := Bool.and_eq_true_iff.mp hkeeps
      have h := iho ho m i hm hn
      rw [read, plain?]
      rcases hread : operand.read call src m i n with ⟨found, n'⟩
      rw [hread] at h
      refine h.bind fun hn' => ?_
      rcases found with _ | ⟨_ | ⟨t, _ | ⟨more, rest⟩⟩, stop⟩
      · exact agrees_some hn'
      · exact agrees_some hn'
      · intro answer hanswer
        obtain ⟨⟨pairs, stop'⟩, hpairs, rfl⟩ := Option.map_eq_some_iff.mp hanswer
        obtain ⟨n'', heq, hn''⟩ :=
          agrees_iteratePairs (fun i n hn => iht ht m i hm hn) _ stop [] hn' hpairs
        dsimp only
        rw [heq]
        exact ⟨rfl, hn''⟩
      · exact agrees_some hn'
  | ofKind kinds a ih =>
      have h := ih hkeeps m i hm hn
      rw [read, plain?]
      rcases hread : a.read call src m i n with ⟨found, n'⟩
      rw [hread] at h
      rcases found with _ | ⟨_ | ⟨t, _ | ⟨more, rest⟩⟩, stop⟩
      · exact h.map rfl
      · exact h.map rfl
      · dsimp only
        split
        · rename_i hkind
          exact h.map (if_pos hkind)
        · rename_i hkind
          exact h.map (if_neg hkind)
      · exact h.map rfl
  | inMode change a ih =>
      exact ih (Bool.and_eq_true_iff.mp hkeeps).2 (change m) i
        ((dialect_of_keepsDialect hkeeps m).trans hm) hn
  | when holds a ih =>
      rw [read, plain?]
      split
      · exact ih hkeeps m i hm hn
      · exact agrees_some hn
  | _ => exact agrees_token rfl m i hn

end Form

/-- Reading a rule has the plain answer, whatever has been read before. -/
theorem agrees_readRule (hkeeps : ∀ r, (grammar r).keepsDialect = true) {depth depth' : Nat}
    (hdepth : depth ≤ depth') (r : Rule) (m : Mode) (i : Nat) (hm : m.dialect = d)
    (hn : n.Plain grammar src d) :
    Agrees grammar src d (plainRule grammar src depth r m i)
      (readRule grammar src depth' r m i n) := by
  induction depth generalizing depth' r m i n with
  | zero => exact agrees_unknown
  | succ depth ih =>
      obtain ⟨depth', rfl⟩ : ∃ k, depth' = k + 1 := ⟨depth' - 1, by omega⟩
      intro answer hanswer
      rw [readRule]
      dsimp only
      split
      · rename_i found hfound
        exact ⟨hn (depth + 1) r m i found hm hfound answer hanswer, hn⟩
      · have hread := Form.agrees_read
          (fun r m i n hm hn => ih (Nat.le_of_succ_le_succ hdepth) r m i hm hn) (grammar r)
          (hkeeps r) m i hm hn
        obtain ⟨heq, hn'⟩ := hread answer hanswer
        refine ⟨heq, ?_⟩
        rw [heq]
        exact hn'.insert hm hanswer

end Agreement

/-- A program has the plain answer. -/
theorem Source.readProgram_of_plainRule {src : Source} {d : Dialect} {depth : Nat}
    {answer : Option Match} (hdepth : depth ≤ src.ruleDepth)
    (h : plainRule Rule.form src depth .program (.ofDialect d) 0 = some answer) :
    (src.readProgram d).1 = answer :=
  (agrees_readRule Form.keepsDialect_form hdepth .program (.ofDialect d) 0 rfl Notes.plain_empty
    answer h).1

/-! ## Reading a form step by step -/

namespace Form

section Steps

variable {call : Rule → Mode → Nat → Option (Option Match)} {src : Source} {m : Mode} {i : Nat}
  {a b : Form} {x y : Match}

theorem plain?_seq (ha : a.plain? call src m i = some (some x))
    (hb : b.plain? call src m x.stop = some (some y)) :
    (seq a b).plain? call src m i = some (some ⟨x.trees ++ y.trees, y.stop⟩) := by
  show (a.plain? call src m i).bind _ = _
  rw [ha, Option.bind_some]
  simp only [hb, Option.map_some]

theorem plain?_seq_none (ha : a.plain? call src m i = some (some x))
    (hb : b.plain? call src m x.stop = some none) : (seq a b).plain? call src m i = some none := by
  show (a.plain? call src m i).bind _ = _
  rw [ha, Option.bind_some]
  simp only [hb, Option.map_some, Option.map_none]

theorem plain?_alt_left (ha : a.plain? call src m i = some (some x)) :
    (alt a b).plain? call src m i = some (some x) := by
  show (a.plain? call src m i).bind _ = _
  rw [ha, Option.bind_some]

theorem plain?_alt_right (ha : a.plain? call src m i = some none) :
    (alt a b).plain? call src m i = b.plain? call src m i := by
  show (a.plain? call src m i).bind _ = _
  rw [ha, Option.bind_some]

theorem plain?_field {f : Field} {t : Tree} {stop : Nat} (hfree : t.field = none)
    (ha : a.plain? call src m i = some (some ⟨[t], stop⟩)) :
    (field f a).plain? call src m i = some (some ⟨[t.withField f], stop⟩) := by
  show (a.plain? call src m i).map _ = _
  rw [ha]
  simp [hfree]

theorem plain?_node {kind : NodeKind} {t : Tree} {ts : List Tree} {stop : Nat}
    (ha : a.plain? call src m i = some (some ⟨t :: ts, stop⟩)) :
    (node kind a).plain? call src m i
      = some (some ⟨[.node (.named kind) none ⟨t.span.start, stop⟩ (t :: ts)], stop⟩) := by
  show (a.plain? call src m i).map _ = _
  rw [ha]
  rfl

theorem plain?_node_none {kind : NodeKind} (ha : a.plain? call src m i = some none) :
    (node kind a).plain? call src m i = some none := by
  show (a.plain? call src m i).map _ = _
  rw [ha]
  rfl

theorem plain?_ofKind {kinds : List NodeKind} {t : Tree} {stop : Nat}
    (ha : a.plain? call src m i = some (some ⟨[t], stop⟩)) (hkind : kinds.any t.isKind = true) :
    (ofKind kinds a).plain? call src m i = some (some ⟨[t], stop⟩) := by
  show (a.plain? call src m i).map _ = _
  rw [ha]
  exact congrArg some (if_pos hkind)

/-- A chain that no step follows. -/
theorem plain?_chain {t : Tree} {stop : Nat}
    (ha : a.plain? call src m i = some (some ⟨[t], stop⟩))
    (hb : b.plain? call src m stop = some none) :
    (chain a b).plain? call src m i = some (some ⟨[t], stop⟩) := by
  show (a.plain? call src m i).bind _ = _
  rw [ha, Option.bind_some]
  dsimp only
  cases src.size + 1 - stop with
  | zero => rfl
  | succ fuel =>
      rw [plainChain, hb]
      rfl

theorem plain?_operation {t : Tree} {stop stop' : Nat} {pairs : List (Tree × Tree)}
    (ha : a.plain? call src m i = some (some ⟨[t], stop⟩))
    (hb : plainPairs (b.plain? call src m) (src.size + 1 - stop) stop [] = some (pairs, stop')) :
    (operation a b).plain? call src m i
      = some (some ⟨[PendingOperation.group [] t pairs], stop'⟩) := by
  show (a.plain? call src m i).bind _ = _
  rw [ha, Option.bind_some]
  simp only [hb, Option.map_some]

end Steps

end Form

end CodeSurvey
