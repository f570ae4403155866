import CodeSurvey.Proofs.Contribution
import CodeSurvey.Proofs.TokenEnd
import CodeSurvey.Proofs.TreeShape
import CodeSurvey.Record.Binding

/-!
# Literals between their quotes

The node of a string or of a template takes a quote, the content, and the same quote again
(`Span.IsQuoted`). A string is one token, so this is what its scanner says
(`peek_of_stringTailEnd`). A template is a node with parts: its quotes are the first and
the last of them, and the last one is not the first one because nothing that a form matches
ends before it begins (`Form.le_stop_of_matches`).

The property is about the span of a node, which two steps of the reading change: a step of
a chain is stretched to the front, and an operation spans its operands. Neither builds a
literal (`Form.quotesLiterals`, a check on the grammar), so the property is kept up to the
tree of the text (`quotesLiterals_parse`).

Unquoting takes quotes off both ends as long as there are any. So it gives the content
with all quotes taken off its ends (`Tree.unquoted_eq`), which is the content if it neither
begins nor ends with one, and otherwise is not (`trimBoth_eq_self_iff`).
-/

namespace CodeSurvey

/-! ## Texts without the characters of a kind at their ends -/

section Trim

variable {p : Char → Bool} {cs : List Char} {opening closing : Char}

theorem trimBoth_append_singleton (h : p closing = true) :
    trimBoth p (cs ++ [closing]) = trimBoth p cs := by
  rw [trimBoth, trimBoth, List.dropWhile_append]
  split
  · rename_i hempty
    rw [List.isEmpty_iff.mp hempty, List.dropWhile_cons_of_pos h]
    rfl
  · rw [List.reverse_append, List.reverse_singleton, List.singleton_append,
      List.dropWhile_cons_of_pos h]

/-- What is put around a text is taken off again, with what follows it. -/
theorem trimBoth_quoted (hopening : p opening = true) (hclosing : p closing = true) :
    trimBoth p (opening :: (cs ++ [closing])) = trimBoth p cs := by
  rw [← List.cons_append, trimBoth_append_singleton hclosing, trimBoth,
    List.dropWhile_cons_of_pos hopening, ← trimBoth]

theorem dropWhile_eq_self_iff_head? :
    cs.dropWhile p = cs ↔ ∀ c ∈ cs.head?, p c = false := by
  cases cs with
  | nil => exact ⟨fun _ _ hc => (nomatch hc), fun _ => rfl⟩
  | cons c cs =>
      cases hc : p c with
      | false =>
          rw [List.dropWhile_cons_of_neg (by simp [hc])]
          refine ⟨fun _ x hx => ?_, fun _ => rfl⟩
          obtain rfl := Option.some.inj hx
          exact hc
      | true =>
          rw [List.dropWhile_cons_of_pos hc]
          refine ⟨fun h => ?_, fun h => ?_⟩
          · have hlength := (List.dropWhile_sublist p (l := cs)).length_le
            rw [h, List.length_cons] at hlength
            omega
          · rw [h c rfl] at hc
            cases hc

/-- Nothing is taken off a text that has no character of the kind at its ends, and of no
other one. -/
theorem trimBoth_eq_self_iff : trimBoth p cs = cs
    ↔ (∀ c ∈ cs.head?, p c = false) ∧ ∀ c ∈ cs.getLast?, p c = false := by
  rw [← dropWhile_eq_self_iff_head?, ← List.head?_reverse, ← dropWhile_eq_self_iff_head?]
  constructor
  · intro h
    have hfront : cs.dropWhile p = cs := by
      refine (List.dropWhile_sublist p).eq_of_length_le ?_
      have hback := (List.dropWhile_sublist p (l := (cs.dropWhile p).reverse)).length_le
      rw [← List.length_reverse, ← trimBoth, h, List.length_reverse] at hback
      exact hback
    refine ⟨hfront, ?_⟩
    rw [trimBoth, hfront] at h
    exact List.reverse_eq_iff.mp h
  · rintro ⟨hfront, hback⟩
    rw [trimBoth, hfront, hback, List.reverse_reverse]

end Trim

/-! ## Quotes in the text -/

/-- The characters that unquoting takes off. -/
def isQuote (c : Char) : Bool := c = '\x22' || c = '\x27' || c = '\x60'

/-- The span begins with a quote and ends with the same quote, which is another character of
the text. -/
structure Span.IsQuoted (src : Source) (s : Span) : Prop where
  room : s.start + 2 ≤ s.stop
  stop_le : s.stop ≤ src.size
  opens : isQuote (src.peek s.start) = true
  closes : src.peek (s.stop - 1) = src.peek s.start

namespace Source

variable {s : Source} {i j : Nat}

theorem toList_slice (s : Source) (i j : Nat) :
    (s.slice i j).toList = (s.chars.toList.drop i).take (j - i) := by
  rw [slice, String.toList_ofList, Array.toList_extract, List.extract_eq_take_drop]

theorem toList_slice_cons (hlt : i < j) (hj : j ≤ s.size) :
    (s.slice i j).toList = s.peek i :: (s.slice (i + 1) j).toList := by
  have hi : i < s.chars.toList.length := by
    rw [Array.length_toList]
    exact Nat.lt_of_lt_of_le hlt hj
  have hpeek : s.peek i = s.chars.toList[i] := dif_pos (Nat.lt_of_lt_of_le hlt hj)
  obtain ⟨n, hn⟩ : ∃ n, j - i = n + 1 := ⟨j - i - 1, by omega⟩
  have hrest : j - (i + 1) = n := by omega
  rw [toList_slice, toList_slice, List.drop_eq_getElem_cons hi, hn, hrest, List.take_succ_cons,
    hpeek]

theorem toList_slice_concat (hle : i ≤ j) (hj : j < s.size) :
    (s.slice i (j + 1)).toList = (s.slice i j).toList ++ [s.peek j] := by
  have hlength : j - i < (s.chars.toList.drop i).length := by
    rw [List.length_drop, Array.length_toList]
    show j - i < s.size - i
    omega
  have hpeek : s.peek j = (s.chars.toList.drop i)[j - i] := by
    have hchar : s.peek j = s.chars.toList[j] := dif_pos hj
    simp only [hchar, List.getElem_drop, Nat.add_sub_cancel' hle]
    rfl
  rw [toList_slice, toList_slice, Nat.succ_sub hle, List.take_succ_eq_append_getElem hlength, hpeek]

/-- The text of a quoted span. -/
theorem toList_slice_of_isQuoted {span : Span} (h : span.IsQuoted s) :
    (s.slice span.start span.stop).toList = s.peek span.start
      :: ((s.slice (span.start + 1) (span.stop - 1)).toList ++ [s.peek (span.stop - 1)]) := by
  have hroom := h.room
  have hstop := h.stop_le
  obtain ⟨k, hk⟩ : ∃ k, span.stop = k + 1 := ⟨span.stop - 1, by omega⟩
  rw [toList_slice_cons (by omega) hstop, hk, toList_slice_concat (by omega) (by omega),
    Nat.add_sub_cancel]

/-! ## Tokens between quotes -/

theorem peek_of_stringTailEnd {quote : Char} (h : s.stringTailEnd? quote i = some j) :
    s.peek (j - 1) = quote := by
  fun_induction stringTailEnd? s quote i <;> grind

theorem peek_of_markupStringTailEnd {quote : Char} (h : s.markupStringTailEnd? quote i = some j) :
    s.peek (j - 1) = quote := by
  fun_induction markupStringTailEnd? s quote i <;> grind

theorem isQuoted_of_tailEnd {quote : Char} (hquote : quote = '\x22' ∨ quote = '\x27')
    (hpeek : s.peek i = quote) (hlt : i + 1 < j) (hj : j ≤ s.size)
    (hcloses : s.peek (j - 1) = quote) : (⟨i, j⟩ : Span).IsQuoted s := by
  refine ⟨hlt, hj, ?_, hcloses.trans hpeek.symm⟩
  show isQuote (s.peek i) = true
  rw [hpeek]
  rcases hquote with rfl | rfl
  · rfl
  · rfl

theorem isQuoted_of_stringEnd (h : s.stringEnd? i = some j) : (⟨i, j⟩ : Span).IsQuoted s := by
  have hstop := stringEnd_le h
  rw [stringEnd?] at h
  split at h
  · rename_i hquote
    exact isQuoted_of_tailEnd (by simpa using hquote) rfl (lt_stringTailEnd h) hstop
      (peek_of_stringTailEnd h)
  · cases h

theorem isQuoted_of_markupStringEnd (h : s.markupStringEnd? i = some j) :
    (⟨i, j⟩ : Span).IsQuoted s := by
  have hstop := markupStringEnd_le h
  rw [markupStringEnd?] at h
  split at h
  · rename_i hquote
    exact isQuoted_of_tailEnd (by simpa using hquote) rfl (lt_markupStringTailEnd h) hstop
      (peek_of_markupStringTailEnd h)
  · cases h

end Source

/-! ## Literals -/

/-- A string or a template. -/
def Label.isLiteral : Label → Bool
  | .named .stringLiteral | .named .templateString => true
  | _ => false

namespace Tree

variable {src : Source}

/-- All literals in the tree are quoted. -/
def QuotesLiterals (src : Source) (t : Tree) : Prop :=
  ∀ u ∈ t.preorder, u.label.isLiteral = true → u.span.IsQuoted src

theorem quotesLiterals_node {l : Label} {f : Option Field} {s : Span} {cs : List Tree} :
    (node l f s cs).QuotesLiterals src
      ↔ (l.isLiteral = true → s.IsQuoted src) ∧ ∀ t ∈ cs, t.QuotesLiterals src :=
  forall_mem_preorder

/-- A token that is no literal. -/
theorem quotesLiterals_leaf {l : Label} (h : l.isLiteral = false) (s : Span) :
    (node l none s []).QuotesLiterals src := by
  refine quotesLiterals_node.mpr ⟨fun hl => ?_, List.forall_mem_nil _⟩
  rw [h] at hl
  cases hl

theorem quotesLiterals_withField {f : Field} {t : Tree} :
    (t.withField f).QuotesLiterals src ↔ t.QuotesLiterals src := by
  obtain ⟨l, g, s, cs⟩ := t
  exact quotesLiterals_node.trans quotesLiterals_node.symm

/-- A step of a chain is stretched to the front, so it must not be a literal. -/
theorem quotesLiterals_prependChild {first t : Tree} (hlabel : t.label.isLiteral = false)
    (hfirst : first.QuotesLiterals src) (ht : t.QuotesLiterals src) :
    (first.prependChild t).QuotesLiterals src := by
  obtain ⟨l, f, s, cs⟩ := t
  have hbelow := (quotesLiterals_node.mp ht).2
  refine quotesLiterals_node.mpr ⟨fun hl => ?_, List.forall_mem_cons.mpr ⟨?_, hbelow⟩⟩
  · rw [show l.isLiteral = false from hlabel] at hl
    cases hl
  · split
    · split
      · exact quotesLiterals_withField.mpr hfirst
      · exact hfirst
    · exact hfirst

theorem quotesLiterals_close {p : PendingOperation} {right : Tree}
    (hleft : p.left.QuotesLiterals src) (hoperator : p.operator.QuotesLiterals src)
    (hright : right.QuotesLiterals src) : (p.close right).QuotesLiterals src := by
  unfold PendingOperation.close
  dsimp only
  split
  all_goals
    refine quotesLiterals_node.mpr ⟨fun h => (nomatch h), ?_⟩
    simp only [List.forall_mem_cons, quotesLiterals_withField]
    exact ⟨hleft, hoperator, hright, fun _ h => nomatch h⟩

theorem quotesLiterals_of_mem_commentsBetween {i stop : Nat} {t : Tree}
    (h : t ∈ src.commentsBetween i stop) : t.QuotesLiterals src := by
  obtain ⟨start, stop, rfl | rfl⟩ := isCommentLeaf_of_mem_commentsBetween h
  · exact quotesLiterals_leaf rfl _
  · exact quotesLiterals_leaf rfl _

mutual

/-- Comments are put between the children of a node, whose span stays. -/
theorem quotesLiterals_placeComments : (t : Tree) → t.QuotesLiterals src →
    (t.placeComments src).QuotesLiterals src
  | .node l f s [], h => by
      rw [placeComments]
      exact h
  | .node l f s (c :: cs), h => by
      obtain ⟨hroot, hbelow⟩ := quotesLiterals_node.mp h
      rw [placeComments]
      exact quotesLiterals_node.mpr
        ⟨hroot, quotesLiterals_placeCommentsAmong s.start s.stop (c :: cs) hbelow⟩

theorem quotesLiterals_placeCommentsAmong (i stop : Nat) : (ts : List Tree) →
    (∀ t ∈ ts, t.QuotesLiterals src) → ∀ u ∈ placeCommentsAmong src i stop ts, u.QuotesLiterals src
  | [], _, u, hu => by
      rw [placeCommentsAmong] at hu
      exact quotesLiterals_of_mem_commentsBetween hu
  | t :: ts, h, u, hu => by
      obtain ⟨ht, hts⟩ := List.forall_mem_cons.mp h
      rw [placeCommentsAmong, List.mem_append, List.mem_cons] at hu
      rcases hu with hu | rfl | hu
      · exact quotesLiterals_of_mem_commentsBetween hu
      · exact quotesLiterals_placeComments t ht
      · exact quotesLiterals_placeCommentsAmong t.span.stop stop ts hts u hu

end

end Tree

/-! ## Matches -/

theorem Series.le {α : Type} {P : Nat → α → Nat → Prop} {i k : Nat} {parts : List α}
    (h : Series P i parts k) (hP : ∀ i part j, P i part j → i ≤ j) : i ≤ k := by
  induction h with
  | nil i => exact Nat.le_refl i
  | cons hpart _ ih => exact Nat.le_trans (hP _ _ _ hpart) ih

namespace Form

variable {rules : RuleMatches} {src : Source} {a : Form} {m : Mode} {i : Nat} {x : Match}

/-- A token stops no earlier than the blanks in front of it begin. -/
theorem le_stop_of_token (htoken : a.isToken = true) (h : a.Matches rules src m i x) :
    i ≤ x.stop := by
  have hskip : ∀ markup, i ≤ src.skipTrivia markup i := fun markup => src.le_skipTrivia markup i
  cases a with
  | mark text | namedWord kind word | conditionalMark =>
      obtain ⟨-, rfl⟩ := h
      exact Nat.le_trans (hskip _) (Nat.le_add_right _ _)
  | gluedMark text =>
      obtain ⟨-, rfl⟩ := h
      exact Nat.le_add_right _ _
  | operator among =>
      obtain ⟨text, -, -, rfl⟩ := h
      exact Nat.le_trans (hskip _) (Nat.le_add_right _ _)
  | keyword among =>
      obtain ⟨stop, hend, -, rfl⟩ := h
      exact Nat.le_trans (hskip _) (Nat.le_of_lt (Source.lt_wordEnd hend))
  | literal kind shape =>
      obtain ⟨stop, hend, rfl⟩ := h
      exact Nat.le_trans (hskip _) (Shape.le_end hend)
  | gluedLiteral kind shape =>
      obtain ⟨stop, hend, rfl⟩ := h
      exact Shape.le_end hend
  | semicolon afterOperand =>
      obtain ⟨stop, hend, rfl⟩ := h
      exact Source.le_virtualSemicolon hend
  | endOfText =>
      obtain ⟨-, rfl⟩ := h
      exact Nat.le_refl i
  | empty =>
      obtain rfl := h
      exact Nat.le_refl i
  | _ => cases htoken

/-- A form stops no earlier than it begins, if the rules do. -/
theorem le_stop_of_matches (hrules : ∀ r m i x, rules r m i x → i ≤ x.stop)
    (h : a.Matches rules src m i x) : i ≤ x.stop := by
  induction a generalizing m i x with
  | ahead a | butNot a =>
      obtain rfl := h
      exact Nat.le_refl i
  | rule r => exact hrules r m i x h
  | seq a b iha ihb =>
      obtain ⟨y, z, hy, hz, rfl⟩ := h
      have hle := ihb hz
      exact Nat.le_trans (iha hy) hle
  | alt a b iha ihb => exact h.elim iha ihb
  | many a ih =>
      obtain ⟨parts, stop, hparts, rfl⟩ := h
      exact hparts.le fun _ _ _ => ih
  | field f a ih | node kind a ih =>
      obtain ⟨y, hy, rfl⟩ := h
      have hle := ih hy
      exact hle
  | chain first step ihf ihs =>
      rcases h with h | ⟨head, steps, j, stop, hhead, hsteps, rfl⟩
      · exact ihf h
      · exact Nat.le_trans (ihf hhead) (hsteps.le fun _ _ _ => ihs)
  | operation operand tail iho iht =>
      rcases h with h | ⟨head, pairs, j, stop, hhead, hpairs, rfl⟩
      · exact iho h
      · exact Nat.le_trans (iho hhead) (hpairs.le fun _ _ _ => iht)
  | ofKind kinds a ih => exact ih h.1
  | inMode change a ih => exact ih h
  | when holds a ih => exact ih h.2
  | _ => exact le_stop_of_token rfl h

/-! ### Literals in a match -/

/-- A node that begins and ends with a grave accent. -/
def isBackquoted : Form → Bool
  | seq (mark opening) (seq _ (gluedMark closing)) => opening == "\x60" && closing == "\x60"
  | _ => false

/-- All literals that the form builds are quoted. -/
def quotesLiterals : Form → Bool
  | namedWord kind _ => !(Label.named kind).isLiteral
  | literal kind shape | gluedLiteral kind shape =>
    !(Label.named kind).isLiteral || shape == .string || shape == .markupString
  | seq a b | alt a b | operation a b => a.quotesLiterals && b.quotesLiterals
  | chain a b =>
    b.allTops noRule (fun l _ => !l.isLiteral) && (a.quotesLiterals && b.quotesLiterals)
  | many a | field _ a | ofKind _ a | inMode _ a | when _ a => a.quotesLiterals
  | node kind a => (!(Label.named kind).isLiteral || a.isBackquoted) && a.quotesLiterals
  | _ => true

theorem quotesLiterals_form (r : Rule) : r.form.quotesLiterals = true := by
  cases r <;> decide +kernel

/-- A form matches no less if the rules match more. -/
theorem Matches.imp {rules' : RuleMatches} (himp : ∀ r m i x, rules r m i x → rules' r m i x)
    (h : a.Matches rules src m i x) : a.Matches rules' src m i x := by
  induction a generalizing m i x with
  | mark _ | gluedMark _ | operator _ | keyword _ | namedWord _ _ | literal _ _ | gluedLiteral _ _
    | semicolon _ | conditionalMark | endOfText | empty | ahead _ | butNot _ => exact h
  | rule r => exact himp r m i x h
  | seq a b iha ihb =>
      obtain ⟨y, z, hy, hz, rfl⟩ := h
      exact ⟨y, z, iha hy, ihb hz, rfl⟩
  | alt a b iha ihb => exact h.imp iha ihb
  | many a ih =>
      obtain ⟨parts, stop, hparts, rfl⟩ := h
      exact ⟨parts, stop, hparts.imp fun _ _ _ => ih, rfl⟩
  | field f a ih | node kind a ih =>
      obtain ⟨y, hy, rfl⟩ := h
      exact ⟨y, ih hy, rfl⟩
  | chain first step ihf ihs =>
      rcases h with h | ⟨head, steps, j, stop, hhead, hsteps, rfl⟩
      · exact .inl (ihf h)
      · exact .inr ⟨head, steps, j, stop, ihf hhead, hsteps.imp fun _ _ _ => ihs, rfl⟩
  | operation operand tail iho iht =>
      rcases h with h | ⟨head, pairs, j, stop, hhead, hpairs, rfl⟩
      · exact .inl (iho h)
      · exact .inr ⟨head, pairs, j, stop, iho hhead, hpairs.imp fun _ _ _ => iht, rfl⟩
  | ofKind kinds a ih => exact ⟨ih h.1, h.2⟩
  | inMode change a ih => exact ih h
  | when holds a ih => exact ⟨h.1, ih h.2⟩

/-- Roots of matches of which it is known without any rule. -/
theorem top_of_matches {q : Top} (hkeeps : a.keepsDialect = true) (h : a.allTops noRule q = true)
    (hx : a.Matches rules src m i x) : ∀ t ∈ x.trees, t.hasTop q = true := by
  have hany : a.Matches (fun _ _ _ _ => True) src m i x := hx.imp fun _ _ _ _ _ => trivial
  have hts : a.Contributes (fun _ _ => True) m.dialect x.trees :=
    contributes_of_matches hkeeps rfl hany
  exact top_of_noRule h hts

/-- The quotes of a template are its first and its last part. -/
theorem isQuoted_of_isBackquoted (hform : a.isBackquoted = true)
    (hrules : ∀ r m i x, rules r m i x → i ≤ x.stop) (h : a.Matches rules src m i x) :
    (⟨x.start, x.stop⟩ : Span).IsQuoted src := by
  unfold isBackquoted at hform
  split at hform
  · rename_i opening inside closing
    obtain ⟨hopening, hclosing⟩ := Bool.and_eq_true_iff.mp hform
    obtain rfl := eq_of_beq hopening
    obtain rfl := eq_of_beq hclosing
    obtain ⟨y, z, ⟨hopens, rfl⟩, ⟨u, v, hinside, ⟨hcloses, rfl⟩, rfl⟩, rfl⟩ := h
    have hle := le_stop_of_matches hrules hinside
    have hpeek : ∀ {i}, src.startsWith "\x60".toList i = true → i < src.size ∧ src.peek i = '\x60' := by
      intro i hstart
      simpa [Source.startsWith] using hstart
    obtain ⟨hlt, hfirst⟩ := hpeek hopens
    obtain ⟨hlt', hlast⟩ := hpeek hcloses
    refine ⟨Nat.succ_le_succ hle, hlt', ?_, ?_⟩
    · exact congrArg isQuote hfirst
    · exact hlast.trans hfirst.symm
  · cases hform

/-- What the rules match ends behind where it begins, and its literals are quoted. -/
structure Quotes (src : Source) (i : Nat) (x : Match) : Prop where
  le_stop : i ≤ x.stop
  quoted : ∀ t ∈ x.trees, t.QuotesLiterals src

theorem Shape.isQuoted {shape : Shape} {start stop : Nat}
    (hshape : shape = .string ∨ shape = .markupString) (h : shape.end? src start = some stop) :
    (⟨start, stop⟩ : Span).IsQuoted src := by
  rcases hshape with rfl | rfl
  · exact Source.isQuoted_of_stringEnd h
  · exact Source.isQuoted_of_markupStringEnd h

/-- A token is no literal, or it is a string. -/
theorem quotesLiterals_token {kind : NodeKind} {shape : Shape} {start stop : Nat}
    (hform : (!(Label.named kind).isLiteral || shape == .string || shape == .markupString) = true)
    (h : shape.end? src start = some stop) :
    ∀ t ∈ [Tree.leaf kind start stop], t.QuotesLiterals src := by
  refine List.forall_mem_singleton.mpr (Tree.quotesLiterals_node.mpr ⟨fun hl => ?_, List.forall_mem_nil _⟩)
  rw [hl] at hform
  exact Shape.isQuoted (by simpa using hform) h

/-- The literals that a form builds are quoted, if those of the rules are. -/
theorem quoted_of_matches (hform : a.quotesLiterals = true) (hkeeps : a.keepsDialect = true)
    (h : a.Matches (fun _ _ i x => Quotes src i x) src m i x) :
    ∀ t ∈ x.trees, t.QuotesLiterals src := by
  have hrules : ∀ (r : Rule) (m : Mode) (i : Nat) (x : Match), Quotes src i x → i ≤ x.stop :=
    fun _ _ _ _ h => h.le_stop
  have htoken : ∀ {text : String} {s : Span}, ∀ t ∈ [Tree.node (.token text) none s []],
      t.QuotesLiterals src :=
    fun {_ s} => List.forall_mem_singleton.mpr (Tree.quotesLiterals_leaf rfl s)
  have hnone : ∀ t ∈ ([] : List Tree), t.QuotesLiterals src := List.forall_mem_nil _
  induction a generalizing m i x with
  | mark text | gluedMark text | conditionalMark =>
      obtain ⟨-, rfl⟩ := h
      exact htoken
  | operator among =>
      obtain ⟨text, -, -, rfl⟩ := h
      exact htoken
  | keyword among =>
      obtain ⟨stop, -, -, rfl⟩ := h
      exact htoken
  | namedWord kind word =>
      obtain ⟨-, rfl⟩ := h
      have hkind : (Label.named kind).isLiteral = false := by simpa [quotesLiterals] using hform
      exact List.forall_mem_singleton.mpr (Tree.quotesLiterals_leaf hkind _)
  | literal kind shape | gluedLiteral kind shape =>
      obtain ⟨stop, hend, rfl⟩ := h
      exact quotesLiterals_token hform hend
  | semicolon afterOperand =>
      obtain ⟨stop, -, rfl⟩ := h
      exact hnone
  | endOfText =>
      obtain ⟨-, rfl⟩ := h
      exact hnone
  | empty | ahead a | butNot a =>
      obtain rfl := h
      exact hnone
  | rule r => exact h.quoted
  | seq a b iha ihb =>
      obtain ⟨ha, hb⟩ := Bool.and_eq_true_iff.mp hform
      obtain ⟨hka, hkb⟩ := Bool.and_eq_true_iff.mp hkeeps
      obtain ⟨y, z, hy, hz, rfl⟩ := h
      exact List.forall_mem_append.mpr ⟨iha ha hka hy, ihb hb hkb hz⟩
  | alt a b iha ihb =>
      obtain ⟨ha, hb⟩ := Bool.and_eq_true_iff.mp hform
      obtain ⟨hka, hkb⟩ := Bool.and_eq_true_iff.mp hkeeps
      rcases h with h | h
      · exact iha ha hka h
      · exact ihb hb hkb h
  | many a ih =>
      obtain ⟨parts, stop, hparts, rfl⟩ := h
      intro t ht
      obtain ⟨part, hpart, ht⟩ := List.mem_flatten.mp ht
      obtain ⟨i, j, hmatch⟩ := hparts.forall_mem part hpart
      exact ih hform hkeeps hmatch t ht
  | field f a ih =>
      obtain ⟨y, hy, rfl⟩ := h
      intro t ht
      obtain ⟨u, hu, rfl⟩ := List.mem_map.mp ht
      have hquoted := ih hform hkeeps hy u hu
      split
      · exact Tree.quotesLiterals_withField.mpr hquoted
      · exact hquoted
  | node kind a ih =>
      obtain ⟨hkind, ha⟩ := Bool.and_eq_true_iff.mp hform
      obtain ⟨y, hy, rfl⟩ := h
      refine List.forall_mem_singleton.mpr (Tree.quotesLiterals_node.mpr ⟨fun hl => ?_, ih ha hkeeps hy⟩)
      rw [hl] at hkind
      exact isQuoted_of_isBackquoted hkind hrules hy
  | chain first step ihf ihs =>
      obtain ⟨htops, hparts⟩ := Bool.and_eq_true_iff.mp hform
      obtain ⟨hf, hs⟩ := Bool.and_eq_true_iff.mp hparts
      obtain ⟨hkf, hks⟩ := Bool.and_eq_true_iff.mp hkeeps
      rcases h with h | ⟨head, steps, j, stop, hhead, hsteps, rfl⟩
      · exact ihf hf hkf h
      · have hfirst := ihf hf hkf hhead head (List.mem_singleton.mpr rfl)
        refine List.forall_mem_singleton.mpr
          (List.foldlRecOn (motive := Tree.QuotesLiterals src) steps _ hfirst ?_)
        intro t ht next hnext
        obtain ⟨i, j, hmatch⟩ := hsteps.forall_mem next hnext
        have htop := top_of_matches hks htops hmatch next (List.mem_singleton.mpr rfl)
        have hquoted := ihs hs hks hmatch next (List.mem_singleton.mpr rfl)
        exact Tree.quotesLiterals_prependChild (by simpa [Tree.hasTop] using htop) ht hquoted
  | operation operand tail iho iht =>
      obtain ⟨ho, ht⟩ := Bool.and_eq_true_iff.mp hform
      obtain ⟨hko, hkt⟩ := Bool.and_eq_true_iff.mp hkeeps
      rcases h with h | ⟨head, pairs, j, stop, hhead, hpairs, rfl⟩
      · exact iho ho hko h
      · refine List.forall_mem_singleton.mpr (PendingOperation.group_of_close ?_ ?_ ?_ ?_)
        · exact fun p right => Tree.quotesLiterals_close
        · exact List.forall_mem_nil _
        · exact iho ho hko hhead head (List.mem_singleton.mpr rfl)
        · intro pair hpair
          obtain ⟨i, j, hmatch⟩ := hpairs.forall_mem pair hpair
          have hboth := iht ht hkt hmatch
          exact ⟨hboth pair.1 (by simp), hboth pair.2 (by simp)⟩
  | ofKind kinds a ih => exact ih hform hkeeps h.1
  | inMode change a ih => exact ih hform (Bool.and_eq_true_iff.mp hkeeps).2 h
  | when holds a ih => exact ih hform hkeeps h.2

end Form

/-! ## The tree of a text -/

theorem quotes_readProgram {src : Source} {d : Dialect} {x : Match} {n : Notes}
    (h : src.readProgram d = (some x, n)) : Form.Quotes src 0 x := by
  have hclosed : ∀ r m i x, m.dialect = d →
      (Rule.form r).Matches (fun _ _ i x => Form.Quotes src i x) src m i x → Form.Quotes src i x := by
    intro r m i x _ hx
    exact ⟨Form.le_stop_of_matches (fun _ _ _ _ h => h.le_stop) hx,
      Form.quoted_of_matches (Form.quotesLiterals_form r) (Form.keepsDialect_form r) hx⟩
  exact matches_readProgram hclosed h

theorem label_readProgram {src : Source} {d : Dialect} {x : Match} {n : Notes}
    (h : src.readProgram d = (some x, n)) : ∀ t ∈ x.trees, t.label.isLiteral = false := by
  have hclosed : ∀ r ts, (Rule.form r).Contributes
      (fun r ts => r = .program → ∀ t ∈ ts, t.label.isLiteral = false) d ts →
        r = .program → ∀ t ∈ ts, t.label.isLiteral = false := by
    rintro r ts hts rfl t ht
    have htop := Form.top_of_noRule (q := fun l _ => !l.isLiteral) (by decide +kernel) hts t ht
    simpa [Tree.hasTop] using htop
  exact contributions_readProgram hclosed h rfl

/-- In the tree of a text all literals are quoted. -/
theorem quotesLiterals_parse (src : Source) (d : Dialect) : (src.parse d).QuotesLiterals src := by
  rw [Source.parse]
  split
  · rename_i t stop notes hread
    have hquoted := (quotes_readProgram hread).quoted t (List.mem_singleton.mpr rfl)
    have hlabel := label_readProgram hread t (List.mem_singleton.mpr rfl)
    refine Tree.quotesLiterals_node.mpr ⟨fun hl => ?_, ?_⟩
    · rw [hlabel] at hl
      cases hl
    · obtain ⟨l, f, s, cs⟩ := t
      exact Tree.quotesLiterals_placeCommentsAmong 0 src.size cs
        (Tree.quotesLiterals_node.mp hquoted).2
  · refine Tree.quotesLiterals_node.mpr ⟨fun h => (nomatch h), ?_⟩
    exact List.forall_mem_singleton.mpr (Tree.quotesLiterals_leaf rfl _)

/-! ## Without the quotes -/

namespace Tree

variable {src : Source} {t : Tree}

/-- What stands between the quotes of a literal. -/
def content (src : Source) (t : Tree) : String := src.slice (t.span.start + 1) (t.span.stop - 1)

/-- Unquoting gives the content without any quotes at its ends. -/
theorem unquoted_eq (h : t.span.IsQuoted src) :
    t.unquoted src = String.ofList (trimBoth isQuote (t.content src).toList) := by
  have hpred : (fun c => c = '\x22' || c = '\x27' || c = '\x60') = isQuote := rfl
  have hcloses : isQuote (src.peek (t.span.stop - 1)) = true := h.closes ▸ h.opens
  rw [unquoted, text, Source.toList_slice_of_isQuoted h, hpred, trimBoth_quoted h.opens hcloses]
  rfl

/-- It gives the content itself if that has no quotes at its ends, and otherwise it does
not. -/
theorem unquoted_eq_content_iff (h : t.span.IsQuoted src) : t.unquoted src = t.content src
    ↔ (∀ c ∈ (t.content src).toList.head?, isQuote c = false)
      ∧ ∀ c ∈ (t.content src).toList.getLast?, isQuote c = false := by
  rw [unquoted_eq h, ← trimBoth_eq_self_iff, String.ext_iff, String.toList_ofList]

end Tree

end CodeSurvey
