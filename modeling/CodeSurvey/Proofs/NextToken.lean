import CodeSurvey.Proofs.PlainReading

/-!
# What the next token tells

Most of what a grammar tries at an offset fails at once, because the next token is
not one with which the form begins. To see this there is no need to read: `Form.glance`
is given the next token (`NextToken`) and says that a form fails, or that it matches
with nothing in front of that token, or that the token alone does not decide it.

`plainRule_of_glance` is what the modules that follow a text through the grammar use:
the many alternatives that come to nothing are one evaluation of the grammar each, and
only the forms that do take the token are left to be read.
-/

namespace CodeSurvey

/-- The next token, as far as the first look at it goes. -/
structure NextToken where
  /-- Its first character, and NUL at the end of the text. -/
  first : Char
  /-- The word that it is, if it is one. -/
  word? : Option String
  /-- The operator that it is, if it is one. -/
  operator? : Option String

namespace NextToken

/-- Whether this is the end of the text. -/
def isEnd (k : NextToken) : Bool := k.first = '\x00'

/-- The token stands exactly at `i`, and a statement ends there at the end of the text
only. -/
structure StandsAt (k : NextToken) (src : Source) (d : Dialect) (i : Nat) : Prop where
  peek : src.peek i = k.first
  skip : ∀ markup, src.skipTrivia markup i = i
  word : (src.wordEnd? i).map (src.slice i) = k.word?
  operator : src.operatorAt? i = k.operator?
  size : src.size ≤ i ↔ k.isEnd = true
  semicolon : ∀ afterOperand,
    src.virtualSemicolon? d afterOperand i = if k.isEnd then some i else none

end NextToken

/-- Whether no token of the shape begins with the character. It is not asked of the
shapes for the insides of templates and of markup. -/
def Shape.refuses (c : Char) : Shape → Bool
  | word => !isWordStart c && c ≠ '\\'
  | number => !isAsciiDigit c && c ≠ '.'
  | string | markupString => c ≠ '\x22' && c ≠ '\x27'
  | regex => c ≠ '/'
  | privateName | hashBangLine => c ≠ '#'
  | escape => c ≠ '\\'
  | characterReference => c ≠ '&'
  | templateChars | markupText | markupName => false

namespace Form

/-- Whether characters to be matched begin otherwise than with `c`. -/
def beginsOtherwise (text : String) (c : Char) : Bool :=
  match text.toList with
  | [] => false
  | first :: _ => first ≠ c

/-- What the next token tells of a form: that it fails, or that it matches in front of
the token and contributes nothing, if it tells anything. -/
def glance (known : Rule → Mode → Option Bool) (k : NextToken) : Form → Mode → Option Bool
  | mark text, _ | gluedMark text, _ | namedWord _ text, _ =>
    if beginsOtherwise text k.first then some false else none
  | operator among, _ =>
    match k.operator? with
    | some text => if among.contains text then none else some false
    | none => some false
  | keyword among, _ =>
    match k.word? with
    | some text => if among.contains text then none else some false
    | none => some false
  | literal _ shape, _ | gluedLiteral _ shape, _ =>
    if shape.refuses k.first then some false else none
  | semicolon _, _ => some k.isEnd
  | conditionalMark, _ => if k.first = '?' then none else some false
  | endOfText, _ => some k.isEnd
  | rule r, m => known r m
  | empty, _ => some true
  | seq a b, m =>
    (a.glance known k m).bind fun passes => if passes then b.glance known k m else some false
  | alt a b, m =>
    (a.glance known k m).bind fun passes => if passes then some true else b.glance known k m
  | many a, m => (a.glance known k m).map fun _ => true
  | ahead a, m | field _ a, m => a.glance known k m
  | butNot a, m => (a.glance known k m).map not
  | node _ a, m | chain a _, m | operation a _, m | ofKind _ a, m =>
    (a.glance known k m).bind fun passes => if passes then none else some false
  | inMode change a, m => a.glance known k (change m)
  | when holds a, m => if holds m then a.glance known k m else some false

end Form

/-- What the next token tells of a rule, if rules do not nest more deeply than `depth`. -/
def glanceRule (grammar : Rule → Form) (k : NextToken) : Nat → Rule → Mode → Option Bool
  | 0, _, _ => none
  | depth + 1, r, m => (grammar r).glance (glanceRule grammar k depth) k m

/-! ## Tokens that begin otherwise -/

namespace Source

variable {s : Source} {i : Nat}

theorem startsWith_of_beginsOtherwise {text : String}
    (h : Form.beginsOtherwise text (s.peek i) = true) : s.startsWith text.toList i = false := by
  unfold Form.beginsOtherwise at h
  cases htext : text.toList with
  | nil => simp [htext] at h
  | cons c cs =>
      rw [startsWith]
      simp only [htext, ne_eq, decide_eq_true_eq] at h
      simp [Ne.symm h]

theorem digitsEnd?_of_not {isDigit : Char → Bool} (h : isDigit (s.peek i) = false) :
    s.digitsEnd? isDigit i = none := by
  rw [digitsEnd?]
  simp [h]

theorem numberEnd?_of_refuses (hdigit : isAsciiDigit (s.peek i) = false) (hpoint : s.peek i ≠ '.') :
    s.numberEnd? i = none := by
  have hzero : s.peek i ≠ '0' := by
    intro h
    rw [h] at hdigit
    exact absurd hdigit (by decide)
  have hinteger : s.integerEnd? i = none := by simp [integerEnd?, hdigit, hzero]
  simp [numberEnd?, numberEnds, hzero, hpoint, hinteger, digitsEnd?_of_not hdigit]

theorem shapeEnd?_of_refuses {shape : Shape} (h : shape.refuses (s.peek i) = true) :
    shape.end? s i = none := by
  cases shape <;> simp only [Shape.refuses, Bool.and_eq_true, Bool.not_eq_true', decide_eq_true_eq,
    ne_eq, Bool.false_eq_true] at h
  case word => simp [Shape.end?, wordEnd?, h.1, unicodeEscapeEnd?, h.2]
  case number => exact numberEnd?_of_refuses h.1 h.2
  case string => simp [Shape.end?, stringEnd?, h]
  case regex => simp [Shape.end?, regexEnd?, h]
  case privateName => simp [Shape.end?, h]
  case escape => simp [Shape.end?, escapeEnd?, h]
  case markupString => simp [Shape.end?, markupStringEnd?, h]
  case characterReference => simp [Shape.end?, characterReferenceEnd?, h]
  case hashBangLine => simp [Shape.end?, startsWith, h]

end Source

/-! ## Where a token stands -/

theorem Source.skipWhile_of_not {s : Source} {p : Char → Bool} {i : Nat}
    (h : p (s.peek i) = false) : s.skipWhile p i = i := by
  rw [skipWhile]
  split
  · rename_i hi
    rw [peek, dif_pos hi] at h
    rw [if_neg (by simp [h])]
  · rfl

namespace NextToken

/-- Whether the character is part of no blank, no comment and no end of a statement. -/
def isPlainChar (c : Char) : Bool :=
  !isBlank c && !isAsciiBlank c && !isStatementBreak c
    && !(['/', '<', '-', '\x7d', '\x00'].contains c)

variable {k : NextToken} {src : Source} {i : Nat}

theorem StandsAt.of_plain (hplain : isPlainChar k.first = true) (hi : i < src.size)
    (hpeek : src.peek i = k.first) (hword : (src.wordEnd? i).map (src.slice i) = k.word?)
    (hoperator : src.operatorAt? i = k.operator?) : k.StandsAt src .javascript i := by
  simp only [isPlainChar, Bool.and_eq_true, Bool.not_eq_true', List.contains_eq_mem,
    decide_eq_false_iff_not, List.mem_cons, List.not_mem_nil, or_false, not_or] at hplain
  obtain ⟨⟨⟨hblank, hascii⟩, hbreak⟩, hslash, hless, hminus, hbrace, hnul⟩ := hplain
  have hcomment : src.commentEnd? i = none := by simp [Source.commentEnd?, hpeek, hslash]
  have hmarkup : src.htmlCommentEnd? i = none := by
    simp [Source.htmlCommentEnd?, Source.startsWith, hpeek, hless, hminus]
  have hend : k.isEnd = false := by simp [isEnd, hnul]
  have hany : ∀ markup, src.anyCommentEnd? markup i = none := by
    intro markup
    simp [Source.anyCommentEnd?, hcomment, hmarkup]
  refine ⟨hpeek, ?_, hword, hoperator, ?_, ?_⟩
  · intro markup
    rw [Source.skipTrivia, dif_pos hi, if_neg (by simp [hpeek, hblank])]
    split
    · rename_i heq
      rw [hany] at heq
      cases heq
    · rfl
  · simp [hend, hi]
  · intro afterOperand
    have hskip : src.skipWhile isBlank i = i := Source.skipWhile_of_not (by rw [hpeek, hblank])
    have hnone : src.plainSemicolonAt afterOperand i = false := by
      rw [Source.plainSemicolonAt, if_pos hi]
      simp [hpeek, hslash, hbrace, hbreak, hascii]
    rw [Source.virtualSemicolon?]
    simp only [Source.semicolonAt, Dialect.isTyped, Bool.false_eq_true, if_false, hnone, hend]
    split
    · rename_i heq
      rw [hskip, hcomment] at heq
      cases heq
    · rfl

/-- What stands behind the text. -/
def behind : NextToken := ⟨'\x00', none, none⟩

theorem StandsAt.of_le (hi : src.size ≤ i) : behind.StandsAt src .javascript i := by
  have hpeek : src.peek i = '\x00' := dif_neg (Nat.not_lt.mpr hi)
  have hlt : ¬i < src.size := Nat.not_lt.mpr hi
  refine ⟨hpeek, ?_, ?_, ?_, ?_, ?_⟩
  · intro markup
    rw [Source.skipTrivia, dif_neg hlt]
  · rw [Source.wordEnd?, if_neg hlt]
    rfl
  · rw [Source.operatorAt?, hpeek]
    rfl
  · simp [isEnd, behind, hi]
  · intro afterOperand
    rw [Source.virtualSemicolon?]
    have hsemicolon : src.semicolonAt .javascript afterOperand i = true := by
      simp [Source.semicolonAt, Dialect.isTyped, Source.plainSemicolonAt, hlt]
    rw [if_pos hsemicolon]
    rfl

end NextToken

/-! ## A glance is right -/

/-- How a glance says that a form is read. -/
def glanced (i : Nat) : Bool → Option Match
  | true => some ⟨[], i⟩
  | false => none

namespace Form

variable {known : Rule → Mode → Option Bool} {k : NextToken} {src : Source} {d : Dialect} {i : Nat}
  {call : Rule → Mode → Nat → Option (Option Match)}

theorem token?_of_glance (hk : k.StandsAt src d i) {a : Form} (ha : a.isToken = true) {m : Mode}
    (hm : m.dialect = d) {b : Bool} (h : a.glance known k m = some b) :
    a.token? src m i = glanced i b := by
  cases a with
  | mark text | gluedMark text =>
      rw [glance] at h
      split at h
      · rename_i hother
        obtain rfl := Option.some.inj h
        rw [← hk.peek] at hother
        simp [token?, read, hk.skip, Source.startsWith_of_beginsOtherwise hother, glanced]
      · cases h
  | namedWord kind text =>
      rw [glance] at h
      split at h
      · rename_i hother
        obtain rfl := Option.some.inj h
        rw [← hk.peek] at hother
        simp [token?, read, hk.skip, Source.atWord,
          Source.startsWith_of_beginsOtherwise hother, glanced]
      · cases h
  | literal kind shape | gluedLiteral kind shape =>
      rw [glance] at h
      split at h
      · rename_i hrefuses
        obtain rfl := Option.some.inj h
        rw [← hk.peek] at hrefuses
        simp [token?, read, hk.skip, Source.shapeEnd?_of_refuses hrefuses, glanced]
      · cases h
  | operator among =>
      have hoperator := hk.operator
      rw [glance] at h
      split at h
      · rename_i text htext
        split at h
        · cases h
        · rename_i hmem
          obtain rfl := Option.some.inj h
          simp only [token?, read, hk.skip, hoperator.trans htext, if_neg hmem, glanced]
      · rename_i htext
        obtain rfl := Option.some.inj h
        simp [token?, read, hk.skip, hoperator.trans htext, glanced]
  | keyword among =>
      have hword := hk.word
      rw [glance, ← hword] at h
      cases hend : src.wordEnd? i with
      | none =>
          rw [hend] at h
          obtain rfl := Option.some.inj h
          simp [token?, read, hk.skip, hend, glanced]
      | some stop =>
          rw [hend, Option.map_some] at h
          dsimp only at h
          split at h
          · cases h
          · rename_i hmem
            obtain rfl := Option.some.inj h
            simp only [token?, read, hk.skip, hend, if_neg hmem, glanced]
  | semicolon afterOperand =>
      obtain rfl := Option.some.inj h
      rw [← hm] at hk
      simp only [token?, read, hk.semicolon]
      cases k.isEnd <;> simp [glanced]
  | conditionalMark =>
      rw [glance] at h
      split at h
      · cases h
      · rename_i hmark
        obtain rfl := Option.some.inj h
        rw [← hk.peek] at hmark
        simp [token?, read, hk.skip, Source.isConditionalMark, hmark, glanced]
  | endOfText =>
      obtain rfl := Option.some.inj h
      simp only [token?, read, hk.skip, hk.size]
      cases k.isEnd <;> simp [glanced]
  | empty =>
      obtain rfl := Option.some.inj h
      rfl
  | _ => cases ha

/-- What matches in front of the next token matches there no second time. -/
theorem plainIterate_of_glanced {step : Nat → Option (Option Match)} {b : Bool}
    (h : step i = some (glanced i b)) (fuel : Nat) :
    plainIterate step fuel i [] = some ⟨[], i⟩ := by
  cases fuel with
  | zero => rfl
  | succ fuel =>
      rw [plainIterate, h]
      cases b <;> simp [glanced]

theorem plain?_of_glance (hk : k.StandsAt src d i)
    (hknown : ∀ r m b, m.dialect = d → known r m = some b → call r m i = some (glanced i b))
    (a : Form) (hkeeps : a.keepsDialect = true) (m : Mode) (hm : m.dialect = d) {passes : Bool}
    (h : a.glance known k m = some passes) : a.plain? call src m i = some (glanced i passes) := by
  induction a generalizing m passes with
  | rule r => exact hknown r m passes hm h
  | seq a b iha ihb =>
      obtain ⟨ha, hb⟩ := Bool.and_eq_true_iff.mp hkeeps
      obtain ⟨first, hfirst, hrest⟩ := Option.bind_eq_some_iff.mp h
      rw [plain?, iha ha m hm hfirst, Option.bind_some]
      cases first with
      | false =>
          obtain rfl := Option.some.inj hrest
          rfl
      | true =>
          rw [if_pos rfl] at hrest
          simp only [glanced, ihb hb m hm hrest]
          cases passes <;> rfl
  | alt a b iha ihb =>
      obtain ⟨ha, hb⟩ := Bool.and_eq_true_iff.mp hkeeps
      obtain ⟨first, hfirst, hrest⟩ := Option.bind_eq_some_iff.mp h
      rw [plain?, iha ha m hm hfirst, Option.bind_some]
      cases first with
      | false => exact ihb hb m hm hrest
      | true =>
          obtain rfl := Option.some.inj hrest
          rfl
  | many a ih =>
      obtain ⟨first, hstep, rfl⟩ := Option.map_eq_some_iff.mp h
      rw [plain?, plainIterate_of_glanced (ih hkeeps m hm hstep)]
      rfl
  | ahead a ih | field f a ih =>
      rw [plain?, ih hkeeps m hm h]
      cases passes <;> rfl
  | butNot a ih =>
      obtain ⟨first, hinner, rfl⟩ := Option.map_eq_some_iff.mp h
      rw [plain?, ih hkeeps m hm hinner]
      cases first <;> rfl
  | node kind a ih | ofKind kinds a ih =>
      obtain ⟨first, hinner, hrest⟩ := Option.bind_eq_some_iff.mp h
      cases first with
      | false =>
          obtain rfl := Option.some.inj hrest
          rw [plain?, ih hkeeps m hm hinner]
          rfl
      | true => cases hrest
  | chain a step ih _ | operation a tail ih _ =>
      obtain ⟨ha, -⟩ := Bool.and_eq_true_iff.mp hkeeps
      obtain ⟨first, hinner, hrest⟩ := Option.bind_eq_some_iff.mp h
      cases first with
      | false =>
          obtain rfl := Option.some.inj hrest
          rw [plain?, ih ha m hm hinner]
          rfl
      | true => cases hrest
  | inMode change a ih =>
      exact ih (Bool.and_eq_true_iff.mp hkeeps).2 (change m)
        ((dialect_of_keepsDialect hkeeps m).trans hm) h
  | when holds a ih =>
      rw [glance] at h
      rw [plain?]
      split at h
      · rename_i hholds
        rw [if_pos hholds]
        exact ih hkeeps m hm h
      · rename_i hholds
        rw [if_neg hholds, ← Option.some.inj h]
        rfl
  | _ => exact congrArg some (token?_of_glance hk rfl hm h)

end Form

/-- The operator that comes next is taken where it is among those of the form. -/
theorem Form.plain?_operator {k : NextToken} {src : Source} {d : Dialect} {i : Nat} {text : String}
    {among : List String} {call : Rule → Mode → Nat → Option (Option Match)} {m : Mode}
    (hk : k.StandsAt src d i) (htext : k.operator? = some text)
    (hmem : among.contains text = true) :
    (operator among).plain? call src m i
      = some (some ⟨[Tree.ofToken text i (i + text.length)], i + text.length⟩) := by
  have hoperator := hk.operator.trans htext
  simp only [plain?, token?, read, hk.skip, hoperator, if_pos hmem]

/-! ## Alternatives that come to nothing -/

section Grammar

variable {k : NextToken} {src : Source} {d : Dialect} {i : Nat} {m : Mode}

/-- What a glance tells of a rule is what the plain reading finds. -/
theorem plainRule_of_glance (hk : k.StandsAt src d i) (hm : m.dialect = d) {depth depth' : Nat}
    (hdepth : depth ≤ depth') {r : Rule} {passes : Bool}
    (h : glanceRule Rule.form k depth r m = some passes) :
    plainRule Rule.form src depth' r m i = some (glanced i passes) := by
  refine refines_plainRule hdepth r m i _ ?_
  clear hdepth
  induction depth generalizing r m passes with
  | zero => cases h
  | succ depth ih =>
      exact Form.plain?_of_glance hk (fun r m b hm h => ih hm h) r.form (Form.keepsDialect_form r) m
        hm h

namespace Form

/-- How deeply a glance follows the rules. -/
def glanceDepth : Nat := 10

section

variable (hk : k.StandsAt src d i) (hm : m.dialect = d) {depth : Nat}
  (hdepth : glanceDepth ≤ depth) {a b : Form}

include hk hm hdepth

theorem plain?_of_glanceRule (hkeeps : a.keepsDialect = true) {passes : Bool}
    (h : a.glance (glanceRule Rule.form k glanceDepth) k m = some passes) :
    a.plain? (plainRule Rule.form src depth) src m i = some (glanced i passes) :=
  plain?_of_glance hk (fun _ _ _ hm h => plainRule_of_glance hk hm hdepth h) a hkeeps m hm h

theorem plain?_none_of_glance
    (h : a.keepsDialect = true ∧ a.glance (glanceRule Rule.form k glanceDepth) k m = some false) :
    a.plain? (plainRule Rule.form src depth) src m i = some none :=
  plain?_of_glanceRule hk hm hdepth h.1 h.2

theorem plain?_empty_of_glance
    (h : a.keepsDialect = true ∧ a.glance (glanceRule Rule.form k glanceDepth) k m = some true) :
    a.plain? (plainRule Rule.form src depth) src m i = some (some ⟨[], i⟩) :=
  plain?_of_glanceRule hk hm hdepth h.1 h.2

/-- An alternative that a glance rules out is none. -/
theorem plain?_alt_of_glance
    (h : a.keepsDialect = true ∧ a.glance (glanceRule Rule.form k glanceDepth) k m = some false) :
    (alt a b).plain? (plainRule Rule.form src depth) src m i
      = b.plain? (plainRule Rule.form src depth) src m i :=
  plain?_alt_right (plain?_none_of_glance hk hm hdepth h)

end

end Form

end Grammar

end CodeSurvey
