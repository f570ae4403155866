import CodeSurvey.Json.Parser
import CodeSurvey.Json.Printer

/-!
# Tokens of a JSON text, read back

A string, a word or a number that was written is read back from any text that
begins with it. Only a number can go on in what stands behind it, so
`EndsNumber` is asked of the rest; in a document that is a comma, a line break
or the end.

For integers `number_natAbs` follows the digits. The text of a fraction is not
followed at all: `isLocal_number` says that what reading a number takes, it takes
in the same way whatever else stands behind, so a fraction is read in a document
as it is read alone.
-/

namespace CodeSurvey.JsonText

/-! ## Places -/

theorem rest_behind (t : JsonText) (c : Char) (rest : List Char) :
    (t.behind c rest).rest = rest := by
  unfold behind
  split <;> rfl

theorem rest_advance {t : JsonText} {c : Char} {rest : List Char} (h : t.rest = c :: rest) :
    t.advance.rest = rest := by
  rw [advance, h]
  exact rest_behind t c rest

theorem rest_skipFrom (t : JsonText) (cs : List Char) :
    (t.skipFrom cs).rest = cs.dropWhile isBlank := by
  induction cs generalizing t with
  | nil => rfl
  | cons c cs ih =>
      by_cases hc : isBlank c = true
      · rw [skipFrom, if_pos hc, ih, List.dropWhile_cons_of_pos hc]
      · rw [skipFrom, if_neg hc, List.dropWhile_cons_of_neg hc]

theorem rest_skipBlanks (t : JsonText) : t.skipBlanks.rest = t.rest.dropWhile isBlank :=
  rest_skipFrom t t.rest

theorem rest_skipBlanks_append {t : JsonText} {blanks rest : List Char} {c : Char}
    (h : t.rest = blanks ++ c :: rest) (hblanks : ∀ b ∈ blanks, isBlank b = true)
    (hc : isBlank c = false) : t.skipBlanks.rest = c :: rest := by
  rw [rest_skipBlanks, h, List.dropWhile_append_of_pos hblanks,
    List.dropWhile_cons_of_neg (by simp [hc])]

theorem rest_skipBlanks_cons {t : JsonText} {rest : List Char} {c : Char}
    (h : t.rest = c :: rest) (hc : isBlank c = false) : t.skipBlanks.rest = c :: rest :=
  @rest_skipBlanks_append t [] rest c h (by simp) hc

/-! ## Strings -/

theorem hexValue?_hexDigit : ∀ d < 16, hexValue? (Json.hexDigit d) = some d := by decide

/-- A control character comes back from its four digits. -/
theorem escape_control {t : JsonText} {c : Char} (hc : c.toNat < 32) {rest : List Char}
    (h : t.rest = 'u' :: '0' :: '0' :: Json.hexDigit (c.toNat / 16)
      :: Json.hexDigit (c.toNat % 16) :: rest) :
    ∃ t', t.escape = .ok (c, t') ∧ t'.rest = rest := by
  have hhigh := hexValue?_hexDigit (c.toNat / 16) (by omega)
  have hlow := hexValue?_hexDigit (c.toNat % 16) (by omega)
  have hzero : hexValue? '0' = some 0 := rfl
  have hvalue : ((0 * 16 + 0) * 16 + c.toNat / 16) * 16 + c.toNat % 16 = c.toNat := by omega
  have hhex : t.advance.hexEscape
      = .ok (c.toNat, ⟨rest, t.advance.line, t.advance.column + 4⟩) := by
    simp only [hexEscape, rest_advance h, hzero, hhigh, hlow, hvalue]
  refine ⟨⟨rest, t.advance.line, t.advance.column + 4⟩, ?_, rfl⟩
  have hlone : ¬(0xDC00 ≤ c.toNat ∧ c.toNat ≤ 0xDFFF) := by omega
  have hplain : c.toNat < 0xD800 ∨ 0xDBFF < c.toNat := by omega
  simp only [escape, h, unicodeEscape, hhex, bind, Except.bind, if_neg hlone, if_pos hplain,
    pure, Except.pure, Char.ofNat_toNat]

theorem stringTail_backslash {fuel : Nat} {read : List Char} {t u : JsonText} {c : Char}
    {rest : List Char} (h : t.rest = '\\' :: rest) (hescape : t.advance.escape = .ok (c, u)) :
    stringTail (fuel + 1) read t = stringTail fuel (c :: read) u := by
  simp [stringTail, h, hescape, bind, Except.bind]

/-- Whatever a character is written as, reading it is one step. -/
theorem stringTail_escapeChar (fuel : Nat) (read : List Char) {t : JsonText} {c : Char}
    {rest : List Char} (h : t.rest = Json.escapeChar c ++ rest) :
    ∃ t', stringTail (fuel + 1) read t = stringTail fuel (c :: read) t' ∧ t'.rest = rest := by
  have hletter : ∀ {letter d : Char}, t.rest = '\\' :: letter :: rest →
      (∀ u : JsonText, u.rest = letter :: rest → u.escape = .ok (d, u.advance)) →
      ∃ t', stringTail (fuel + 1) read t = stringTail fuel (d :: read) t' ∧ t'.rest = rest :=
    fun ht hescape => ⟨_, stringTail_backslash ht (hescape _ (rest_advance ht)),
      rest_advance (rest_advance ht)⟩
  unfold Json.escapeChar at h
  split at h
  case h_8 hquote hslash _ _ _ _ _ =>
    split at h
    case isTrue hcontrol =>
      obtain ⟨u, hescape, hu⟩ := escape_control hcontrol (rest_advance h)
      exact ⟨u, stringTail_backslash h hescape, hu⟩
    case isFalse hcontrol =>
      refine ⟨t.advance, ?_, rest_advance h⟩
      have hrest : t.rest = c :: rest := h
      have hplain : c ≠ '\x22' ∧ c ≠ '\\' := ⟨hquote, hslash⟩
      simp [stringTail, hrest, hplain, hcontrol]
  all_goals exact hletter h fun u hu => by simp [escape, hu]

theorem stringTail_flatMap (s : List Char) {fuel : Nat} (hfuel : s.length < fuel)
    (read : List Char) {t : JsonText} {rest : List Char}
    (h : t.rest = s.flatMap Json.escapeChar ++ '\x22' :: rest) :
    ∃ t', stringTail fuel read t = .ok (String.ofList (read.reverse ++ s), t')
      ∧ t'.rest = rest := by
  induction s generalizing fuel read t with
  | nil =>
      obtain ⟨fuel, rfl⟩ := Nat.exists_eq_add_of_lt hfuel
      refine ⟨t.advance, ?_, rest_advance h⟩
      have hrest : t.rest = '\x22' :: rest := h
      simp [stringTail, hrest]
  | cons c s ih =>
      obtain ⟨fuel, rfl⟩ : ∃ n, fuel = n + 1 := ⟨fuel - 1, by omega⟩
      rw [List.flatMap_cons, List.append_assoc] at h
      obtain ⟨u, hstep, hu⟩ := stringTail_escapeChar fuel read h
      obtain ⟨t', hread, ht'⟩ := ih (by simpa using hfuel) (c :: read) hu
      exact ⟨t', by rw [hstep, hread]; simp, ht'⟩

theorem length_le_flatMap_escapeChar (s : List Char) :
    s.length ≤ (s.flatMap Json.escapeChar).length := by
  have hpos : ∀ c, 0 < (Json.escapeChar c).length := by
    intro c
    unfold Json.escapeChar
    split
    case h_8 => split <;> exact Nat.succ_pos _
    all_goals exact Nat.succ_pos _
  induction s with
  | nil => exact Nat.zero_le _
  | cons c s ih =>
      have := hpos c
      rw [List.flatMap_cons, List.length_append, List.length_cons]
      omega

/-- A string is read back from its quoted text, whatever stands behind it. -/
theorem string_quote (s : String) {t : JsonText} {rest : List Char}
    (h : t.rest = (Json.quote s).toList ++ rest) :
    ∃ t', t.string = .ok (s, t') ∧ t'.rest = rest := by
  have hquote : t.rest = '\x22' :: (s.toList.flatMap Json.escapeChar ++ '\x22' :: rest) := by
    simpa [Json.quote] using h
  have hfuel : s.toList.length < t.rest.length + 1 := by
    have := length_le_flatMap_escapeChar s.toList
    rw [hquote, List.length_cons, List.length_append]
    omega
  obtain ⟨t', hread, ht'⟩ := stringTail_flatMap s.toList hfuel [] (rest_advance hquote)
  exact ⟨t', by simpa [string] using hread, ht'⟩

/-! ## Words -/

theorem word_append (v : Json) (cs : List Char) {t : JsonText} {rest : List Char}
    (h : t.rest = cs ++ rest) : ∃ t', word v cs t = .ok (v, t') ∧ t'.rest = rest := by
  induction cs generalizing t with
  | nil => exact ⟨t, rfl, h⟩
  | cons c cs ih =>
      have hrest : t.rest = c :: (cs ++ rest) := h
      obtain ⟨t', hread, ht'⟩ := ih (rest_advance hrest)
      exact ⟨t', by simp [word, hrest, hread], ht'⟩

/-! ## What ends a number -/

/-- What stands behind a number does not go on with it. -/
def EndsNumber (rest : List Char) : Prop :=
  ∀ c ∈ rest.head?, ¬('0' ≤ c ∧ c ≤ '9') ∧ c ≠ '.' ∧ c ≠ 'e' ∧ c ≠ 'E'

theorem endsNumber_comma (rest : List Char) : EndsNumber (',' :: rest) := by
  rintro c ⟨⟩
  decide

theorem endsNumber_lineFeed (rest : List Char) : EndsNumber ('\n' :: rest) := by
  rintro c ⟨⟩
  decide

section Local

variable {t u : JsonText} {rest : List Char}

theorem digit?_append (hu : u.rest = t.rest ++ rest) (hrest : EndsNumber rest) :
    u.digit? = t.digit? := by
  cases ht : t.rest with
  | cons c cs => simp [digit?, hu, ht]
  | nil =>
      cases hr : rest with
      | nil => simp [digit?, hu, ht, hr]
      | cons c cs =>
          have := (hrest c (by simp [hr])).1
          simp [digit?, hu, ht, hr, this]

/-- A number goes on behind `t` if it goes on behind `u`. -/
theorem head?_append_iff (hu : u.rest = t.rest ++ rest) (hrest : EndsNumber rest) {c : Char}
    (hc : c = '.' ∨ c = 'e' ∨ c = 'E') : u.rest.head? = some c ↔ t.rest.head? = some c := by
  rw [hu]
  cases ht : t.rest with
  | cons d ds => rfl
  | nil =>
      refine ⟨fun h => ?_, nofun⟩
      obtain ⟨-, hpoint, hsmall, hcapital⟩ := hrest c h
      rcases hc with rfl | rfl | rfl <;> contradiction

theorem takeWhile_digit_append (cs : List Char) (hrest : EndsNumber rest) :
    (cs ++ rest).takeWhile (fun c => '0' ≤ c && c ≤ '9')
      = cs.takeWhile fun c => '0' ≤ c && c ≤ '9' := by
  induction cs with
  | nil =>
      cases rest with
      | nil => rfl
      | cons c cs =>
          have := (hrest c rfl).1
          exact List.takeWhile_cons_of_neg (by simpa using this)
  | cons c cs ih => simp only [List.cons_append, List.takeWhile_cons, ih]

theorem significandTail_append (cs : List Char) (hrest : EndsNumber rest) (s n : Nat) :
    significandTail (cs ++ rest) s n = significandTail cs s n := by
  induction cs generalizing s n with
  | nil =>
      cases rest with
      | nil => rfl
      | cons c cs => simp [significandTail, (hrest c rfl).1]
  | cons c cs ih => simp only [List.cons_append, significandTail, ih]

theorem count_significandTail_le (cs : List Char) (s n : Nat) :
    (significandTail cs s n).2 ≤ n + cs.length := by
  induction cs generalizing s n with
  | nil => simp [significandTail]
  | cons c cs ih =>
      rw [significandTail]
      split
      · dsimp only
        split
        · omega
        · have := ih (s * 10 + (c.toNat - '0'.toNat)) (n + 1)
          rw [List.length_cons]
          omega
      · exact Nat.le_add_right _ _

theorem count_exponentValue? {cs : List Char} {e n e' n' : Nat}
    (h : exponentValue? cs e n = some (e', n')) : n' = n + cs.length := by
  induction cs generalizing e n with
  | nil =>
      obtain ⟨-, rfl⟩ : e = e' ∧ n = n' := by simpa [exponentValue?] using h
      rfl
  | cons c cs ih =>
      rw [exponentValue?] at h
      split at h
      · cases h
      · rw [ih h, List.length_cons]
        omega

theorem length_takeWhile_le (p : Char → Bool) (cs : List Char) :
    (cs.takeWhile p).length ≤ cs.length := (List.takeWhile_sublist p).length_le

/-- The place behind the digits that `significandTail` takes. -/
def behindSignificand (s : Nat) (t : JsonText) : JsonText :=
  ⟨t.rest.drop (significandTail t.rest s 0).2, t.line, t.column + (significandTail t.rest s 0).2⟩

theorem suffix_behindSignificand (s : Nat) (t : JsonText) :
    (t.behindSignificand s).rest <:+ t.rest := List.drop_suffix ..

theorem behindSignificand_append (s : Nat) (hu : u.rest = t.rest ++ rest)
    (hrest : EndsNumber rest) :
    significandTail u.rest s 0 = significandTail t.rest s 0
      ∧ (u.behindSignificand s).rest = (t.behindSignificand s).rest ++ rest := by
  have hsame : significandTail u.rest s 0 = significandTail t.rest s 0 := by
    rw [hu, significandTail_append _ hrest]
  have hcount := count_significandTail_le t.rest s 0
  refine ⟨hsame, ?_⟩
  show u.rest.drop (significandTail u.rest s 0).2 = t.rest.drop _ ++ rest
  rw [hsame, hu]
  exact List.drop_append_of_le_length (by omega)

theorem skipDigits_append (hu : u.rest = t.rest ++ rest) (hrest : EndsNumber rest) :
    u.skipDigits.1.rest = t.skipDigits.1.rest ++ rest ∧ u.skipDigits.2 = t.skipDigits.2 := by
  simp only [skipDigits, hu, takeWhile_digit_append t.rest hrest, and_true]
  exact List.drop_append_of_le_length (length_takeWhile_le ..)

theorem suffix_skipDigits (t : JsonText) : t.skipDigits.1.rest <:+ t.rest := List.drop_suffix ..

theorem suffix_advance (t : JsonText) : t.advance.rest <:+ t.rest := by
  cases ht : t.rest with
  | nil => simp [advance, ht]
  | cons c cs =>
      rw [rest_advance ht]
      exact List.suffix_cons c cs

theorem advance_append (hu : u.rest = t.rest ++ rest) (ht : t.rest ≠ []) :
    u.advance.rest = t.advance.rest ++ rest := by
  obtain ⟨c, cs, hc⟩ := List.exists_cons_of_ne_nil ht
  rw [rest_advance (hu.trans (by rw [hc, List.cons_append])), rest_advance hc]

end Local

/-- A reader that takes the same however a text goes on, if it goes on with
something else than a number. -/
def IsLocal (read : JsonText → Except JsonError (Json × JsonText)) : Prop :=
  ∀ ⦃t : JsonText⦄ ⦃v : Json⦄ ⦃t' : JsonText⦄, read t = .ok (v, t') →
    t'.rest <:+ t.rest ∧ ∀ (u : JsonText) (rest : List Char), u.rest = t.rest ++ rest →
      EndsNumber rest → ∃ u', read u = .ok (v, u') ∧ u'.rest = t'.rest ++ rest

theorem isLocal_fraction (negative : Bool) (significand : Nat) (e : Int) :
    IsLocal (fraction negative significand e) := by
  intro t v t' h
  cases hs : scaled? negative significand e with
  | none => simp [fraction, hs] at h
  | some x =>
      obtain ⟨rfl, rfl⟩ : .fraction x = v ∧ t = t' := by simpa [fraction, hs] using h
      exact ⟨List.suffix_refl _, fun u rest hu _ => ⟨u, by simp [fraction, hs], hu⟩⟩

theorem isLocal_exponentDigits (negative : Bool) (significand : Nat) (start : Int)
    (isNegative : Bool) : IsLocal (exponentDigits negative significand start isNegative) := by
  intro t v t' h
  have htakeWhile : ∀ (u : JsonText) (rest : List Char), u.rest = t.rest ++ rest →
      EndsNumber rest → (u.rest.takeWhile fun c => '0' ≤ c && c ≤ '9')
        = t.rest.takeWhile fun c => '0' ≤ c && c ≤ '9' := by
    intro u rest hu hrest
    rw [hu, takeWhile_digit_append _ hrest]
  cases hv : exponentValue? (t.rest.takeWhile fun c => '0' ≤ c && c ≤ '9') 0 0 with
  | some p =>
      have hn : p.2 ≤ t.rest.length := by
        have := count_exponentValue? hv
        have := length_takeWhile_le (fun c => '0' ≤ c && c ≤ '9') t.rest
        omega
      rw [exponentDigits, hv] at h
      obtain ⟨hsuffix, hlocal⟩ := isLocal_fraction _ _ _ h
      refine ⟨hsuffix.trans (List.drop_suffix ..), fun u rest hu hrest => ?_⟩
      have hdrop : u.rest.drop p.2 = t.rest.drop p.2 ++ rest := by
        rw [hu]
        exact List.drop_append_of_le_length hn
      obtain ⟨u', hread, hu'⟩ := hlocal ⟨u.rest.drop p.2, u.line, u.column + p.2⟩ rest hdrop hrest
      refine ⟨u', ?_, hu'⟩
      rw [exponentDigits, htakeWhile u rest hu hrest, hv]
      exact hread
  | none =>
      rw [exponentDigits, hv] at h
      by_cases hlarge : significand ≠ 0 ∧ (!isNegative) = true
      · simp [hlarge] at h
      · simp only [if_neg hlarge, Except.ok.injEq, Prod.mk.injEq] at h
        obtain ⟨rfl, rfl⟩ := h
        refine ⟨suffix_skipDigits t, fun u rest hu hrest => ?_⟩
        refine ⟨u.skipDigits.1, ?_, (skipDigits_append hu hrest).1⟩
        rw [exponentDigits, htakeWhile u rest hu hrest, hv]
        simp only [if_neg hlarge]

theorem suffix_exponentSign (t : JsonText) : t.exponentSign.2.rest <:+ t.rest := by
  unfold exponentSign
  split
  · exact suffix_advance t
  · exact suffix_advance t
  · exact List.suffix_refl _

theorem exponentSign_append {t u : JsonText} {rest : List Char} (hu : u.rest = t.rest ++ rest)
    (ht : t.rest ≠ []) : u.exponentSign.1 = t.exponentSign.1
      ∧ u.exponentSign.2.rest = t.exponentSign.2.rest ++ rest := by
  obtain ⟨c, cs, hc⟩ := List.exists_cons_of_ne_nil ht
  have hadvance := advance_append hu ht
  rw [hc, List.cons_append] at hu
  by_cases hplus : c = '+'
  · subst hplus
    simp [exponentSign, hu, hc, hadvance]
  by_cases hminus : c = '-'
  · subst hminus
    simp [exponentSign, hu, hc, hadvance]
  · simp [exponentSign, hu, hc, hplus, hminus]

theorem isLocal_exponent (negative : Bool) (significand : Nat) (start : Int) :
    IsLocal (exponent negative significand start) := by
  intro t v t' h
  have hexponent : ∀ u : JsonText, ∀ d, u.advance.exponentSign.2.digit? = some d →
      exponent negative significand start u = exponentDigits negative significand start
        u.advance.exponentSign.1 u.advance.exponentSign.2 := by
    intro u d hd
    simp only [exponent, hd]
  cases hd : t.advance.exponentSign.2.digit? with
  | none => simp [exponent, hd] at h
  | some d =>
      rw [hexponent t d hd] at h
      obtain ⟨hsuffix, hlocal⟩ := isLocal_exponentDigits _ _ _ _ h
      refine ⟨hsuffix.trans ((suffix_exponentSign _).trans (suffix_advance t)),
        fun u rest hu hrest => ?_⟩
      have hne : t.advance.rest ≠ [] := by
        intro hnil
        have hsign : t.advance.exponentSign.2.rest = [] := by
          have := suffix_exponentSign t.advance
          rwa [hnil, List.suffix_nil] at this
        simp [digit?, hsign] at hd
      have hne' : t.rest ≠ [] := by
        intro hnil
        exact hne (by simp [advance, hnil])
      obtain ⟨hsign, hplace⟩ := exponentSign_append (advance_append hu hne') hne
      rw [hexponent u d ((digit?_append hplace hrest).trans hd), hsign]
      exact hlocal _ rest hplace hrest

theorem isLocal_ok (v : Json) : IsLocal fun t => .ok (v, t) := by
  intro t v' t' h
  obtain ⟨rfl, rfl⟩ := Prod.mk.inj (Except.ok.inj h)
  exact ⟨List.suffix_refl _, fun u rest hu _ => ⟨u, rfl, hu⟩⟩

/-- Two readers, chosen by something that stays the same however a text goes on. -/
theorem IsLocal.ite {p : JsonText → Prop} [DecidablePred p]
    {yes no : JsonText → Except JsonError (Json × JsonText)} (hyes : IsLocal yes)
    (hno : IsLocal no)
    (hp : ∀ t u : JsonText, ∀ rest, u.rest = t.rest ++ rest → EndsNumber rest → (p u ↔ p t)) :
    IsLocal fun t => if p t then yes t else no t := by
  intro t v t' h
  by_cases hpt : p t
  · simp only [if_pos hpt] at h
    refine ⟨(hyes h).1, fun u rest hu hrest => ?_⟩
    simp only [if_pos ((hp t u rest hu hrest).mpr hpt)]
    exact (hyes h).2 u rest hu hrest
  · simp only [if_neg hpt] at h
    refine ⟨(hno h).1, fun u rest hu hrest => ?_⟩
    simp only [if_neg (mt (hp t u rest hu hrest).mp hpt)]
    exact (hno h).2 u rest hu hrest

/-- The letter of an exponent is next. -/
def AtExponent (t : JsonText) : Prop := t.rest.head? = some 'e' ∨ t.rest.head? = some 'E'

instance : DecidablePred AtExponent := fun _ => instDecidableOr

theorem atExponent_append_iff (t u : JsonText) (rest : List Char) (hu : u.rest = t.rest ++ rest)
    (hrest : EndsNumber rest) : u.AtExponent ↔ t.AtExponent :=
  or_congr (head?_append_iff hu hrest (by simp)) (head?_append_iff hu hrest (by simp))

theorem exponentOrEnd_eq (negative : Bool) (significand : Nat) (e : Int) (t : JsonText) :
    exponentOrEnd negative significand e t = if t.AtExponent
      then exponent negative significand e t else fraction negative significand e t := by
  unfold exponentOrEnd
  split
  case h_1 h => rw [if_pos (by simp [AtExponent, h])]
  case h_2 h => rw [if_pos (by simp [AtExponent, h])]
  case h_3 hsmall hcapital =>
    refine (if_neg ?_).symm
    rintro (h | h)
    · obtain ⟨cs, hcs⟩ := List.head?_eq_some_iff.mp h
      exact hsmall cs hcs
    · obtain ⟨cs, hcs⟩ := List.head?_eq_some_iff.mp h
      exact hcapital cs hcs

theorem isLocal_exponentOrEnd (negative : Bool) (significand : Nat) (e : Int) :
    IsLocal (exponentOrEnd negative significand e) := by
  rw [funext (exponentOrEnd_eq negative significand e)]
  exact (isLocal_exponent _ _ _).ite (isLocal_fraction _ _ _) atExponent_append_iff

theorem isLocal_decimals (negative : Bool) (significand : Nat) (start : Int) :
    IsLocal (decimals negative significand start) := by
  intro t v t' h
  have hlong : ∀ (u : JsonText) d, (u.advance.behindSignificand significand).digit? = some d →
      decimals negative significand start u
        = exponentOrEnd negative (significandTail u.advance.rest significand 0).1
          (start - (significandTail u.advance.rest significand 0).2)
          (u.advance.behindSignificand significand).skipDigits.1 := by
    intro u d hd
    simp only [behindSignificand] at hd
    simp only [decimals, hd, behindSignificand]
  have hfits : ∀ u : JsonText, (u.advance.behindSignificand significand).digit? = none →
      (significandTail u.advance.rest significand 0).2 ≠ 0 →
      decimals negative significand start u
        = exponentOrEnd negative (significandTail u.advance.rest significand 0).1
          (start - (significandTail u.advance.rest significand 0).2)
          (u.advance.behindSignificand significand) := by
    intro u hd hcount
    simp only [behindSignificand] at hd
    simp only [decimals, hd, behindSignificand, if_neg hcount]
  have hne : t.rest ≠ [] := by
    intro hnil
    simp [decimals, advance, hnil, significandTail, digit?] at h
  cases hd : (t.advance.behindSignificand significand).digit? with
  | some d =>
      rw [hlong t d hd] at h
      obtain ⟨hsuffix, hlocal⟩ := isLocal_exponentOrEnd _ _ _ h
      refine ⟨hsuffix.trans ((suffix_skipDigits _).trans
        ((suffix_behindSignificand _ _).trans (suffix_advance t))), fun u rest hu hrest => ?_⟩
      obtain ⟨hsame, hplace⟩ :=
        behindSignificand_append significand (advance_append hu hne) hrest
      rw [hlong u d ((digit?_append hplace hrest).trans hd), hsame]
      exact hlocal _ rest (skipDigits_append hplace hrest).1 hrest
  | none =>
      by_cases hcount : (significandTail t.advance.rest significand 0).2 = 0
      · simp only [behindSignificand] at hd
        simp only [decimals, hd, if_pos hcount] at h
        split at h <;> cases h
      · rw [hfits t hd hcount] at h
        obtain ⟨hsuffix, hlocal⟩ := isLocal_exponentOrEnd _ _ _ h
        refine ⟨hsuffix.trans ((suffix_behindSignificand _ _).trans (suffix_advance t)),
          fun u rest hu hrest => ?_⟩
        obtain ⟨hsame, hplace⟩ :=
          behindSignificand_append significand (advance_append hu hne) hrest
        rw [hfits u ((digit?_append hplace hrest).trans hd) (hsame ▸ hcount), hsame]
        exact hlocal _ rest hplace hrest

theorem numberTail_eq (negative : Bool) (significand : Nat) (t : JsonText) :
    numberTail negative significand t = if t.rest.head? = some '.'
      then decimals negative significand 0 t else if t.AtExponent
      then exponent negative significand 0 t else if !negative
      then .ok (.integer significand, t)
      else if significand = 0 ∨ -(significand : Int) < Json.minInteger
      then fraction true significand 0 t else .ok (.integer (-significand), t) := by
  unfold numberTail
  split
  case h_1 h => rw [if_pos (by simp [h])]
  case h_2 h => rw [if_neg (by simp [h]), if_pos (by simp [AtExponent, h])]
  case h_3 h => rw [if_neg (by simp [h]), if_pos (by simp [AtExponent, h])]
  case h_4 hpoint hsmall hcapital =>
    have hnext : ∀ {c}, (∀ cs, t.rest = c :: cs → False) → t.rest.head? ≠ some c := by
      intro c hc h
      obtain ⟨cs, hcs⟩ := List.head?_eq_some_iff.mp h
      exact hc cs hcs
    have hexponent : ¬t.AtExponent := not_or.mpr ⟨hnext hsmall, hnext hcapital⟩
    rw [if_neg (hnext hpoint), if_neg hexponent]

theorem isLocal_numberTail (negative : Bool) (significand : Nat) :
    IsLocal (numberTail negative significand) := by
  rw [funext (numberTail_eq negative significand)]
  have hinteger : IsLocal fun t => if !negative then .ok (.integer significand, t)
      else if significand = 0 ∨ -(significand : Int) < Json.minInteger
      then fraction true significand 0 t else .ok (.integer (-significand), t) :=
    IsLocal.ite (isLocal_ok _)
      (IsLocal.ite (isLocal_fraction _ _ _) (isLocal_ok _) fun _ _ _ _ _ => Iff.rfl)
      fun _ _ _ _ _ => Iff.rfl
  exact (isLocal_decimals _ _ _).ite
    ((isLocal_exponent _ _ _).ite hinteger atExponent_append_iff)
    fun t u rest hu hrest => head?_append_iff hu hrest (by simp)

theorem ne_nil_of_digit? {t : JsonText} {d : Nat} (h : t.digit? = some d) : t.rest ≠ [] := by
  intro hnil
  simp [digit?, hnil] at h

section Number

variable {negative : Bool} {t : JsonText} {d : Nat}

theorem number_zero (hd : t.digit? = some 0) (hnext : t.advance.digit? = none) :
    number negative t = numberTail negative 0 t.advance := by
  unfold number
  split
  case h_1 hnil => exact absurd hnil (ne_nil_of_digit? hd)
  case h_2 => simp only [hd, hnext]

theorem number_within (hd : t.digit? = some (d + 1))
    (hnext : (t.behindSignificand 0).digit? = none) :
    number negative t
      = numberTail negative (significandTail t.rest 0 0).1 (t.behindSignificand 0) := by
  simp only [behindSignificand] at hnext
  unfold number
  split
  case h_1 hnil => exact absurd hnil (ne_nil_of_digit? hd)
  case h_2 => simp only [hd, hnext, behindSignificand]

/-- The number that goes on behind digits that do not fit: `left` of them. -/
def numberBeyond (negative : Bool) (significand left : Nat) (t : JsonText) :
    Except JsonError (Json × JsonText) :=
  if t.rest.head? = some '.' then decimals negative significand left t
  else exponentOrEnd negative significand left t

theorem number_beyond {next : Nat} (hd : t.digit? = some (d + 1))
    (hnext : (t.behindSignificand 0).digit? = some next) :
    number negative t = numberBeyond negative (significandTail t.rest 0 0).1
      (t.behindSignificand 0).skipDigits.2 (t.behindSignificand 0).skipDigits.1 := by
  simp only [behindSignificand] at hnext
  unfold number
  split
  case h_1 hnil => exact absurd hnil (ne_nil_of_digit? hd)
  case h_2 =>
    simp only [hd, hnext, behindSignificand]
    split
    case h_1 hpoint => exact (if_pos (by simp [hpoint])).symm
    case h_2 hpoint =>
      refine (if_neg fun h => ?_).symm
      obtain ⟨cs, hcs⟩ := List.head?_eq_some_iff.mp h
      exact hpoint cs hcs

theorem isLocal_numberBeyond (negative : Bool) (significand left : Nat) :
    IsLocal (numberBeyond negative significand left) :=
  (isLocal_decimals _ _ _).ite (isLocal_exponentOrEnd _ _ _)
    fun _ _ _ hu hrest => head?_append_iff hu hrest (by simp)

theorem not_number_of_zero (hd : t.digit? = some 0) (hnext : t.advance.digit? = some d)
    (p : Json × JsonText) : number negative t ≠ .ok p := by
  unfold number
  split
  case h_1 => nofun
  case h_2 => simp [hd, hnext]

theorem not_number_of_none (hd : t.digit? = none) (p : Json × JsonText) :
    number negative t ≠ .ok p := by
  unfold number
  split
  case h_1 => nofun
  case h_2 => simp [hd]

end Number

/-- A number is read in the same way wherever it stands. -/
theorem isLocal_number (negative : Bool) : IsLocal (number negative) := by
  intro t v t' h
  cases hd : t.digit? with
  | none => exact absurd h (not_number_of_none hd _)
  | some d =>
      have hne := ne_nil_of_digit? hd
      have hdigit : ∀ (u : JsonText) (rest : List Char), u.rest = t.rest ++ rest →
          EndsNumber rest → u.digit? = some d :=
        fun u rest hu hrest => (digit?_append hu hrest).trans hd
      cases d with
      | zero =>
          cases hnext : t.advance.digit? with
          | some d => exact absurd h (not_number_of_zero hd hnext _)
          | none =>
              rw [number_zero hd hnext] at h
              obtain ⟨hsuffix, hlocal⟩ := isLocal_numberTail _ _ h
              refine ⟨hsuffix.trans (suffix_advance t), fun u rest hu hrest => ?_⟩
              have hplace := advance_append hu hne
              rw [number_zero (hdigit u rest hu hrest) ((digit?_append hplace hrest).trans hnext)]
              exact hlocal _ rest hplace hrest
      | succ d =>
          cases hnext : (t.behindSignificand 0).digit? with
          | none =>
              rw [number_within hd hnext] at h
              obtain ⟨hsuffix, hlocal⟩ := isLocal_numberTail _ _ h
              refine ⟨hsuffix.trans (suffix_behindSignificand 0 t), fun u rest hu hrest => ?_⟩
              obtain ⟨hsame, hplace⟩ := behindSignificand_append 0 hu hrest
              rw [number_within (hdigit u rest hu hrest)
                ((digit?_append hplace hrest).trans hnext), hsame]
              exact hlocal _ rest hplace hrest
          | some next =>
              rw [number_beyond hd hnext] at h
              obtain ⟨hsuffix, hlocal⟩ := isLocal_numberBeyond _ _ _ h
              refine ⟨hsuffix.trans ((suffix_skipDigits _).trans (suffix_behindSignificand 0 t)),
                fun u rest hu hrest => ?_⟩
              obtain ⟨hsame, hplace⟩ := behindSignificand_append 0 hu hrest
              obtain ⟨hbehind, hleft⟩ := skipDigits_append hplace hrest
              rw [number_beyond (hdigit u rest hu hrest)
                ((digit?_append hplace hrest).trans hnext), hsame, hleft]
              exact hlocal _ rest hbehind hrest

/-! ## Integers -/

theorem digit?_of_endsNumber {t : JsonText} (h : EndsNumber t.rest) : t.digit? = none := by
  cases ht : t.rest with
  | nil => simp [digit?, ht]
  | cons c cs =>
      have := (h c (by simp [ht])).1
      simp [digit?, ht, this]

theorem numberTail_of_endsNumber (negative : Bool) (significand : Nat) {t : JsonText}
    (h : EndsNumber t.rest) : numberTail negative significand t = if !negative
      then .ok (.integer significand, t)
      else if significand = 0 ∨ -(significand : Int) < Json.minInteger
      then fraction true significand 0 t else .ok (.integer (-significand), t) := by
  have hpoint : ¬t.rest.head? = some '.' := fun hc => (h _ hc).2.1 rfl
  have hexponent : ¬t.AtExponent := by
    rintro (hc | hc)
    · exact (h _ hc).2.2.1 rfl
    · exact (h _ hc).2.2.2 rfl
  rw [numberTail_eq, if_neg hpoint, if_neg hexponent]

theorem digit?_of_digitChar {t : JsonText} {d : Nat} (hd : d < 10) {cs : List Char}
    (h : t.rest = Nat.digitChar d :: cs) : t.digit? = some d := by
  have hdigit : ∀ d < 10, (if '0' ≤ Nat.digitChar d ∧ Nat.digitChar d ≤ '9'
      then some ((Nat.digitChar d).toNat - '0'.toNat) else none) = some d := by decide
  rw [digit?, h]
  exact hdigit d hd

/-- No digits of a number begin with a zero, but those of zero. -/
theorem toDigits_eq_cons (n : Nat) : ∃ d cs, Nat.toDigits 10 n = Nat.digitChar d :: cs ∧ d < 10
    ∧ (d = 0 → n = 0 ∧ cs = []) := by
  induction n using Nat.strongRecOn with
  | ind n ih =>
      rcases Nat.lt_or_ge n 10 with hlt | hge
      · exact ⟨n, [], Nat.toDigits_of_lt_base hlt, hlt, fun h => ⟨h, rfl⟩⟩
      · obtain ⟨d, cs, hdigits, hd, hzero⟩ := ih (n / 10) (by omega)
        refine ⟨d, cs ++ [Nat.digitChar (n % 10)], ?_, hd, fun h => ?_⟩
        · rw [Nat.toDigits_of_base_le (by decide) hge, hdigits, List.cons_append]
        · have := (hzero h).1
          omega

theorem le_ofDigitChars (cs : List Char) (s : Nat) : s ≤ Nat.ofDigitChars 10 cs s := by
  induction cs generalizing s with
  | nil => exact Nat.le_refl s
  | cons c cs ih =>
      rw [Nat.ofDigitChars_cons]
      exact Nat.le_trans (by omega) (ih _)

theorem isDigit_iff {c : Char} : c.isDigit = true ↔ '0' ≤ c ∧ c ≤ '9' := by
  simp [Char.isDigit, Char.le_def]

/-- Digits are taken to their end while their value stays within the bound. -/
theorem significandTail_digits {cs : List Char} (hcs : ∀ c ∈ cs, c.isDigit = true) {s : Nat}
    (hs : Nat.ofDigitChars 10 cs s ≤ maxSignificand) (n : Nat) :
    significandTail cs s n = (Nat.ofDigitChars 10 cs s, n + cs.length) := by
  induction cs generalizing s n with
  | nil => rfl
  | cons c cs ih =>
      rw [Nat.ofDigitChars_cons, Nat.mul_comm] at hs
      have hnext : ¬maxSignificand < s * 10 + (c.toNat - '0'.toNat) :=
        Nat.not_lt.mpr (Nat.le_trans (le_ofDigitChars cs _) hs)
      rw [significandTail, if_pos (isDigit_iff.mp (hcs c List.mem_cons_self))]
      dsimp only
      rw [if_neg hnext, ih (fun d hd => hcs d (List.mem_cons_of_mem _ hd)) hs,
        Nat.ofDigitChars_cons, Nat.mul_comm, List.length_cons, Nat.add_assoc n 1, Nat.add_comm 1]

/-- Digits of a number of 64 bits are read to their end. -/
theorem number_toDigits (negative : Bool) {n : Nat} (hn : n ≤ maxSignificand) {t : JsonText}
    {rest : List Char} (h : t.rest = Nat.toDigits 10 n ++ rest) (hrest : EndsNumber rest) :
    ∃ t', number negative t = numberTail negative n t' ∧ t'.rest = rest := by
  obtain ⟨d, cs, hdigits, hd, hzero⟩ := toDigits_eq_cons n
  have hcons : t.rest = Nat.digitChar d :: (cs ++ rest) := by rw [h, hdigits, List.cons_append]
  have hfirst := digit?_of_digitChar hd hcons
  cases d with
  | zero =>
      obtain ⟨rfl, rfl⟩ := hzero rfl
      have hbehind : t.advance.rest = rest := rest_advance hcons
      have hend : EndsNumber t.advance.rest := by rwa [hbehind]
      exact ⟨t.advance, number_zero hfirst (digit?_of_endsNumber hend), hbehind⟩
  | succ d =>
      have hvalue : Nat.ofDigitChars 10 (Nat.toDigits 10 n) 0 = n :=
        Nat.ofDigitChars_toDigits (by decide) (by decide)
      have htake : significandTail t.rest 0 0 = (n, (Nat.toDigits 10 n).length) := by
        rw [h, significandTail_append _ hrest, significandTail_digits
          (fun c hc => Nat.isDigit_of_mem_toDigits (by decide) (by decide) hc) (by rwa [hvalue]),
          hvalue, Nat.zero_add]
      have hbehind : (t.behindSignificand 0).rest = rest := by
        rw [behindSignificand, htake, h]
        exact List.drop_left
      have hend : EndsNumber (t.behindSignificand 0).rest := by rwa [hbehind]
      refine ⟨t.behindSignificand 0, ?_, hbehind⟩
      rw [number_within hfirst (digit?_of_endsNumber hend), htake]

/-- An integer that is kept as one is read back from its sign and its digits. -/
theorem number_natAbs {i : Int} (hmin : Json.minInteger ≤ i) (hmax : i ≤ Json.maxInteger)
    {t : JsonText} {rest : List Char} (h : t.rest = Nat.toDigits 10 i.natAbs ++ rest)
    (hrest : EndsNumber rest) :
    ∃ t', number (decide (i < 0)) t = .ok (.integer i, t') ∧ t'.rest = rest := by
  have hn : i.natAbs ≤ maxSignificand := by
    simp only [Json.minInteger, Json.maxInteger, maxSignificand] at *
    omega
  obtain ⟨t', hread, hbehind⟩ := number_toDigits (decide (i < 0)) hn h hrest
  refine ⟨t', hread.trans ?_, hbehind⟩
  rw [numberTail_of_endsNumber _ _ (by rwa [hbehind])]
  by_cases hi : i < 0
  · have habs : -(i.natAbs : Int) = i := by omega
    have hkept : ¬(i.natAbs = 0 ∨ -(i.natAbs : Int) < Json.minInteger) := by omega
    rw [if_neg (by simp [hi]), if_neg hkept, habs]
  · have habs : (i.natAbs : Int) = i := by omega
    rw [if_pos (by simp [hi]), habs]

end CodeSurvey.JsonText
