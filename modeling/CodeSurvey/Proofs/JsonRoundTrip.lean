import CodeSurvey.Proofs.JsonToken
import Mathlib.Data.List.TakeWhile

/-!
# JSON texts, read back

The indented text of a value is read back as the same value, with the fields of
its objects in byte order and with the fractions that their texts stand for
(`parse_pretty`). Two things can stand in the way, and `Json.Fits` excludes them:
containers that nest deeper than the reader follows, and integers beyond 64 bits.
The reader rounds fractions more than once, so the text of a fraction may stand
for a neighbour of it; `denoted` is what it stands for.

The reader is a recursion on the depth, so the induction is on the depth too:
`items_pretty` and `pairs_pretty` are about any reader of entries, and
`value_prettyAt` gives them the reader of one level less.
-/

namespace CodeSurvey

/-! ## What a value comes back as -/

namespace Json

section Reread

variable (denoted : Double → Double)

mutual

/-- A value with the fields of its objects in byte order of their keys, and with
what is denoted in the place of a fraction. -/
def reread : Json → Json
  | array items => array (rereadItems items)
  | object fields => object (rereadFields fields [])
  | fraction x => fraction (denoted x)
  | v => v

def rereadItems : List Json → List Json
  | [] => []
  | v :: rest => v.reread :: rereadItems rest

/-- Put fields among those that are sorted; the last of several with one key counts. -/
def rereadFields : List (String × Json) → List (String × Json) → List (String × Json)
  | [], set => set
  | (key, v) :: rest, set => rereadFields rest (insertSorted key v.reread set)

end

theorem rereadItems_eq_map (items : List Json) :
    rereadItems denoted items = items.map (reread denoted) := by
  induction items with
  | nil => rfl
  | cons v rest ih => rw [rereadItems, ih, List.map_cons]

/-- The text of `x` stands for `y`. -/
def Denotes (x y : Double) : Prop := parse (numberLayout.render x) = .ok (fraction y)

/-- A value that a reader with `n` levels left takes in. -/
def Fits : Nat → Json → Prop
  | _, null => True
  | _, bool _ => True
  | _, string _ => True
  | _, integer i => minInteger ≤ i ∧ i ≤ maxInteger
  | _, fraction x => Denotes x (denoted x)
  | 0, array _ => False
  | 0, object _ => False
  | n + 1, array items => ∀ v ∈ items, Fits n v
  | n + 1, object fields => ∀ field ∈ fields, Fits n field.2

end Reread

theorem prettyAt_eq_scalarText (level : Nat) {v : Json} (harray : ∀ items, v ≠ array items)
    (hobject : ∀ fields, v ≠ object fields) : v.prettyAt level = v.scalarText := by
  cases v with
  | array items => exact absurd rfl (harray items)
  | object fields => exact absurd rfl (hobject fields)
  | _ => rw [prettyAt] <;> nofun

end Json

namespace JsonText

variable {denoted : Double → Double} {t : JsonText} {rest : List Char}

/-! ## The first character of a value -/

/-- The text begins with something that is no blank and closes no list. -/
def StartsValue (text : List Char) : Prop :=
  ∃ c cs, text = c :: cs ∧ isBlank c = false ∧ c ≠ ']'

theorem isBlank_of_digit {c : Char} (hc : '0' ≤ c ∧ c ≤ '9') : isBlank c = false := by
  simp only [isBlank, Bool.or_eq_false_iff, decide_eq_false_iff_not]
  refine ⟨⟨⟨?_, ?_⟩, ?_⟩, ?_⟩ <;> rintro rfl <;> revert hc <;> decide

/-- The text of a number, from its sign on. -/
def signed (negative : Bool) (body : List Char) : List Char :=
  if negative then '-' :: body else body

theorem startsValue_signed (negative : Bool) {c : Char} (hc : '0' ≤ c ∧ c ≤ '9')
    (cs : List Char) : StartsValue (signed negative (c :: cs)) := by
  cases negative with
  | true => exact ⟨'-', c :: cs, rfl, by decide, by decide⟩
  | false =>
      refine ⟨c, cs, rfl, isBlank_of_digit hc, ?_⟩
      rintro rfl
      revert hc
      decide

theorem toList_toString_int (i : Int) :
    (toString i).toList = signed (decide (i < 0)) (Nat.toDigits 10 i.natAbs) := by
  cases i with
  | ofNat n =>
      have hsign : decide (Int.ofNat n < 0) = false := decide_eq_false (by simp)
      rw [hsign]
      exact Nat.toList_repr
  | negSucc n =>
      have hsign : decide (Int.negSucc n < 0) = true := decide_eq_true (Int.negSucc_lt_zero n)
      rw [hsign]
      show ("-" ++ Nat.repr (n + 1)).toList = _
      rw [String.toList_append, Nat.toList_repr]
      rfl

/-- The text of a number behind its sign: it begins with a digit and goes on
without a blank. -/
structure IsNumeral (body : List Char) : Prop where
  begins : ∃ c cs, body = c :: cs ∧ '0' ≤ c ∧ c ≤ '9'
  unbroken : ∀ c ∈ body, isBlank c = false

theorem isNumeral_of_digits {body : List Char} (hne : body ≠ [])
    (h : ∀ c ∈ body, c.isDigit = true) : IsNumeral body := by
  obtain ⟨c, cs, rfl⟩ := List.exists_cons_of_ne_nil hne
  exact ⟨⟨c, cs, rfl, isDigit_iff.mp (h c List.mem_cons_self)⟩,
    fun d hd => isBlank_of_digit (isDigit_iff.mp (h d hd))⟩

theorem isNumeral_toDigits (n : Nat) : IsNumeral (Nat.toDigits 10 n) :=
  isNumeral_of_digits Nat.toDigits_ne_nil fun _ hc =>
    Nat.isDigit_of_mem_toDigits (by decide) (by decide) hc

theorem IsNumeral.append {as bs : List Char} (ha : IsNumeral as)
    (hb : ∀ c ∈ bs, isBlank c = false) : IsNumeral (as ++ bs) := by
  obtain ⟨⟨c, cs, rfl, hc⟩, has⟩ := ha
  refine ⟨⟨c, cs ++ bs, rfl, hc⟩, fun d hd => ?_⟩
  rcases List.mem_append.mp hd with hd | hd
  · exact has d hd
  · exact hb d hd

theorem IsNumeral.take {as : List Char} (ha : IsNumeral as) {n : Nat} (hn : n ≠ 0) :
    IsNumeral (as.take n) := by
  obtain ⟨⟨c, cs, rfl, hc⟩, has⟩ := ha
  obtain ⟨n, rfl⟩ := Nat.exists_eq_succ_of_ne_zero hn
  exact ⟨⟨c, cs.take n, rfl, hc⟩, fun d hd => has d (List.mem_of_mem_take hd)⟩

/-- Whichever layout a number gets, its text is a numeral behind a sign. -/
theorem toList_render (x : Double) :
    ∃ body, (Json.numberLayout.render x).toList = signed x.negative body ∧ IsNumeral body := by
  have hzeros : ∀ n, ∀ c ∈ List.replicate n '0', isBlank c = false := by
    intro n c hc
    rw [List.eq_of_mem_replicate hc]
    decide
  unfold Layout.render
  dsimp only
  generalize hdigits : Nat.toDigits 10 (Layout.stripZeros x.shortest.1).1 = text
  have htext : IsNumeral text := hdigits ▸ isNumeral_toDigits _
  refine ⟨_, String.toList_ofList, ?_⟩
  split
  case isTrue =>
    split
    case isTrue => exact (htext.append (hzeros _)).append (by simp [isBlank])
    case isFalse =>
      split
      case isTrue hbehind =>
        refine (htext.take (by omega)).append fun c hc => ?_
        rcases List.mem_cons.mp hc with rfl | hc
        · decide
        · exact htext.unbroken c (List.mem_of_mem_drop hc)
      case isFalse =>
        have hzero : IsNumeral ['0'] := isNumeral_toDigits 0
        have hpoint : IsNumeral ['0', '.'] := hzero.append (by simp [isBlank])
        exact (hpoint.append (hzeros _)).append htext.unbroken
  case isFalse =>
    refine IsNumeral.append (IsNumeral.append ?_ ?_) (isNumeral_toDigits _).unbroken
    · split
      case h_1 => exact htext
      case h_2 rest _ _ =>
        have hfirst := htext.take Nat.one_ne_zero
        have hpoint : ∀ c ∈ '.' :: rest, isBlank c = false := by
          intro c hc
          rcases List.mem_cons.mp hc with rfl | hc
          · decide
          · exact htext.unbroken c (List.mem_cons_of_mem _ hc)
        exact hfirst.append hpoint
      case h_3 => exact htext
    · split <;> simp [isBlank, Json.numberLayout]

theorem startsValue_of_signed {text body : List Char} {negative : Bool}
    (h : text = signed negative body) (hbody : IsNumeral body) : StartsValue text := by
  obtain ⟨c, cs, rfl, hc⟩ := hbody.begins
  exact h ▸ startsValue_signed negative hc cs

theorem startsValue_scalarText (v : Json) (harray : ∀ items, v ≠ .array items)
    (hobject : ∀ fields, v ≠ .object fields) : StartsValue v.scalarText.toList := by
  cases v with
  | null => exact ⟨'n', ['u', 'l', 'l'], rfl, by decide, by decide⟩
  | bool b =>
      cases b with
      | true => exact ⟨'t', ['r', 'u', 'e'], rfl, by decide, by decide⟩
      | false => exact ⟨'f', ['a', 'l', 's', 'e'], rfl, by decide, by decide⟩
  | integer i => exact startsValue_of_signed (toList_toString_int i) (isNumeral_toDigits _)
  | fraction x =>
      obtain ⟨body, htext, hbody⟩ := toList_render x
      exact startsValue_of_signed htext hbody
  | string s => exact ⟨'\x22', _, String.toList_ofList, by decide, by decide⟩
  | array items => exact absurd rfl (harray items)
  | object fields => exact absurd rfl (hobject fields)

theorem startsValue_prettyAt (level : Nat) (v : Json) :
    StartsValue (v.prettyAt level).toList := by
  unfold Json.prettyAt
  split
  case h_5 harray harray' hobject hobject' =>
    refine startsValue_scalarText v (fun items => ?_) fun fields => ?_
    · cases items with
      | nil => exact harray
      | cons v rest => exact harray' v rest
    · cases fields with
      | nil => exact hobject
      | cons field rest => exact hobject' field rest
  case h_1 => exact ⟨'[', [']'], rfl, by decide, by decide⟩
  case h_3 => exact ⟨'\x7b', ['\x7d'], rfl, by decide, by decide⟩
  all_goals
    simp only [String.toList_append, List.append_assoc]
    exact ⟨_, _, rfl, by decide, by decide⟩

/-! ## Entries of a list -/

section Items

variable (denoted) (item : JsonText → Except JsonError (Json × JsonText))

/-- The reader takes the text, with blanks in front of it, as the value. -/
def ReadsBack (text : List Char) (v : Json) : Prop :=
  ∀ t rest, t.skipBlanks.rest = text ++ rest → EndsNumber rest →
    ∃ t', item t = .ok (v, t') ∧ t'.rest = rest

/-- The reader takes the text of a value at a level as what the value comes back as. -/
def Rereads (level : Nat) (v : Json) : Prop :=
  ReadsBack item (v.prettyAt level).toList (v.reread denoted)

variable {denoted item}

theorem rest_skipBlanks_of_startsValue {text : List Char} (htext : StartsValue text)
    {blanks : List Char} (hblanks : ∀ b ∈ blanks, isBlank b = true)
    (h : t.rest = blanks ++ (text ++ rest)) : t.skipBlanks.rest = text ++ rest := by
  obtain ⟨c, cs, rfl, hc, -⟩ := htext
  exact rest_skipBlanks_append h hblanks hc

theorem rest_skipBlanks_self {text : List Char} (htext : StartsValue text)
    (h : t.rest = text ++ rest) : t.skipBlanks.rest = text ++ rest :=
  @rest_skipBlanks_of_startsValue t rest text htext [] (by simp) h

theorem isBlank_newLine (level : Nat) : ∀ b ∈ (Json.newLine level).toList, isBlank b = true := by
  intro b hb
  simp only [Json.newLine, String.toList_append, String.toList_ofList, List.mem_append] at hb
  rcases hb with hb | hb
  · rw [List.mem_singleton.mp hb]
    decide
  · rw [List.eq_of_mem_replicate hb]
    decide

/-- The texts of the entries behind the first one. -/
def itemsTail (level : Nat) (items : List Json) : List Char :=
  items.flatMap fun v => ',' :: ((Json.newLine level).toList ++ (v.prettyAt level).toList)

theorem toList_prettyItems (level : Nat) (v : Json) (rest : List Json) :
    (Json.prettyItems level (v :: rest)).toList
      = (v.prettyAt level).toList ++ itemsTail level rest := by
  induction rest generalizing v with
  | nil => simp [Json.prettyItems, itemsTail]
  | cons w rest ih =>
      simp only [Json.prettyItems, String.toList_append, ih, itemsTail, List.flatMap_cons]
      simp

theorem endsNumber_newLine (level : Nat) (rest : List Char) :
    EndsNumber ((Json.newLine level).toList ++ rest) := by
  simp only [Json.newLine, String.toList_append, List.append_assoc]
  exact endsNumber_lineFeed _

/-- The end of a list or the next entry: no number goes on in either. -/
theorem endsNumber_itemsTail (level : Nat) (items : List Json) {rest : List Char}
    (hrest : EndsNumber rest) : EndsNumber (itemsTail level items ++ rest) := by
  cases items with
  | nil => exact hrest
  | cons v items => exact endsNumber_comma _

/-- Behind a comma the next entry is read. -/
theorem items_comma {v : Json} {u : JsonText} {cs text : List Char} (fuel : Nat)
    (read : List Json) (hcomma : t.skipBlanks.rest = ',' :: cs) (htext : StartsValue text)
    (hnext : t.skipBlanks.advance.skipBlanks.rest = text ++ rest)
    (hv : item t.skipBlanks.advance.skipBlanks = .ok (v, u)) :
    items item (fuel + 1) false read t = items item fuel false (v :: read) u := by
  obtain ⟨c, cs, rfl, -, hclose⟩ := htext
  rw [List.cons_append] at hnext
  rw [items]
  simp [hcomma, hnext, hclose, hv, bind, Except.bind]

theorem items_close {cs : List Char} (fuel : Nat) (isFirst : Bool) (read : List Json)
    (hclose : t.skipBlanks.rest = ']' :: cs) :
    items item (fuel + 1) isFirst read t = .ok (.array read.reverse, t.skipBlanks.advance) := by
  simp [items, hclose]

theorem items_first {v : Json} {u : JsonText} {text : List Char} (fuel : Nat)
    (read : List Json) (htext : StartsValue text) (hnext : t.skipBlanks.rest = text ++ rest)
    (hv : item t.skipBlanks = .ok (v, u)) :
    items item (fuel + 1) true read t = items item fuel false (v :: read) u := by
  obtain ⟨c, cs, rfl, -, hopen⟩ := htext
  rw [List.cons_append] at hnext
  rw [items]
  simp [hnext, hv, bind, Except.bind]

theorem items_tail (level : Nat) (entries : List Json)
    (hread : ∀ v ∈ entries, Rereads denoted item (level + 1) v) {fuel : Nat}
    (hfuel : entries.length < fuel) (read : List Json)
    (h : t.rest = itemsTail (level + 1) entries
      ++ ((Json.newLine level).toList ++ ']' :: rest)) :
    ∃ t', items item fuel false read t
        = .ok (.array (read.reverse ++ entries.map (Json.reread denoted)), t')
      ∧ t'.rest = rest := by
  induction entries generalizing fuel read t with
  | nil =>
      obtain ⟨fuel, rfl⟩ := Nat.exists_eq_succ_of_ne_zero (Nat.ne_of_gt hfuel)
      have hclose : t.skipBlanks.rest = ']' :: rest :=
        rest_skipBlanks_append h (isBlank_newLine _) (by decide)
      refine ⟨t.skipBlanks.advance, ?_, rest_advance hclose⟩
      rw [items_close fuel false read hclose, List.map_nil, List.append_nil]
  | cons v entries ih =>
      obtain ⟨fuel, rfl⟩ := Nat.exists_eq_succ_of_ne_zero (Nat.ne_of_gt (Nat.zero_lt_of_lt hfuel))
      simp only [itemsTail, List.flatMap_cons, List.cons_append, List.append_assoc] at h
      have hcomma := rest_skipBlanks_cons h (by decide)
      have hstarts := startsValue_prettyAt (level + 1) v
      have hnext := rest_skipBlanks_of_startsValue hstarts (isBlank_newLine (level + 1))
        (rest_advance hcomma)
      have hend := endsNumber_itemsTail (level + 1) entries (endsNumber_newLine level (']' :: rest))
      obtain ⟨u, hv, hu⟩ := hread v List.mem_cons_self t.skipBlanks.advance.skipBlanks _
        (rest_skipBlanks_self hstarts hnext) hend
      obtain ⟨t', htail, ht'⟩ := ih (fun w hw => hread w (List.mem_cons_of_mem _ hw))
        (Nat.lt_of_succ_lt_succ hfuel) (v.reread denoted :: read) hu
      refine ⟨t', ?_, ht'⟩
      rw [items_comma fuel read hcomma hstarts hnext hv, htail, List.reverse_cons,
        List.append_assoc, List.map_cons]
      rfl

/-- The entries of a list are read back from behind its bracket. -/
theorem items_pretty (level : Nat) (v : Json) (entries : List Json)
    (hread : ∀ w ∈ v :: entries, Rereads denoted item (level + 1) w)
    {fuel : Nat} (hfuel : entries.length + 1 < fuel)
    (h : t.rest = (Json.newLine (level + 1) ++ Json.prettyItems (level + 1) (v :: entries)
      ++ Json.newLine level ++ "]").toList ++ rest) :
    ∃ t', items item fuel true [] t = .ok (.array ((v :: entries).map (Json.reread denoted)), t')
      ∧ t'.rest = rest := by
  obtain ⟨fuel, rfl⟩ := Nat.exists_eq_succ_of_ne_zero (Nat.ne_of_gt (Nat.zero_lt_of_lt hfuel))
  simp only [String.toList_append, toList_prettyItems, List.append_assoc] at h
  have hstarts := startsValue_prettyAt (level + 1) v
  have hnext := rest_skipBlanks_of_startsValue hstarts (isBlank_newLine (level + 1)) h
  have hend := endsNumber_itemsTail (level + 1) entries (endsNumber_newLine level (']' :: rest))
  obtain ⟨u, hv, hu⟩ := hread v List.mem_cons_self t.skipBlanks _
    (rest_skipBlanks_self hstarts hnext) hend
  obtain ⟨t', htail, ht'⟩ := items_tail level entries
    (fun w hw => hread w (List.mem_cons_of_mem _ hw)) (Nat.lt_of_succ_lt_succ hfuel)
    [v.reread denoted] hu
  exact ⟨t', by rw [items_first fuel [] hstarts hnext hv, htail]; rfl, ht'⟩

/-! ## Fields of an object -/

/-- The text of a field. -/
def fieldText (level : Nat) (field : String × Json) : List Char :=
  (Json.quote field.1).toList ++ ':' :: ' ' :: (field.2.prettyAt level).toList

/-- The texts of the fields behind the first one. -/
def fieldsTail (level : Nat) (fields : List (String × Json)) : List Char :=
  fields.flatMap fun field => ',' :: ((Json.newLine level).toList ++ fieldText level field)

theorem toList_prettyFields (level : Nat) (field : String × Json)
    (rest : List (String × Json)) : (Json.prettyFields level (field :: rest)).toList
      = fieldText level field ++ fieldsTail level rest := by
  obtain ⟨key, v⟩ := field
  induction rest generalizing key v with
  | nil => simp [Json.prettyFields, fieldsTail, fieldText]
  | cons w rest ih =>
      obtain ⟨key', w⟩ := w
      simp only [Json.prettyFields, String.toList_append, ih, fieldsTail, List.flatMap_cons,
        fieldText]
      simp

theorem endsNumber_fieldsTail (level : Nat) (fields : List (String × Json)) {rest : List Char}
    (hrest : EndsNumber rest) : EndsNumber (fieldsTail level fields ++ rest) := by
  cases fields with
  | nil => exact hrest
  | cons v fields => exact endsNumber_comma _

theorem exists_fieldText_eq (level : Nat) (field : String × Json) :
    ∃ cs, fieldText level field = '\x22' :: cs :=
  ⟨_, by rw [fieldText, Json.quote, String.toList_ofList]; rfl⟩

theorem startsValue_fieldText (level : Nat) (field : String × Json) :
    StartsValue (fieldText level field) := by
  obtain ⟨cs, h⟩ := exists_fieldText_eq level field
  exact ⟨'\x22', cs, h, by decide, by decide⟩

theorem pair_fieldText {level : Nat} {field : String × Json}
    (hread : Rereads denoted item level field.2)
    (h : t.rest = fieldText level field ++ rest) (hrest : EndsNumber rest) :
    ∃ t', pair item t = .ok ((field.1, field.2.reread denoted), t') ∧ t'.rest = rest := by
  rw [fieldText, List.append_assoc] at h
  obtain ⟨u, hkey, hu⟩ := string_quote field.1 h
  have hcolon := rest_skipBlanks_cons hu (by decide)
  have hvalue : u.skipBlanks.advance.skipBlanks.rest
      = (field.2.prettyAt level).toList ++ rest :=
    @rest_skipBlanks_of_startsValue _ rest _ (startsValue_prettyAt level field.2) [' ']
      (by simp [isBlank]) (rest_advance hcolon)
  obtain ⟨t', hv, ht'⟩ := hread u.skipBlanks.advance rest hvalue hrest
  exact ⟨t', by simp [pair, hkey, hcolon, hv, bind, Except.bind, pure, Except.pure], ht'⟩

theorem pairs_close {cs : List Char} (fuel : Nat) (isFirst : Bool) (read : List (String × Json))
    (hclose : t.skipBlanks.rest = '\x7d' :: cs) :
    pairs item (fuel + 1) isFirst read t = .ok (.object read, t.skipBlanks.advance) := by
  simp [pairs, hclose]

theorem pairs_first {key : String} {v : Json} {u : JsonText} {cs : List Char} (fuel : Nat)
    (read : List (String × Json)) (hnext : t.skipBlanks.rest = '\x22' :: cs)
    (hv : pair item t.skipBlanks = .ok ((key, v), u)) :
    pairs item (fuel + 1) true read t = pairs item fuel false (insertSorted key v read) u := by
  rw [pairs]
  simp [hnext, hv, bind, Except.bind]

theorem pairs_comma {key : String} {v : Json} {u : JsonText} {cs ds : List Char} (fuel : Nat)
    (read : List (String × Json)) (hcomma : t.skipBlanks.rest = ',' :: cs)
    (hnext : t.skipBlanks.advance.skipBlanks.rest = '\x22' :: ds)
    (hv : pair item t.skipBlanks.advance.skipBlanks = .ok ((key, v), u)) :
    pairs item (fuel + 1) false read t = pairs item fuel false (insertSorted key v read) u := by
  rw [pairs]
  simp [hcomma, hnext, hv, bind, Except.bind]

theorem pairs_tail (level : Nat) (fields : List (String × Json))
    (hread : ∀ f ∈ fields, Rereads denoted item (level + 1) f.2)
    {fuel : Nat} (hfuel : fields.length < fuel) (read : List (String × Json))
    (h : t.rest = fieldsTail (level + 1) fields
      ++ ((Json.newLine level).toList ++ '\x7d' :: rest)) :
    ∃ t', pairs item fuel false read t = .ok (.object (Json.rereadFields denoted fields read), t')
      ∧ t'.rest = rest := by
  induction fields generalizing fuel read t with
  | nil =>
      obtain ⟨fuel, rfl⟩ := Nat.exists_eq_succ_of_ne_zero (Nat.ne_of_gt hfuel)
      have hclose : t.skipBlanks.rest = '\x7d' :: rest :=
        rest_skipBlanks_append h (isBlank_newLine _) (by decide)
      refine ⟨t.skipBlanks.advance, ?_, rest_advance hclose⟩
      rw [pairs_close fuel false read hclose, Json.rereadFields]
  | cons field fields ih =>
      obtain ⟨fuel, rfl⟩ := Nat.exists_eq_succ_of_ne_zero (Nat.ne_of_gt (Nat.zero_lt_of_lt hfuel))
      simp only [fieldsTail, List.flatMap_cons, List.cons_append, List.append_assoc] at h
      obtain ⟨cs, hquote⟩ := exists_fieldText_eq (level + 1) field
      have hcomma := rest_skipBlanks_cons h (by decide)
      have hnext := rest_skipBlanks_of_startsValue (startsValue_fieldText (level + 1) field)
        (isBlank_newLine (level + 1)) (rest_advance hcomma)
      have hend := endsNumber_fieldsTail (level + 1) fields
        (endsNumber_newLine level ('\x7d' :: rest))
      obtain ⟨u, hv, hu⟩ := pair_fieldText (hread field List.mem_cons_self) hnext hend
      obtain ⟨t', htail, ht'⟩ := ih (fun w hw => hread w (List.mem_cons_of_mem _ hw))
        (Nat.lt_of_succ_lt_succ hfuel) (insertSorted field.1 (field.2.reread denoted) read) hu
      rw [hquote, List.cons_append] at hnext
      exact ⟨t', by rw [pairs_comma fuel read hcomma hnext hv, htail, Json.rereadFields], ht'⟩

/-- The fields of an object are read back from behind its brace. -/
theorem pairs_pretty (level : Nat) (field : String × Json) (fields : List (String × Json))
    (hread : ∀ f ∈ field :: fields, Rereads denoted item (level + 1) f.2)
    {fuel : Nat} (hfuel : fields.length + 1 < fuel)
    (h : t.rest = (Json.newLine (level + 1) ++ Json.prettyFields (level + 1) (field :: fields)
      ++ Json.newLine level ++ "\x7d").toList ++ rest) :
    ∃ t', pairs item fuel true [] t
        = .ok (.object (Json.rereadFields denoted (field :: fields) []), t')
      ∧ t'.rest = rest := by
  obtain ⟨fuel, rfl⟩ := Nat.exists_eq_succ_of_ne_zero (Nat.ne_of_gt (Nat.zero_lt_of_lt hfuel))
  simp only [String.toList_append, toList_prettyFields, List.append_assoc] at h
  obtain ⟨cs, hquote⟩ := exists_fieldText_eq (level + 1) field
  have hnext := rest_skipBlanks_of_startsValue (startsValue_fieldText (level + 1) field)
    (isBlank_newLine (level + 1)) h
  have hend := endsNumber_fieldsTail (level + 1) fields
    (endsNumber_newLine level ('\x7d' :: rest))
  obtain ⟨u, hv, hu⟩ := pair_fieldText (hread field List.mem_cons_self) hnext hend
  obtain ⟨t', htail, ht'⟩ := pairs_tail level fields
    (fun w hw => hread w (List.mem_cons_of_mem _ hw)) (Nat.lt_of_succ_lt_succ hfuel)
    (insertSorted field.1 (field.2.reread denoted) []) hu
  rw [hquote, List.cons_append] at hnext
  exact ⟨t', by rw [pairs_first fuel [] hnext hv, htail, Json.rereadFields], ht'⟩

end Items

/-! ## Values -/

section Value

variable {n : Nat} {cs : List Char}

theorem value_signed (n : Nat) {negative : Bool} {body : List Char} (hbody : IsNumeral body)
    (h : t.skipBlanks.rest = signed negative body ++ rest) :
    ∃ u, value n t = number negative u ∧ u.rest = body ++ rest := by
  obtain ⟨c, cs, rfl, hc⟩ := hbody.begins
  cases negative with
  | true =>
      have hminus : t.skipBlanks.rest = '-' :: (c :: (cs ++ rest)) := h
      refine ⟨t.skipBlanks.advance, ?_, rest_advance hminus⟩
      rw [value.eq_def]
      simp only [hminus]
  | false =>
      have hdigit : t.skipBlanks.rest = c :: (cs ++ rest) := h
      refine ⟨t.skipBlanks, ?_, hdigit⟩
      rw [value.eq_def]
      have hne : ∀ d, ¬('0' ≤ d ∧ d ≤ '9') → c ≠ d := by
        rintro d hd rfl
        exact hd hc
      simp [hdigit, hc, hne 'n' (by decide), hne 't' (by decide), hne 'f' (by decide),
        hne '-' (by decide), hne '\x22' (by decide), hne '[' (by decide),
        hne '\x7b' (by decide)]

theorem value_bracket (h : t.skipBlanks.rest = '[' :: cs) :
    value (n + 1) t = items (value n) (cs.length + 2) true [] t.skipBlanks.advance := by
  rw [value.eq_def]
  simp only [h, List.length_cons]

theorem value_brace (h : t.skipBlanks.rest = '\x7b' :: cs) :
    value (n + 1) t = pairs (value n) (cs.length + 2) true [] t.skipBlanks.advance := by
  rw [value.eq_def]
  simp only [h, List.length_cons]

theorem value_integer {i : Int} (hmin : Json.minInteger ≤ i) (hmax : i ≤ Json.maxInteger) :
    ReadsBack (value n) (toString i).toList (.integer i) := by
  intro t rest h hrest
  rw [toList_toString_int] at h
  obtain ⟨u, hvalue, hu⟩ := value_signed n (isNumeral_toDigits _) h
  obtain ⟨t', hread, ht'⟩ := number_natAbs hmin hmax hu hrest
  exact ⟨t', hvalue.trans hread, ht'⟩

/-- A text that is the text of a number is read as one. -/
theorem value_render {x : Double} {body : List Char}
    (htext : (Json.numberLayout.render x).toList = signed x.negative body)
    (hbody : IsNumeral body) : ∃ u,
      value n (ofString (Json.numberLayout.render x)) = number x.negative u ∧ u.rest = body := by
  have hstarts : (ofString (Json.numberLayout.render x)).skipBlanks.rest
      = signed x.negative body ++ [] :=
    rest_skipBlanks_self (startsValue_of_signed rfl hbody) (htext.trans (List.append_nil _).symm)
  obtain ⟨u, hvalue, hu⟩ := value_signed n hbody hstarts
  exact ⟨u, hvalue, hu.trans (List.append_nil body)⟩

/-- What the text of a number stands for by itself it stands for in a document. -/
theorem value_fraction {x y : Double} (h : Json.Denotes x y) :
    ReadsBack (value n) (Json.numberLayout.render x).toList (.fraction y) := by
  intro t rest ht hrest
  obtain ⟨body, htext, hbody⟩ := toList_render x
  obtain ⟨u, hvalue, hu⟩ := @value_render (Json.nestingLimit - 1) x body htext hbody
  rw [htext] at ht
  obtain ⟨v, t', hread, hend, rfl⟩ : ∃ v t', number x.negative u = .ok (v, t')
      ∧ t'.skipBlanks.rest = [] ∧ v = .fraction y := by
    rw [Json.Denotes, Json.parse, hvalue] at h
    cases hread : number x.negative u with
    | error e => simp [hread, bind, Except.bind] at h
    | ok p =>
        obtain ⟨v, t'⟩ := p
        simp only [hread, bind, Except.bind] at h
        split at h
        case h_1 hend =>
          exact ⟨v, t', rfl, hend, by simpa [pure, Except.pure] using h⟩
        case h_2 => cases h
  obtain ⟨hsuffix, hlocal⟩ := isLocal_number _ hread
  have hnone : t'.rest = [] := by
    rw [rest_skipBlanks, List.dropWhile_eq_nil_iff] at hend
    refine List.eq_nil_iff_forall_not_mem.mpr fun c hc => ?_
    have hblank := hend c hc
    rw [hbody.unbroken c (hu ▸ hsuffix.subset hc)] at hblank
    cases hblank
  obtain ⟨w, hvalue', hw⟩ := value_signed n hbody ht
  obtain ⟨w', hread', hw'⟩ := hlocal w rest (by rw [hw, hu]) hrest
  exact ⟨w', hvalue'.trans hread', by rw [hw', hnone, List.nil_append]⟩

/-- The text of a number stands for what the reader of numbers says. -/
theorem denotes_of_number {x y : Double} {body : List Char}
    (htext : (Json.numberLayout.render x).toList = signed x.negative body)
    (hbody : IsNumeral body) (hread : ∀ line column,
      ∃ t, number x.negative ⟨body, line, column⟩ = .ok (.fraction y, t) ∧ t.rest = []) :
    Json.Denotes x y := by
  obtain ⟨⟨_, line, column⟩, hvalue, rfl⟩ :=
    @value_render (Json.nestingLimit - 1) x body htext hbody
  obtain ⟨t, hnumber, ht⟩ := hread line column
  have hend : t.skipBlanks.rest = [] := by rw [rest_skipBlanks, ht]; rfl
  rw [Json.Denotes, Json.parse, hvalue, hnumber]
  simp [hend, bind, Except.bind, pure, Except.pure]

theorem value_word (c : Char) (cs : List Char) (v : Json) (hword : ∀ u : JsonText,
      u.skipBlanks.rest = c :: (cs ++ rest) → value n u = word v cs u.skipBlanks.advance)
    (h : t.skipBlanks.rest = c :: (cs ++ rest)) :
    ∃ t', value n t = .ok (v, t') ∧ t'.rest = rest := by
  obtain ⟨t', hread, ht'⟩ := word_append v cs (rest_advance h)
  exact ⟨t', (hword t h).trans hread, ht'⟩

theorem value_quote (s : String) : ReadsBack (value n) (Json.quote s).toList (.string s) := by
  intro t rest h _
  obtain ⟨t', hread, ht'⟩ := string_quote s h
  obtain ⟨cs, hquote⟩ : ∃ cs, t.skipBlanks.rest = '\x22' :: cs :=
    ⟨_, h.trans (by rw [Json.quote, String.toList_ofList]; rfl)⟩
  refine ⟨t', ?_, ht'⟩
  rw [value.eq_def]
  simp [hquote, hread, bind, Except.bind, pure, Except.pure]

theorem value_scalar (level : Nat) {v : Json} (h : v.Fits denoted n)
    (harray : ∀ items, v ≠ .array items) (hobject : ∀ fields, v ≠ .object fields) :
    Rereads denoted (value n) level v := by
  intro t rest ht hrest
  rw [Json.prettyAt_eq_scalarText level harray hobject] at ht
  cases v with
  | null =>
      exact value_word 'n' ['u', 'l', 'l'] .null
        (fun u hu => by rw [value.eq_def]; simp only [hu]) ht
  | bool b =>
      cases b with
      | true =>
          exact value_word 't' ['r', 'u', 'e'] (.bool true)
            (fun u hu => by rw [value.eq_def]; simp only [hu]) ht
      | false =>
          exact value_word 'f' ['a', 'l', 's', 'e'] (.bool false)
            (fun u hu => by rw [value.eq_def]; simp only [hu]) ht
  | integer i =>
      have hi : Json.minInteger ≤ i ∧ i ≤ Json.maxInteger := by simpa only [Json.Fits] using h
      exact value_integer hi.1 hi.2 t rest ht hrest
  | fraction x =>
      have hx : Json.Denotes x (denoted x) := by simpa only [Json.Fits] using h
      exact value_fraction hx t rest ht hrest
  | string s => exact value_quote s t rest ht hrest
  | array items => exact absurd rfl (harray items)
  | object fields => exact absurd rfl (hobject fields)

theorem length_le_itemsTail (level : Nat) (items : List Json) :
    items.length ≤ (itemsTail level items).length := by
  induction items with
  | nil => exact Nat.le_refl 0
  | cons v items ih =>
      simp only [itemsTail, List.flatMap_cons, List.length_append, List.length_cons] at *
      omega

theorem length_le_fieldsTail (level : Nat) (fields : List (String × Json)) :
    fields.length ≤ (fieldsTail level fields).length := by
  induction fields with
  | nil => exact Nat.le_refl 0
  | cons field fields ih =>
      simp only [fieldsTail, List.flatMap_cons, List.length_append, List.length_cons] at *
      omega

theorem value_array (level : Nat) {items : List Json}
    (hread : ∀ v ∈ items, Rereads denoted (value n) (level + 1) v) :
    Rereads denoted (value (n + 1)) level (.array items) := by
  intro t rest ht hrest
  rw [Json.reread, Json.rereadItems_eq_map]
  cases items with
  | nil =>
      have hopen : t.skipBlanks.rest = '[' :: (']' :: rest) := by rwa [Json.prettyAt] at ht
      have hclose := rest_skipBlanks_cons (rest_advance hopen) (by decide)
      refine ⟨_, ?_, rest_advance hclose⟩
      rw [value_bracket hopen, items_close _ true [] hclose]
      rfl
  | cons v items =>
      rw [Json.prettyAt] at ht
      have hopen : t.skipBlanks.rest = '[' :: ((Json.newLine (level + 1)
          ++ Json.prettyItems (level + 1) (v :: items) ++ Json.newLine level ++ "]").toList
          ++ rest) := by
        simp only [String.append_assoc, String.toList_append, List.append_assoc] at ht ⊢
        exact ht
      rw [value_bracket hopen]
      refine items_pretty level v items hread ?_ (rest_advance hopen)
      have := length_le_itemsTail (level + 1) items
      simp only [String.toList_append, toList_prettyItems, List.length_append]
      omega

theorem value_object (level : Nat) {fields : List (String × Json)}
    (hread : ∀ f ∈ fields, Rereads denoted (value n) (level + 1) f.2) :
    Rereads denoted (value (n + 1)) level (.object fields) := by
  intro t rest ht hrest
  rw [Json.reread]
  cases fields with
  | nil =>
      have hopen : t.skipBlanks.rest = '\x7b' :: ('\x7d' :: rest) := by rwa [Json.prettyAt] at ht
      have hclose := rest_skipBlanks_cons (rest_advance hopen) (by decide)
      refine ⟨_, ?_, rest_advance hclose⟩
      rw [value_brace hopen, pairs_close _ true [] hclose]
      rfl
  | cons field fields =>
      rw [Json.prettyAt] at ht
      have hopen : t.skipBlanks.rest = '\x7b' :: ((Json.newLine (level + 1)
          ++ Json.prettyFields (level + 1) (field :: fields) ++ Json.newLine level
          ++ "\x7d").toList ++ rest) := by
        simp only [String.append_assoc, String.toList_append, List.append_assoc] at ht ⊢
        exact ht
      rw [value_brace hopen]
      refine pairs_pretty level field fields hread ?_ (rest_advance hopen)
      have := length_le_fieldsTail (level + 1) fields
      simp only [String.toList_append, toList_prettyFields, List.length_append]
      omega

/-- A value that fits is read back from its text, at any level and whatever
stands behind it. -/
theorem value_prettyAt (n level : Nat) {v : Json} (h : v.Fits denoted n) :
    Rereads denoted (value n) level v := by
  induction n generalizing level v with
  | zero =>
      refine value_scalar level h (fun items hv => ?_) fun fields hv => ?_
      · rw [hv, Json.Fits] at h
        exact h
      · rw [hv, Json.Fits] at h
        exact h
  | succ n ih =>
      by_cases harray : ∃ items, v = .array items
      · obtain ⟨items, rfl⟩ := harray
        rw [Json.Fits] at h
        exact value_array level fun v hv => ih (level + 1) (h v hv)
      by_cases hobject : ∃ fields, v = .object fields
      · obtain ⟨fields, rfl⟩ := hobject
        rw [Json.Fits] at h
        exact value_object level fun f hf => ih (level + 1) (h f hf)
      · exact value_scalar level h (not_exists.mp harray) (not_exists.mp hobject)

end Value

theorem endsNumber_of_isBlank {blanks : List Char} (h : ∀ c ∈ blanks, isBlank c = true) :
    EndsNumber blanks := by
  intro c hc
  have hblank := h c (List.mem_of_mem_head? hc)
  refine ⟨fun hdigit => ?_, ?_, ?_, ?_⟩
  · rw [isBlank_of_digit hdigit] at hblank
    cases hblank
  all_goals
    rintro rfl
    revert hblank
    decide

end JsonText

/-- The indented text of a value, with blanks behind it, is read back as the
value with its fields in order. -/
theorem Json.parse_pretty {denoted : Double → Double} {v : Json}
    (h : v.Fits denoted (nestingLimit - 1)) {blanks : String}
    (hblanks : ∀ c ∈ blanks.toList, JsonText.isBlank c = true) :
    parse (v.pretty ++ blanks) = .ok (v.reread denoted) := by
  have hstarts : (JsonText.ofString (v.pretty ++ blanks)).skipBlanks.rest
      = (v.prettyAt 0).toList ++ blanks.toList :=
    JsonText.rest_skipBlanks_self (JsonText.startsValue_prettyAt 0 v) String.toList_append
  obtain ⟨t, hread, ht⟩ := JsonText.value_prettyAt (nestingLimit - 1) 0 h _ _ hstarts
    (JsonText.endsNumber_of_isBlank hblanks)
  have hend : t.skipBlanks.rest = [] := by
    rw [JsonText.rest_skipBlanks, ht]
    exact List.dropWhile_eq_nil_iff.mpr hblanks
  simp [parse, hread, hend, bind, Except.bind, pure, Except.pure]

end CodeSurvey
