import CodeSurvey.Proofs.JsonRoundTrip
import CodeSurvey.Proofs.Sorted
import CodeSurvey.Repository.Wire

/-!
# Records as JSON values, read back

What a decoder finds in a value after the value was written and read. Reading
sorts the fields of an object and lets the last of several with one key count, so
a decoder is run on `Json.reread`, and `valueOf` says what it finds under a key.

`Json.Carries` is the statement about one record: its value fits the reader, and
the decoder gets the record back. Lists, maps and sets of records carry what
their entries carry.
-/

namespace CodeSurvey

/-! ## Lists of pairs -/

section Lookup

variable {κ α : Type} [BEq κ] [LawfulBEq κ]

theorem lookup_cons_eq_ite [DecidableEq κ] (key k : κ) (x : α) (rest : List (κ × α)) :
    ((k, x) :: rest).lookup key = if key = k then some x else rest.lookup key := by
  by_cases h : key = k
  · rw [if_pos h, h, List.lookup_cons_self]
  · have hne : (key == k) = false := beq_eq_false_iff_ne.mpr h
    simp only [if_neg h, List.lookup_cons, hne]

theorem lookup_eq_none_of_notMem {key : κ} {pairs : List (κ × α)}
    (h : key ∉ pairs.map Prod.fst) : pairs.lookup key = none :=
  List.lookup_eq_none_iff.mpr fun p hp =>
    bne_iff_ne.mpr fun heq => h (List.mem_map.mpr ⟨p, hp, heq.symm⟩)

end Lookup

/-! ## Pairs in the order of their keys -/

section Pairs

variable {α β : Type}

theorem lookup_insertSorted (key k : String) (x : α) (set : List (String × α)) :
    (insertSorted k x set).lookup key = if key = k then some x else set.lookup key := by
  induction set with
  | nil => exact lookup_cons_eq_ite key k x []
  | cons p rest ih =>
      obtain ⟨k', y⟩ := p
      rw [insertSorted]
      by_cases hsame : k = k'
      · subst hsame
        rw [if_pos rfl, lookup_cons_eq_ite, lookup_cons_eq_ite]
        split <;> rfl
      rw [if_neg hsame]
      split
      · rw [lookup_cons_eq_ite]
      · rw [lookup_cons_eq_ite, lookup_cons_eq_ite, ih]
        by_cases h : key = k'
        · rw [if_pos h, if_neg fun heq => hsame (heq.symm.trans h), if_pos h]
        · rw [if_neg h, if_neg h]

theorem insertSorted_map (f : α → β) (k : String) (x : α) (set : List (String × α)) :
    insertSorted k (f x) (set.map fun p => (p.1, f p.2))
      = (insertSorted k x set).map fun p => (p.1, f p.2) := by
  induction set with
  | nil => rfl
  | cons p rest ih =>
      obtain ⟨k', y⟩ := p
      simp only [List.map_cons, insertSorted, ih]
      split
      · rfl
      split <;> rfl

theorem mem_of_mem_insertSorted {k : String} {x : α} {p : String × α}
    {set : List (String × α)} (h : p ∈ insertSorted k x set) : p = (k, x) ∨ p ∈ set := by
  induction set with
  | nil => exact .inl (List.mem_singleton.mp h)
  | cons q rest ih =>
      obtain ⟨k', y⟩ := q
      rw [insertSorted] at h
      split at h
      · rcases List.mem_cons.mp h with h | h
        · exact .inl h
        · exact .inr (List.mem_cons_of_mem _ h)
      split at h
      · exact List.mem_cons.mp h
      · rcases List.mem_cons.mp h with h | h
        · exact .inr (List.mem_cons.mpr (.inl h))
        · exact (ih h).imp_right (List.mem_cons_of_mem _)

/-- A pair behind all others stays behind them. -/
theorem insertSorted_of_less {k : String} {x : α} {set : List (String × α)}
    (h : ∀ p ∈ set, textLess p.1 k = true) : insertSorted k x set = set ++ [(k, x)] := by
  induction set with
  | nil => rfl
  | cons p rest ih =>
      obtain ⟨k', y⟩ := p
      have hless : textLess k' k = true := h (k', y) List.mem_cons_self
      have hne : k ≠ k' := by
        rintro rfl
        rw [textLess_irrefl] at hless
        cases hless
      have hnot : ¬textLess k k' = true := by
        intro hback
        have := textLess_trans hless hback
        rw [textLess_irrefl] at this
        cases this
      rw [insertSorted, if_neg hne, if_neg hnot, ih fun q hq => h q (List.mem_cons_of_mem _ hq)]
      rfl

/-- Put pairs among those that are sorted. -/
def mergePairs (pairs set : List (String × α)) : List (String × α) :=
  pairs.foldl (fun set p => insertSorted p.1 p.2 set) set

theorem mergePairs_cons (p : String × α) (rest set : List (String × α)) :
    mergePairs (p :: rest) set = mergePairs rest (insertSorted p.1 p.2 set) := rfl

theorem mergePairs_map (f : α → β) (pairs set : List (String × α)) :
    mergePairs (pairs.map fun p => (p.1, f p.2)) (set.map fun p => (p.1, f p.2))
      = (mergePairs pairs set).map fun p => (p.1, f p.2) := by
  induction pairs generalizing set with
  | nil => rfl
  | cons p rest ih =>
      rw [List.map_cons, mergePairs_cons, mergePairs_cons, insertSorted_map f, ih]

theorem mem_of_mem_mergePairs {p : String × α} {pairs set : List (String × α)}
    (h : p ∈ mergePairs pairs set) : p ∈ pairs ∨ p ∈ set := by
  induction pairs generalizing set with
  | nil => exact .inr h
  | cons q rest ih =>
      rcases ih h with h | h
      · exact .inl (List.mem_cons_of_mem _ h)
      · rcases mem_of_mem_insertSorted h with rfl | h
        · exact .inl List.mem_cons_self
        · exact .inr h

theorem lookup_mergePairs (key : String) {pairs : List (String × α)}
    (h : (pairs.map Prod.fst).Nodup) (set : List (String × α)) :
    (mergePairs pairs set).lookup key = (pairs.lookup key).or (set.lookup key) := by
  induction pairs generalizing set with
  | nil => rfl
  | cons p rest ih =>
      obtain ⟨k, x⟩ := p
      obtain ⟨hnew, hrest⟩ := List.nodup_cons.mp h
      rw [mergePairs_cons, ih hrest, lookup_insertSorted, lookup_cons_eq_ite]
      by_cases hkey : key = k
      · subst hkey
        rw [lookup_eq_none_of_notMem hnew, if_pos rfl, if_pos rfl]
        rfl
      · rw [if_neg hkey, if_neg hkey]

/-- Pairs in the order of their keys stay as they are. -/
theorem mergePairs_of_sorted {pairs : List (String × α)} (h : Sorted (pairs.map Prod.fst)) :
    mergePairs pairs [] = pairs := by
  have hbehind : ∀ set : List (String × α), Sorted ((set ++ pairs).map Prod.fst) →
      mergePairs pairs set = set ++ pairs := by
    clear h
    induction pairs with
    | nil => exact fun set _ => (List.append_nil set).symm
    | cons p rest ih =>
        intro set hset
        obtain ⟨k, x⟩ := p
        have hless : ∀ q ∈ set, textLess q.1 k = true := by
          intro q hq
          rw [List.map_append] at hset
          exact (List.pairwise_append.mp hset).2.2 q.1 (List.mem_map_of_mem hq) k
            List.mem_cons_self
        rw [mergePairs_cons, insertSorted_of_less hless]
        refine (ih (set ++ [(k, x)]) ?_).trans (List.append_assoc ..)
        rwa [List.append_assoc]
  exact hbehind [] h

end Pairs

namespace Json

variable {denoted : Double → Double} {α : Type} {n : Nat}

/-! ## Fields of an object that was read -/

theorem rereadFields_eq_mergePairs (fields set : List (String × Json)) :
    rereadFields denoted fields set
      = mergePairs (fields.map fun f => (f.1, f.2.reread denoted)) set := by
  induction fields generalizing set with
  | nil => rfl
  | cons f rest ih => rw [rereadFields, ih, List.map_cons, mergePairs_cons]

/-- The value that an object with these fields has under a key: of several the
last one that is there. -/
def valueOf (key : String) : List (String × Option Json) → Option Json
  | [] => none
  | (k, v) :: rest => (valueOf key rest).or (if key = k then v else none)

theorem lookup_rereadFields (key : String) (fields : List (String × Option Json))
    (set : List (String × Json)) :
    (rereadFields denoted (fields.filterMap fun f => f.2.map (Prod.mk f.1)) set).lookup key
      = ((valueOf key fields).map (reread denoted)).or (set.lookup key) := by
  induction fields generalizing set with
  | nil => rfl
  | cons f rest ih =>
      obtain ⟨k, v⟩ := f
      cases v with
      | none =>
          have hskip : valueOf key ((k, none) :: rest) = valueOf key rest := by simp [valueOf]
          rw [hskip]
          exact ih set
      | some v =>
          refine (ih _).trans ?_
          rw [lookup_insertSorted, valueOf]
          cases valueOf key rest with
          | some w => rfl
          | none => by_cases h : key = k <;> simp [h]

theorem field?_reread_fieldsOf (key : String) (fields : List (String × Option Json)) :
    ((fieldsOf fields).reread denoted).field? key = (valueOf key fields).map (reread denoted) := by
  have hlookup := @lookup_rereadFields denoted key fields []
  rw [List.lookup_nil, Option.or_none] at hlookup
  exact hlookup

theorem object_eq_fieldsOf (fields : List (String × Json)) :
    object fields = fieldsOf (fields.map fun f => (f.1, some f.2)) := by
  rw [fieldsOf, List.filterMap_map]
  exact congrArg object List.filterMap_some.symm

variable {item : Json → Option α} {key : String}

@[simp] theorem required_fieldsOf (fields : List (String × Option Json)) :
    ((fieldsOf fields).reread denoted).required key item
      = (valueOf key fields).bind fun v => item (v.reread denoted) := by
  rw [required, field?_reread_fieldsOf, Option.bind_map]
  rfl

@[simp] theorem withDefault_fieldsOf (standard : α) (fields : List (String × Option Json)) :
    ((fieldsOf fields).reread denoted).withDefault key standard item
      = (valueOf key fields).elim (some standard) fun v => item (v.reread denoted) := by
  rw [withDefault, field?_reread_fieldsOf]
  cases valueOf key fields <;> rfl

@[simp] theorem optional_fieldsOf (fields : List (String × Option Json)) :
    ((fieldsOf fields).reread denoted).optional key item
      = (valueOf key fields).elim (some none) fun v => nullable? item (v.reread denoted) :=
  withDefault_fieldsOf none fields

theorem fits_fieldsOf {fields : List (String × Option Json)}
    (h : ∀ f ∈ fields, ∀ v ∈ f.2, v.Fits denoted n) : (fieldsOf fields).Fits denoted (n + 1) := by
  rw [fieldsOf, Fits]
  intro f hf
  obtain ⟨field, hfield, hvalue⟩ := List.mem_filterMap.mp hf
  obtain ⟨v, hv, rfl⟩ := Option.map_eq_some_iff.mp hvalue
  exact h field hfield v hv

/-! ## What a value carries -/

/-- The value fits a reader with `n` levels left, and what it comes back as is
decoded as `a`. -/
structure Carries (denoted : Double → Double) (n : Nat) (item : Json → Option α) (v : Json)
    (a : α) : Prop where
  fits : v.Fits denoted n
  reads : item (v.reread denoted) = some a

@[simp] theorem fits_string (n : Nat) (s : String) : (string s).Fits denoted n := by
  rw [Fits]
  trivial

@[simp] theorem fits_bool (n : Nat) (b : Bool) : (bool b).Fits denoted n := by
  rw [Fits]
  trivial

@[simp] theorem string?_reread (s : String) : ((string s).reread denoted).string? = some s := rfl

@[simp] theorem bool?_reread (b : Bool) : ((bool b).reread denoted).bool? = some b := rfl

theorem carries_natural (n : Nat) {limit k : Nat} (hlimit : limit ≤ maxWord) (hk : k ≤ limit) :
    Carries denoted n (natural? limit) (natural k) k := by
  have hfits : minInteger ≤ (k : Int) ∧ (k : Int) ≤ maxInteger := by
    simp only [maxWord, minInteger, maxInteger] at *
    omega
  exact ⟨by rw [natural, Fits]; exact hfits, if_pos hk⟩

theorem carries_count (n : Nat) {k : Nat} (hk : k ≤ maxWord) :
    Carries denoted n count? (natural k) k :=
  carries_natural n (Nat.le_refl _) hk

/-- Reading each value as what it was written from gives back the list. -/
theorem mapM_map_eq_some {β γ : Type} {write : β → γ} {read : γ → Option β} {bs : List β}
    (h : ∀ b ∈ bs, read (write b) = some b) : (bs.map write).mapM read = some bs := by
  induction bs with
  | nil => rfl
  | cons b rest ih =>
      rw [List.map_cons, List.mapM_cons, h b List.mem_cons_self,
        ih fun c hc => h c (List.mem_cons_of_mem _ hc)]
      rfl

theorem carries_list {write : α → Json} {as : List α}
    (h : ∀ a ∈ as, Carries denoted n item (write a) a) :
    Carries denoted (n + 1) (list? item) (array (as.map write)) as := by
  constructor
  · rw [Fits]
    intro v hv
    obtain ⟨a, ha, rfl⟩ := List.mem_map.mp hv
    exact (h a ha).fits
  · rw [reread, rereadItems_eq_map, list?, List.map_map]
    exact mapM_map_eq_some fun a ha => (h a ha).reads

theorem carries_strings (n : Nat) (texts : List String) :
    Carries denoted (n + 1) (list? string?) (strings texts) texts :=
  carries_list fun s _ => ⟨fits_string n s, string?_reread s⟩

@[simp] theorem fits_strings (n : Nat) (texts : List String) :
    (strings texts).Fits denoted (n + 1) :=
  (carries_strings n texts).fits

@[simp] theorem list?_reread_strings (texts : List String) :
    list? string? ((strings texts).reread denoted) = some texts :=
  (carries_strings 0 texts).reads

theorem carries_textSet (n : Nat) {texts : List String} (h : Sorted texts) :
    Carries denoted (n + 1) textSet? (strings texts) texts := by
  refine ⟨(carries_strings n texts).fits, ?_⟩
  rw [textSet?, (carries_strings n texts).reads]
  exact congrArg some (eq_of_sorted (sorted_sortedSet texts) h fun _ => mem_sortedSet)

/-- An object with keys that are data comes back in the order of its keys. -/
theorem carries_map {write : α → Json} {pairs : List (String × α)}
    (h : ∀ p ∈ pairs, Carries denoted n item (write p.2) p.2) :
    Carries denoted (n + 1) (map? item) (object (pairs.map fun p => (p.1, write p.2)))
      (mergePairs pairs []) := by
  constructor
  · rw [Fits]
    intro f hf
    obtain ⟨p, hp, rfl⟩ := List.mem_map.mp hf
    exact (h p hp).fits
  · have hfields : rereadFields denoted (pairs.map fun p => (p.1, write p.2)) []
        = (mergePairs pairs []).map fun p => (p.1, (write p.2).reread denoted) := by
      rw [rereadFields_eq_mergePairs, List.map_map]
      exact mergePairs_map (fun a => (write a).reread denoted) pairs []
    rw [reread, map?, hfields]
    refine mapM_map_eq_some fun p hp => ?_
    have hread : item ((write p.2).reread denoted) = some p.2 := by
      rcases mem_of_mem_mergePairs hp with hp | hp
      · exact (h p hp).reads
      · cases hp
    simp only [hread, Option.map_some]

/-- A field that may be missing is nothing, and otherwise what it carries. -/
theorem elim_nullable? {write : α → Json} (hnull : item null = none)
    (h : ∀ a, item ((write a).reread denoted) = some a) (o : Option α) :
    o.elim (some none) ((fun v => nullable? item (v.reread denoted)) ∘ write) = some o := by
  cases o with
  | none => rfl
  | some a =>
      have ha := h a
      show nullable? item ((write a).reread denoted) = some (some a)
      unfold nullable?
      split
      case h_1 heq =>
        rw [heq, hnull] at ha
        cases ha
      case h_2 => rw [ha, Option.map_some]

@[simp] theorem elim_nullable?_string (o : Option String) :
    o.elim (some none) ((fun v => nullable? string? (v.reread denoted)) ∘ string) = some o :=
  elim_nullable? rfl string?_reread o

@[simp] theorem elim_nullable?_strings (o : Option (List String)) :
    o.elim (some none) ((fun v => nullable? (list? string?) (v.reread denoted)) ∘ strings)
      = some o :=
  elim_nullable? rfl list?_reread_strings o

end Json

end CodeSurvey
