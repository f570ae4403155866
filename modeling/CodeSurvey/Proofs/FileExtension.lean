import CodeSurvey.Proofs.LastPlace

/-!
# Languages by extension

A path with an extension can be cut into directories, the name of the file up to its last
dot and what stands behind that dot (`Language.IsCut`), in one way only: the extension is
what `Language.extension?` answers (`Language.extension?_eq_some_iff`). No extension is one
of two languages, so the first language that lists it is the only one
(`Language.ofExtension_eq_iff`).

The case of letters can be changed anywhere in a path: neither dots nor separators are
letters, so a cut stays a cut.
-/

namespace CodeSurvey.Language

/-! ## The cut -/

/-- A path in three: its directories, the name up to the last dot, and the extension. -/
structure IsCut (path dir stem ext : List Char) : Prop where
  eq : path = dir ++ (stem ++ '.' :: ext)
  dir_end : ∀ c ∈ dir.getLast?, isPathSeparator c = true
  stem_plain : ∀ c ∈ stem, isPathSeparator c = false
  ext_plain : ∀ c ∈ ext, isPathSeparator c = false ∧ c ≠ '.'

/-- Every text ends with what stands behind the last character of a kind. -/
theorem exists_append_behindLast (p : Char → Bool) (cs : List Char) :
    ∃ front, cs = front ++ behindLast p cs ∧ (∀ c ∈ front.getLast?, p c = true)
      ∧ ∀ c ∈ behindLast p cs, p c = false := by
  refine ⟨(cs.reverse.dropWhile fun c => !p c).reverse, ?_, fun c hc => ?_, fun c hc => ?_⟩
  · rw [behindLast, ← List.reverse_append, List.takeWhile_append_dropWhile, List.reverse_reverse]
  · rw [List.getLast?_reverse] at hc
    have hstop := List.head?_dropWhile_not (fun c => !p c) cs.reverse
    rw [Option.mem_def.mp hc] at hstop
    simpa using hstop
  · rw [behindLast, List.mem_reverse] at hc
    simpa using List.all_eq_true.mp List.all_takeWhile c hc

theorem behindLast_append {p : Char → Bool} {front back : List Char}
    (hfront : ∀ c ∈ front.getLast?, p c = true) (hback : ∀ c ∈ back, p c = false) :
    behindLast p (front ++ back) = back := by
  rcases List.eq_nil_or_concat front with rfl | ⟨init, c, rfl⟩
  · exact behindLast_of_forall p hback
  · have hc : p c = true := hfront c (by simp)
    rw [List.concat_eq_append, List.append_assoc, List.singleton_append,
      behindLast_append_cons p hc, behindLast_of_forall p hback]

/-- The extension of a path is the one that the path is cut at. -/
theorem extension?_eq_some_iff {path ext : String} :
    extension? path = some ext ↔ ∃ dir stem, IsCut path.toList dir stem ext.toList := by
  rw [extension?]
  constructor
  · intro h
    split at h
    · rename_i hdot
      obtain ⟨dir, hpath, hdir, hname⟩ := exists_append_behindLast isPathSeparator path.toList
      obtain ⟨front, hcut, hfront, hext⟩ := exists_append_behindLast (· == '.')
        (behindLast isPathSeparator path.toList)
      generalize behindLast isPathSeparator path.toList = name at *
      obtain rfl := Option.some.inj h
      generalize behindLast (· == '.') name = ext at *
      subst hcut
      -- the name has a dot and the extension none, so the front ends with one
      rcases List.eq_nil_or_concat front with rfl | ⟨stem, c, rfl⟩
      · exact absurd (hext '.' (by simpa using hdot)) (by simp)
      · obtain rfl : c = '.' := by simpa using hfront c (by simp)
        refine ⟨dir, stem, by simpa using hpath, hdir, fun c hc => hname c (by simp [hc]), ?_⟩
        intro c hc
        rw [String.toList_ofList] at hc
        exact ⟨hname c (by simp [hc]), by simpa using hext c hc⟩
    · cases h
  · rintro ⟨dir, stem, hpath, hdir, hstem, hext⟩
    have hname : ∀ c ∈ stem ++ '.' :: ext.toList, isPathSeparator c = false := by
      simp only [List.mem_append, List.mem_cons]
      rintro c (hc | rfl | hc)
      · exact hstem c hc
      · rfl
      · exact (hext c hc).1
    have hdot : ∀ c ∈ ext.toList, (c == '.') = false := fun c hc => by simp [(hext c hc).2]
    rw [hpath, behindLast_append hdir hname, if_pos (by simp), behindLast_append_cons _ (by rfl),
      behindLast_of_forall _ hdot, String.ofList_toList]

/-! ## The language of an extension -/

theorem mem_all (l : Language) : l ∈ all := by
  cases l <;> decide

/-- No extension is one of two languages. -/
theorem eq_of_mem_extensions {l l' : Language} {ext : String} (h : ext ∈ l.extensions)
    (h' : ext ∈ l'.extensions) : l = l' := by
  have hrows : ∀ l ∈ all, ∀ ext ∈ l.extensions, ∀ l' ∈ all, ext ∈ l'.extensions → l = l' := by
    decide
  exact hrows l (mem_all l) ext h l' (mem_all l') h'

/-- An extension in small letters. -/
def lowered (ext : List Char) : String := String.ofList (ext.map Char.toLower)

theorem ofExtension_eq (ext : String) : ofExtension ext
    = (all.find? fun l => l.extensions.contains (lowered ext.toList)).getD unknown := rfl

theorem ofExtension_of_mem {ext : String} {l : Language} (h : lowered ext.toList ∈ l.extensions) :
    ofExtension ext = l := by
  rw [ofExtension_eq]
  cases hfind : all.find? fun l => l.extensions.contains (lowered ext.toList) with
  | none =>
      have := List.find?_eq_none.mp hfind l (mem_all l)
      exact absurd (List.contains_iff_mem.mpr h) this
  | some found =>
      have hfound := List.find?_some hfind
      exact eq_of_mem_extensions (List.contains_iff_mem.mp hfound) h

theorem mem_extensions_ofExtension {ext : String} (h : ofExtension ext ≠ unknown) :
    lowered ext.toList ∈ (ofExtension ext).extensions := by
  rw [ofExtension_eq] at h ⊢
  cases hfind : all.find? fun l => l.extensions.contains (lowered ext.toList) with
  | none => exact absurd (by rw [hfind]; rfl) h
  | some found =>
      have hfound := List.find?_some hfind
      exact List.contains_iff_mem.mp hfound

/-- A path is in the language that lists its extension. -/
theorem classify_of_isCut {path : String} {dir stem ext : List Char} {l : Language}
    (h : IsCut path.toList dir stem ext) (hl : lowered ext ∈ l.extensions) : classify path = l := by
  rw [classify, extension?_eq_some_iff.mpr ⟨dir, stem, by rwa [String.toList_ofList]⟩]
  exact ofExtension_of_mem (by rwa [String.toList_ofList])

/-- A path in a language that is known has an extension of that language. -/
theorem exists_isCut_of_classify {path : String} (h : classify path ≠ unknown) :
    ∃ dir stem ext, IsCut path.toList dir stem ext ∧ lowered ext ∈ (classify path).extensions := by
  rw [classify] at h ⊢
  split at h
  · rename_i ext hext
    obtain ⟨dir, stem, hcut⟩ := extension?_eq_some_iff.mp hext
    exact ⟨dir, stem, ext.toList, hcut, mem_extensions_ofExtension h⟩
  · exact absurd rfl h

/-! ## Directories and the case of letters -/

theorem classify_append (dir path : String) {sep : Char} (hsep : isPathSeparator sep = true) :
    classify (dir ++ sep.toString ++ path) = classify path := by
  have hpath : (dir ++ sep.toString ++ path).toList = dir.toList ++ sep :: path.toList := by
    simp
  rw [classify, classify, extension?, extension?, hpath, behindLast_append_cons _ hsep]

theorem isAlpha_toLower (c : Char) : c.toLower.isAlpha = c.isAlpha := by
  unfold Char.toLower Char.isAlpha Char.isUpper Char.isLower
  grind

/-- No letter becomes another character, and no other character a letter. -/
theorem toLower_eq_iff {c d : Char} (hd : d.isAlpha = false) : c.toLower = d ↔ c = d := by
  have hfixed : c.isAlpha = false → c.toLower = c := by
    unfold Char.toLower Char.isAlpha Char.isUpper
    grind
  constructor
  · rintro rfl
    exact (hfixed (isAlpha_toLower c ▸ hd)).symm
  · rintro rfl
    exact hfixed hd

theorem isPathSeparator_toLower (c : Char) : isPathSeparator c.toLower = isPathSeparator c := by
  simp only [isPathSeparator, toLower_eq_iff (d := '/') (by decide),
    toLower_eq_iff (d := '\\') (by decide)]

/-- What small letters keep holds of all characters of a text in any case. -/
theorem forall_mem_of_lowered {p : Char → Prop} (hp : ∀ c, p c.toLower ↔ p c) {cs ds : List Char}
    (h : cs.map Char.toLower = ds.map Char.toLower) (hds : ∀ c ∈ ds, p c) : ∀ c ∈ cs, p c := by
  intro c hc
  have hmem : c.toLower ∈ ds.map Char.toLower := h ▸ List.mem_map_of_mem hc
  obtain ⟨d, hd, heq⟩ := List.mem_map.mp hmem
  exact (hp c).mp (heq ▸ (hp d).mpr (hds d hd))

/-- A path in another case is cut at the same places. -/
theorem IsCut.of_lowered {path path' dir stem ext : List Char} (h : IsCut path dir stem ext)
    (hcase : path'.map Char.toLower = path.map Char.toLower) :
    ∃ dir' stem' ext', IsCut path' dir' stem' ext' ∧ lowered ext' = lowered ext := by
  obtain ⟨rfl, hdir, hstem, hext⟩ := h
  simp only [List.map_append, List.map_cons] at hcase
  obtain ⟨dir', name', rfl, hdir', hname'⟩ := List.map_eq_append_iff.mp hcase
  obtain ⟨stem', back', rfl, hstem', hback'⟩ := List.map_eq_append_iff.mp hname'
  obtain ⟨dot, ext', rfl, hdot, hext'⟩ := List.map_eq_cons_iff.mp hback'
  obtain rfl : dot = '.' := (toLower_eq_iff (by decide)).mp hdot
  refine ⟨dir', stem', ext', ⟨rfl, fun c hc => ?_, ?_, ?_⟩, congrArg String.ofList hext'⟩
  · have hlast := congrArg List.getLast? hdir'
    rw [List.getLast?_map, List.getLast?_map, Option.mem_def.mp hc] at hlast
    obtain ⟨d, hd, heq⟩ := Option.map_eq_some_iff.mp hlast.symm
    rw [← isPathSeparator_toLower, ← heq, isPathSeparator_toLower]
    exact hdir d hd
  · exact forall_mem_of_lowered (fun c => by rw [isPathSeparator_toLower]) hstem' hstem
  · refine forall_mem_of_lowered (fun c => ?_) hext' hext
    rw [isPathSeparator_toLower, Ne, toLower_eq_iff (by decide)]

theorem classify_eq_of_lowered {path path' : String}
    (hcase : path'.toList.map Char.toLower = path.toList.map Char.toLower)
    (h : classify path ≠ unknown) : classify path' = classify path := by
  obtain ⟨dir, stem, ext, hcut, hext⟩ := exists_isCut_of_classify h
  obtain ⟨dir', stem', ext', hcut', hsame⟩ := hcut.of_lowered hcase
  exact classify_of_isCut hcut' (hsame ▸ hext)

/-- A path is in a language exactly if its extension, in small letters, is one of the language,
and else it is in none; directories in front of it and the case of its letters change nothing. -/
theorem classify_eq_iff_isCut (path : String) :
    (∀ l, l ≠ unknown → (classify path = l
        ↔ ∃ dir stem ext, IsCut path.toList dir stem ext ∧ lowered ext ∈ l.extensions))
      ∧ (classify path = unknown
        ↔ ∀ dir stem ext l, IsCut path.toList dir stem ext → lowered ext ∉ extensions l)
      ∧ (∀ (dir : String) (sep : Char), isPathSeparator sep = true →
        classify (dir ++ sep.toString ++ path) = classify path)
      ∧ ∀ path' : String, path'.toList.map Char.toLower = path.toList.map Char.toLower →
        classify path' = classify path := by
  refine ⟨fun l hl => ⟨?_, ?_⟩, ⟨?_, ?_⟩, fun dir sep => classify_append dir path, ?_⟩
  · rintro rfl
    exact exists_isCut_of_classify hl
  · rintro ⟨dir, stem, ext, hcut, hext⟩
    exact classify_of_isCut hcut hext
  · intro h dir stem ext l hcut hext
    obtain rfl := (classify_of_isCut hcut hext).symm.trans h
    cases hext
  · intro h
    refine Decidable.byContradiction fun hknown => ?_
    obtain ⟨dir, stem, ext, hcut, hext⟩ := exists_isCut_of_classify hknown
    exact h dir stem ext _ hcut hext
  · intro path' hcase
    by_cases h : classify path = unknown
    · -- a language of the other spelling would be one of this one
      refine Decidable.byContradiction fun hne => hne ?_
      have hknown : classify path' ≠ unknown := fun h' => hne (h'.trans h.symm)
      exact (classify_eq_of_lowered hcase.symm hknown).symm
    · exact classify_eq_of_lowered hcase h

end CodeSurvey.Language
