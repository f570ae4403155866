import CodeSurvey.Directory.Tree
import CodeSurvey.Proofs.Path

/-!
# Where paths lead

Two ways from a path to an entry. `FileTree.locate?` follows the names of a path
one by one, back up where it meets two dots. `Entries.at?` only goes down, along
the names that are left once `Path.settled` has taken the two dots out. It is the
same entry, whichever way one goes (`StandsAt.follow`); but to follow names there
have to be directories wherever they pass (`StandsAt.exists_follow`).

A file that is put in a place is there then, and all else stays as it was
(`at?_put_self`, `exists_at?_put`, `at?_put_file_iff`).
-/

namespace CodeSurvey

theorem fromUTF8?_toUTF8 (s : String) : String.fromUTF8? s.toUTF8 = some s := by
  have hvalid : s.toUTF8.IsValidUTF8 := s.isValidUTF8
  rw [String.fromUTF8?, dif_pos hvalid]
  rfl

/-! ## Entries of a directory tree -/

namespace Entries

/-- The entry that names lead down to; none of them leads back up. -/
def at? : Entries → List String → Option Entry
  | entries, [] => some (.directory entries)
  | entries, name :: names =>
    match entries.lookup name with
    | some (.directory inner) => at? inner names
    | some (.file content) => if names = [] then some (.file content) else none
    | none => none

theorem at?_singleton (entries : Entries) (name : String) :
    entries.at? [name] = entries.lookup name := by
  rw [at?]
  cases entries.lookup name with
  | none => rfl
  | some e => cases e <;> rfl

theorem at?_append {entries inner : Entries} {xs : List String}
    (h : entries.at? xs = some (.directory inner)) (ys : List String) :
    entries.at? (xs ++ ys) = inner.at? ys := by
  induction xs generalizing entries with
  | nil =>
      obtain rfl : entries = inner := by simpa [at?] using h
      rfl
  | cons name names ih =>
      rw [at?] at h
      rw [List.cons_append, at?]
      cases hl : entries.lookup name with
      | none => simp [hl] at h
      | some e =>
          cases e with
          | file content => simp [hl] at h
          | directory within => exact ih (by simpa [hl] using h)

/-- `entries` are those of the directory at a place below `root`, and `above` the
directories on the way there. -/
inductive StandsAt (root : Entries) : Entries → List (String × Entries) → List String → Prop where
  | root : StandsAt root root [] []
  | enter {outer inner : Entries} {above : List (String × Entries)} {place : List String}
    {name : String} (h : StandsAt root outer above place)
    (hname : outer.lookup name = some (.directory inner)) :
    StandsAt root inner ((name, outer) :: above) (place ++ [name])

theorem StandsAt.at? {root entries : Entries} {above : List (String × Entries)}
    {place : List String} (h : StandsAt root entries above place) :
    root.at? place = some (.directory entries) := by
  induction h with
  | root => rfl
  | enter h hname ih => rw [at?_append ih, at?_singleton, hname]

/-- Following names leads to the place that they settle to. -/
theorem StandsAt.follow {root entries : Entries} {above : List (String × Entries)}
    {place names : List String} (h : StandsAt root entries above place)
    {found : Entry × List (String × Entries)} (hfollow : entries.follow above names = some found) :
    root.at? (Path.settledFrom place names) = some found.1
      ∧ ∀ inner, found.1 = .directory inner →
        StandsAt root inner found.2 (Path.settledFrom place names) := by
  induction names generalizing entries above place with
  | nil =>
      rw [Entries.follow] at hfollow
      obtain rfl := Option.some.inj hfollow
      refine ⟨h.at?, fun inner hinner => ?_⟩
      obtain rfl := Entry.directory.inj hinner
      exact h
  | cons name names ih =>
      by_cases hname : name = ".."
      · subst hname
        rw [Path.settledFrom_up]
        cases h with
        | root =>
            rw [Entries.follow] at hfollow
            exact ih .root hfollow
        | enter houter _ =>
            rw [Entries.follow] at hfollow
            rw [List.dropLast_concat]
            exact ih houter hfollow
      · rw [Path.settledFrom_down hname]
        rw [Entries.follow] at hfollow
        · cases hl : entries.lookup name with
          | none => simp [hl] at hfollow
          | some e =>
              cases e with
              | directory inner => exact ih (h.enter hl) (by simpa [hl] using hfollow)
              | file content =>
                  cases names with
                  | cons n ns => simp [hl] at hfollow
                  | nil =>
                      obtain rfl : (Entry.file content, (name, entries) :: above) = found := by
                        simpa [hl] using hfollow
                      refine ⟨?_, fun inner hinner => nomatch hinner⟩
                      rw [Path.settledFrom, List.foldl_nil, at?_append h.at?, at?_singleton, hl]
        · exact hname

/-- Names can be followed to a directory if there is one wherever they pass. -/
theorem StandsAt.exists_follow {root entries : Entries} {above : List (String × Entries)}
    {place names : List String} (h : StandsAt root entries above place)
    (hpass : ∀ front, front <+: names →
      ∃ inner, root.at? (Path.settledFrom place front) = some (.directory inner)) :
    ∃ inner above', entries.follow above names = some (.directory inner, above') := by
  induction names generalizing entries above place with
  | nil => exact ⟨entries, above, rfl⟩
  | cons name names ih =>
      have hrest : ∀ front, front <+: names → ∃ inner,
          root.at? (Path.settledFrom place (name :: front)) = some (.directory inner) :=
        fun front hfront => hpass _ (List.cons_prefix_cons.mpr ⟨rfl, hfront⟩)
      by_cases hname : name = ".."
      · subst hname
        simp only [Path.settledFrom_up] at hrest
        cases h with
        | root =>
            rw [Entries.follow]
            exact ih .root hrest
        | enter houter _ =>
            rw [Entries.follow]
            rw [List.dropLast_concat] at hrest
            exact ih houter hrest
      · simp only [Path.settledFrom_down hname] at hrest
        obtain ⟨inner, hinner⟩ := hrest [] (List.nil_prefix)
        have hl : entries.lookup name = some (.directory inner) := by
          rwa [Path.settledFrom, List.foldl_nil, at?_append h.at?, at?_singleton] at hinner
        rw [Entries.follow, hl]
        · exact ih (h.enter hl) hrest
        · exact hname

/-- Names are followed one after the other. -/
theorem follow_append (entries : Entries) (above : List (String × Entries)) (xs : List String)
    {ys : List String} (hys : ys ≠ []) :
    entries.follow above (xs ++ ys) = (entries.follow above xs).bind fun found =>
      match found.1 with
      | .directory inner => follow inner found.2 ys
      | .file _ => none := by
  induction xs generalizing entries above with
  | nil => simp [Entries.follow]
  | cons name names ih =>
      by_cases hname : name = ".."
      · subst hname
        cases above with
        | nil =>
            rw [List.cons_append, Entries.follow, Entries.follow]
            exact ih entries []
        | cons frame rest =>
            rw [List.cons_append, Entries.follow, Entries.follow]
            exact ih frame.2 rest
      · rw [List.cons_append, Entries.follow, Entries.follow]
        · cases hl : entries.lookup name with
          | none => rfl
          | some e =>
              cases e with
              | directory inner => exact ih inner _
              | file content => cases names <;> simp [hys]
        · exact hname
        · exact hname

/-- Names that only lead down are followed to the entry that is there. -/
theorem map_follow {names : List String} (hup : ".." ∉ names) (entries : Entries)
    (above : List (String × Entries)) :
    (entries.follow above names).map (·.1) = entries.at? names := by
  induction names generalizing entries above with
  | nil => rfl
  | cons name names ih =>
      obtain ⟨hname, hup⟩ : ".." ≠ name ∧ ".." ∉ names := by simpa using hup
      rw [Entries.follow, at?]
      · cases entries.lookup name with
        | none => rfl
        | some e =>
            cases e with
            | directory inner => exact ih hup inner _
            | file content => cases names <;> rfl
      · exact hname.symm

theorem map_follow_singleton (entries : Entries) (above : List (String × Entries)) {name : String}
    (hname : name ≠ "..") : (entries.follow above [name]).map (·.1) = entries.lookup name := by
  rw [map_follow (by simpa using hname.symm), at?_singleton]

/-- On the way to a directory there are directories only. -/
theorem exists_follow_prefix {entries inner : Entries} {above above' : List (String × Entries)}
    {names front : List String}
    (h : entries.follow above names = some (.directory inner, above')) (hfront : front <+: names) :
    ∃ next around, entries.follow above front = some (.directory next, around) := by
  obtain ⟨rest, rfl⟩ := hfront
  cases rest with
  | nil => exact ⟨inner, above', by rwa [List.append_nil] at h⟩
  | cons name rest =>
      rw [follow_append _ _ _ (List.cons_ne_nil _ _), Option.bind_eq_some_iff] at h
      obtain ⟨⟨e, around⟩, hfollow, hrest⟩ := h
      cases e with
      | directory next => exact ⟨next, around, hfollow⟩
      | file content => cases hrest

/-- The names that were taken on the way to a place lead to it. -/
theorem StandsAt.names {root entries : Entries} {above : List (String × Entries)}
    {place : List String} (h : StandsAt root entries above place) :
    (above.map (·.1)).reverse = place := by
  induction h with
  | root => rfl
  | enter _ _ ih => rw [List.map_cons, List.reverse_cons, ih]

/-! ### A file that is put in a place -/

theorem lookup_set (name : String) (e : Entry) (entries : Entries) (n : String) :
    (entries.set name e).lookup n = if n = name then some e else entries.lookup n := by
  induction entries with
  | nil =>
      by_cases h : n = name
      · simp [set, h]
      · simp [set, List.lookup_cons, beq_false_of_ne h, h]
  | cons entry rest ih =>
      obtain ⟨m, old⟩ := entry
      by_cases hm : m = name
      · by_cases h : n = name
        · simp [set, hm, h]
        · simp [set, hm, h, List.lookup_cons, beq_false_of_ne h]
      · by_cases h : n = m
        · simp [set, hm, h]
        · simp only [set, if_neg hm, List.lookup_cons, beq_false_of_ne h, ih]

section Put

variable {root entries : Entries} {place : List String} {name : String}

theorem put_file_singleton (root : Entries) (name : String) (content : ByteArray) :
    root.put (.file content) [name] = root.set name (.file content) := rfl

theorem at?_cons_directory {d : String} {inner : Entries}
    (h : root.lookup d = some (.directory inner)) (names : List String) :
    root.at? (d :: names) = inner.at? names := by
  rw [at?, h]

theorem at?_cons_set_self (d : String) (inner : Entries) (names : List String) :
    (root.set d (.directory inner)).at? (d :: names) = inner.at? names :=
  at?_cons_directory (by rw [lookup_set, if_pos rfl]) names

theorem at?_cons_set_ne {d n : String} (h : n ≠ d) (e : Entry) (names : List String) :
    (root.set d e).at? (n :: names) = root.at? (n :: names) := by
  rw [at?, at?, lookup_set, if_neg h]

theorem put_cons {d : String} {inner : Entries} (h : root.lookup d = some (.directory inner))
    (e : Entry) {names : List String} (hne : names ≠ []) :
    root.put e (d :: names) = root.set d (.directory (inner.put e names)) := by
  obtain ⟨n, ns, rfl⟩ := List.exists_cons_of_ne_nil hne
  rw [put, h]
  exact hne

theorem exists_lookup_of_at? {d : String} {names : List String}
    (h : root.at? (d :: names) = some (.directory entries)) :
    ∃ inner : Entries, root.lookup d = some (.directory inner)
      ∧ inner.at? names = some (.directory entries) := by
  rw [at?] at h
  cases hl : root.lookup d with
  | none => simp [hl] at h
  | some e =>
      cases e with
      | file content => simp [hl] at h
      | directory inner => exact ⟨inner, rfl, by simpa [hl] using h⟩

/-- A file that is put into a directory is there then. -/
theorem at?_put_self (hplace : root.at? place = some (.directory entries)) (content : ByteArray) :
    (root.put (.file content) (place ++ [name])).at? (place ++ [name]) = some (.file content) := by
  induction place generalizing root with
  | nil => rw [List.nil_append, at?_singleton, put_file_singleton, lookup_set, if_pos rfl]
  | cons d place ih =>
      obtain ⟨inner, hl, hinner⟩ := exists_lookup_of_at? hplace
      rw [List.cons_append, put_cons hl _ (by simp), at?_cons_set_self]
      exact ih hinner

/-- The directories stay where they are. -/
theorem exists_at?_put (hplace : root.at? place = some (.directory entries))
    (hname : ∀ inner, entries.lookup name ≠ some (.directory inner)) (content : ByteArray)
    {names : List String} {inner : Entries} (h : root.at? names = some (.directory inner)) :
    ∃ inner', (root.put (.file content) (place ++ [name])).at? names
      = some (.directory inner') := by
  induction place generalizing root names with
  | nil =>
      obtain rfl : root = entries := by simpa [at?] using hplace
      cases names with
      | nil => exact ⟨_, rfl⟩
      | cons n names =>
          obtain ⟨within, hl, hwithin⟩ := exists_lookup_of_at? h
          have hn : n ≠ name := fun heq => hname within (heq ▸ hl)
          rw [List.nil_append, put_file_singleton, at?_cons_set_ne hn]
          exact ⟨inner, h⟩
  | cons d place ih =>
      obtain ⟨next, hl, hnext⟩ := exists_lookup_of_at? hplace
      rw [List.cons_append, put_cons hl _ (by simp)]
      cases names with
      | nil => exact ⟨_, rfl⟩
      | cons n names =>
          by_cases hn : n = d
          · subst hn
            rw [at?_cons_set_self]
            exact ih hnext (at?_cons_directory hl names ▸ h)
          · rw [at?_cons_set_ne hn]
            exact ⟨inner, h⟩

/-- The files elsewhere stay as they are. -/
theorem at?_put_file_iff (hplace : root.at? place = some (.directory entries))
    (hname : ∀ inner, entries.lookup name ≠ some (.directory inner)) (content : ByteArray)
    {names : List String} (hne : names ≠ place ++ [name])
    {other : ByteArray} :
    (root.put (.file content) (place ++ [name])).at? names = some (.file other)
      ↔ root.at? names = some (.file other) := by
  induction place generalizing root names with
  | nil =>
      cases names with
      | nil => simp [at?]
      | cons n names =>
          rw [List.nil_append, put_file_singleton]
          by_cases hn : n = name
          · -- nothing is below a name that is no directory
            subst hn
            have hnames : names ≠ [] := fun heq => hne (by rw [heq, List.nil_append])
            obtain rfl : root = entries := by simpa [at?] using hplace
            rw [at?, at?, lookup_set, if_pos rfl]
            cases hl : root.lookup n with
            | none => simp [hnames]
            | some e =>
                cases e with
                | file old => simp [hnames]
                | directory inner => exact absurd hl (hname inner)
          · rw [at?_cons_set_ne hn]
  | cons d place ih =>
      obtain ⟨next, hl, hnext⟩ := exists_lookup_of_at? hplace
      rw [List.cons_append, put_cons hl _ (by simp)]
      cases names with
      | nil => simp [at?]
      | cons n names =>
          by_cases hn : n = d
          · subst hn
            rw [at?_cons_set_self, at?_cons_directory hl]
            exact ih hnext fun heq => hne (heq ▸ rfl)
          · rw [at?_cons_set_ne hn]

end Put

end Entries

/-! ## Paths into a tree -/

namespace FileTree

variable (t : FileTree)

theorem endsIdle_join (p : List Char) {name : List Char} (h : Path.IsName name) :
    endsIdle (String.ofList (Path.join p name)) = false := by
  obtain ⟨front, hparts, -⟩ := Path.exists_join_eq p h
  simp [endsIdle, hparts, h.not_idle]

theorem fullNames_join (p : List Char) {name : List Char} (h : Path.IsName name) :
    t.fullNames (String.ofList (Path.join p name))
      = t.fullNames (String.ofList p) ++ [String.ofList name] := by
  have habs := Path.isAbsolute_join p h
  simp only [Path.IsAbsolute] at habs
  simp only [fullNames, String.toList_ofList, Path.names_join p h, habs, List.map_append]
  split <;> simp

theorem locate?_of_ne_empty {path : String} (hpath : path ≠ "") :
    t.locate? path = (t.root.follow [] (t.fullNames path)).bind fun found =>
      match found.1 with
      | .directory _ => some found
      | .file _ => if endsIdle path then none else some found := by
  unfold locate?
  rw [if_neg hpath]
  rfl

theorem locate?_of_not_idle {path : String} (hidle : endsIdle path = false) :
    t.locate? path = t.root.follow [] (t.fullNames path) := by
  have hpath : path ≠ "" := by
    rintro rfl
    cases hidle
  rw [locate?_of_ne_empty t hpath, hidle]
  cases t.root.follow [] (t.fullNames path) with
  | none => rfl
  | some found =>
      obtain ⟨e, above⟩ := found
      cases e <;> rfl

theorem locate?_join (p : List Char) {name : List Char} (h : Path.IsName name) :
    t.locate? (String.ofList (Path.join p name))
      = t.root.follow [] (t.fullNames (String.ofList p) ++ [String.ofList name]) := by
  rw [locate?_of_not_idle t (endsIdle_join p h), fullNames_join t p h]

/-- A path leads to a directory if its names do; slashes at its end do not matter. -/
theorem locate?_eq_directory_iff {path : String} {entries : Entries}
    {above : List (String × Entries)} :
    t.locate? path = some (.directory entries, above)
      ↔ path ≠ "" ∧ t.root.follow [] (t.fullNames path) = some (.directory entries, above) := by
  by_cases hpath : path = ""
  · subst hpath
    exact ⟨fun h => (nomatch h), fun h => absurd rfl h.1⟩
  · rw [locate?_of_ne_empty t hpath, Option.bind_eq_some_iff]
    constructor
    · rintro ⟨⟨e, above'⟩, hfollow, hfound⟩
      cases e with
      | directory inner => exact ⟨hpath, hfollow.trans hfound⟩
      | file content =>
          simp only at hfound
          split at hfound <;> cases hfound
    · rintro ⟨-, hfollow⟩
      exact ⟨_, hfollow, rfl⟩

/-- A path leads to the place that its names settle to. -/
theorem standsAt_of_locate? {path : String} {entries : Entries} {above : List (String × Entries)}
    (h : t.locate? path = some (.directory entries, above)) :
    Entries.StandsAt t.root entries above (Path.settled (t.fullNames path)) :=
  (Entries.StandsAt.root.follow ((locate?_eq_directory_iff t).mp h).2).2 entries rfl

/-- A name within the directory at a path. -/
theorem find?_join {path name : String} {entries : Entries} {above : List (String × Entries)}
    (hdir : t.locate? path = some (.directory entries, above)) (h : Path.IsName name.toList)
    (hup : name ≠ "..") :
    t.find? (String.ofList (Path.join path.toList name.toList)) = entries.lookup name := by
  obtain ⟨-, hfollow⟩ := (locate?_eq_directory_iff t).mp hdir
  rw [find?, locate?_join t _ h, String.ofList_toList, String.ofList_toList,
    Entries.follow_append _ _ _ (List.cons_ne_nil _ _), hfollow]
  exact Entries.map_follow_singleton entries above hup

end FileTree

end CodeSurvey
