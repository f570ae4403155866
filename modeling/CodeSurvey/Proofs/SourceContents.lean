import CodeSurvey.Proofs.IgnoreFiles
import CodeSurvey.Proofs.SearchedPlaces

/-!
# Trees with the same layout

Two trees have the same layout if they have the same names and the same kinds of
entries (`FileTree.SameLayout`), so that a path leads to a directory in one if it
does in the other. If they also have the same files wherever the name is in no known
language, they differ in the texts of sources only (`FileTree.DiffersInSources`).
Neither settings nor ignore files are sources, so what is read of these is the same
then: each lemma below is about one of the places that are looked at.
-/

namespace CodeSurvey

/-! ## Layouts -/

mutual

/-- An entry with all files emptied. -/
def Entry.layout : Entry → Entry
  | .file _ => .file .empty
  | .directory entries => .directory (layoutOf entries)

/-- The entries of a directory with all files emptied. -/
def layoutOf : List (String × Entry) → List (String × Entry)
  | [] => []
  | (name, e) :: rest => (name, e.layout) :: layoutOf rest

end

theorem Entry.layout_eq_directory_iff {e : Entry} {inner : Entries} :
    e.layout = .directory inner ↔ ∃ entries, e = .directory entries ∧ layoutOf entries = inner := by
  cases e with
  | file content => simp [Entry.layout]
  | directory entries => simp [Entry.layout]

theorem lookup_layoutOf (name : String) (entries : Entries) :
    (layoutOf entries).lookup name = (entries.lookup name).map Entry.layout := by
  induction entries with
  | nil => rfl
  | cons entry rest ih =>
      obtain ⟨n, e⟩ := entry
      rw [layoutOf, List.lookup_cons, List.lookup_cons, ih]
      cases name == n <;> rfl

theorem follow_layoutOf (entries : Entries) (above : List (String × Entries))
    (names : List String) :
    Entries.follow (layoutOf entries) (above.map fun d => (d.1, layoutOf d.2)) names
      = (entries.follow above names).map fun found =>
        (found.1.layout, found.2.map fun d => (d.1, layoutOf d.2)) := by
  induction names generalizing entries above with
  | nil => rfl
  | cons name names ih =>
      by_cases hname : name = ".."
      · subst hname
        cases above with
        | nil =>
            rw [Entries.follow, List.map_nil, Entries.follow]
            exact ih entries []
        | cons frame rest =>
            rw [Entries.follow, List.map_cons, Entries.follow]
            exact ih frame.2 rest
      · rw [Entries.follow, Entries.follow, lookup_layoutOf]
        · cases hl : entries.lookup name with
          | none => rfl
          | some e =>
              cases e with
              | directory inner => exact ih inner ((name, entries) :: above)
              | file content => cases names <;> rfl
        · exact hname
        · exact hname

namespace FileTree

/-- Two trees with the same names and the same kinds of entries. -/
structure SameLayout (t u : FileTree) : Prop where
  here : t.here = u.here
  root : layoutOf t.root = layoutOf u.root

variable {t u : FileTree}

theorem SameLayout.symm (h : t.SameLayout u) : u.SameLayout t := ⟨h.here.symm, h.root.symm⟩

theorem SameLayout.fullNames (h : t.SameLayout u) (path : String) :
    t.fullNames path = u.fullNames path := by
  rw [FileTree.fullNames, FileTree.fullNames, h.here]

theorem SameLayout.follow (h : t.SameLayout u) {names : List String} {entries : Entries}
    {above : List (String × Entries)}
    (hfollow : t.root.follow [] names = some (.directory entries, above)) :
    ∃ entries' above', u.root.follow [] names = some (.directory entries', above')
      ∧ layoutOf entries' = layoutOf entries := by
  have heq := (follow_layoutOf t.root [] names).symm.trans
    (h.root ▸ follow_layoutOf u.root [] names)
  rw [hfollow] at heq
  obtain ⟨⟨e, above'⟩, hu, hfound⟩ := Option.map_eq_some_iff.mp heq.symm
  obtain ⟨entries', rfl, hlayout⟩ := Entry.layout_eq_directory_iff.mp (congrArg Prod.fst hfound)
  exact ⟨entries', above', hu, hlayout⟩

theorem SameLayout.locate? (h : t.SameLayout u) {path : String} {entries : Entries}
    {above : List (String × Entries)} (ht : t.locate? path = some (.directory entries, above)) :
    ∃ entries' above', u.locate? path = some (.directory entries', above') := by
  obtain ⟨hpath, hfollow⟩ := (locate?_eq_directory_iff t).mp ht
  obtain ⟨entries', above', hu, -⟩ := h.follow hfollow
  exact ⟨entries', above', (locate?_eq_directory_iff u).mpr ⟨hpath, h.fullNames path ▸ hu⟩⟩

end FileTree

/-! ## Trees that differ in sources -/

namespace Entries

variable {root entries : Entries} {above : List (String × Entries)} {place : List String}

/-- The directories on the way to a place are those at the places in front of it. -/
theorem StandsAt.exists_at?_of_mem (h : StandsAt root entries above place)
    {d : String × Entries} (hd : d ∈ above) :
    ∃ front, front <+: place ∧ front ≠ place ∧ root.at? front = some (.directory d.2) := by
  induction h with
  | root => cases hd
  | @enter outer _ _ place name houter _ ih =>
      have hnext : place <+: place ++ [name] := List.prefix_append place [name]
      rcases List.mem_cons.mp hd with rfl | hd
      · exact ⟨place, hnext, by simp, houter.at?⟩
      · obtain ⟨front, hfront, -, hat⟩ := ih hd
        refine ⟨front, hfront.trans hnext, ?_, hat⟩
        rintro rfl
        simpa using hfront.length_le

theorem StandsAt.exists_mem_of_front (h : StandsAt root entries above place)
    {front : List String} (hfront : front <+: place) (hne : front ≠ place) :
    ∃ d ∈ above, root.at? front = some (.directory d.2) := by
  induction h with
  | root => exact absurd (List.prefix_nil.mp hfront) hne
  | @enter outer _ _ place name houter _ ih =>
      by_cases heq : front = place
      · exact ⟨_, List.mem_cons_self, heq ▸ houter.at?⟩
      · obtain ⟨d, hd, hat⟩ := ih ((List.prefix_concat_iff.mp hfront).resolve_left hne) heq
        exact ⟨d, List.mem_cons_of_mem _ hd, hat⟩

end Entries

namespace FileTree

/-- Two trees differ in the texts of sources only: wherever a name is in no known
language, they have the same files. -/
structure DiffersInSources (t u : FileTree) : Prop extends SameLayout t u where
  files : ∀ names content, Language.classify ("/".intercalate names) = .unknown →
    (t.root.at? names = some (.file content) ↔ u.root.at? names = some (.file content))

variable {t u : FileTree}

theorem DiffersInSources.symm (h : t.DiffersInSources u) : u.DiffersInSources t :=
  ⟨h.toSameLayout.symm, fun names content hunknown => (h.files names content hunknown).symm⟩

/-- A file of an unknown language is found in both trees, along the same names. -/
theorem DiffersInSources.exists_follow (h : t.DiffersInSources u) {names : List String}
    {name : String} (hup : name ≠ "..") (hunknown : Language.classify name = .unknown)
    {content : ByteArray} {above : List (String × Entries)}
    (hfollow : t.root.follow [] (names ++ [name]) = some (.file content, above)) :
    ∃ above', u.root.follow [] (names ++ [name]) = some (.file content, above') := by
  obtain ⟨inner, around, hdir⟩ : ∃ inner around,
      t.root.follow [] names = some (.directory inner, around) := by
    rw [Entries.follow_append _ _ _ (List.cons_ne_nil _ _), Option.bind_eq_some_iff] at hfollow
    obtain ⟨⟨e, around⟩, hfront, hlast⟩ := hfollow
    cases e with
    | directory inner => exact ⟨inner, around, hfront⟩
    | file content => cases hlast
  obtain ⟨inner', around', hdir', -⟩ := h.follow hdir
  have hplace : Path.settledFrom [] (names ++ [name]) = Path.settledFrom [] names ++ [name] := by
    rw [Path.settledFrom_append, Path.settledFrom_down hup]
    rfl
  have hfile := (Entries.StandsAt.root.follow hfollow).1
  rw [hplace, h.files _ content (by rw [classify_intercalate_concat, hunknown]),
    Entries.at?_append (Entries.StandsAt.root.follow hdir').1,
    ← Entries.map_follow (by simpa using hup.symm) inner' around', Option.map_eq_some_iff] at hfile
  obtain ⟨⟨e, above'⟩, hlast, rfl⟩ := hfile
  refine ⟨above', ?_⟩
  rw [Entries.follow_append _ _ _ (List.cons_ne_nil _ _), hdir']
  exact hlast

/-- So the texts that settings are looked for in are the same. -/
theorem DiffersInSources.triedTexts_eq (h : t.DiffersInSources u) (start : String) :
    t.triedTexts start = u.triedTexts start := by
  have hle : ∀ {t u : FileTree}, t.DiffersInSources u → ∀ dir text,
      t.readText? (configPath dir) = some text → u.readText? (configPath dir) = some text := by
    intro t u h dir text htext
    rw [readText?_configPath, Option.bind_eq_some_iff] at htext ⊢
    obtain ⟨⟨e, above⟩, hfollow, hread⟩ := htext
    cases e with
    | directory inner => cases hread
    | file content =>
        obtain ⟨above', hfollow'⟩ := h.exists_follow (by decide) (by decide) hfollow
        rw [h.fullNames] at hfollow'
        exact ⟨_, hfollow', hread⟩
  refine List.map_congr_left fun dir _ => Option.ext fun text => ?_
  exact ⟨hle h dir text, hle h.symm dir text⟩

theorem DiffersInSources.discoverConfig_eq (h : t.DiffersInSources u) (start : String) :
    t.discoverConfig start = u.discoverConfig start := by
  rw [discoverConfig_eq_texts, discoverConfig_eq_texts, h.triedTexts_eq]

/-- Ignore files that are sound around a path in one tree are so in the other. -/
theorem DiffersInSources.isSoundAround (h : t.DiffersInSources u) {respect : Bool} {path : String}
    (ht : t.IsSoundAround respect path) : u.IsSoundAround respect path := by
  refine ht.imp_right ?_
  intro ht entries above hu d hd place hplace content hcontent
  obtain ⟨entries', above', hdir⟩ := h.symm.locate? hu
  have hplaces := IgnoreLevel.placesAsked_subset respect hplace
  obtain ⟨front, hfront, hne, hat⟩ := (u.standsAt_of_locate? hu).exists_at?_of_mem hd
  rw [← h.fullNames path] at hfront hne
  obtain ⟨d', hd', hat'⟩ := (t.standsAt_of_locate? hdir).exists_mem_of_front hfront hne
  refine ht entries' above' hdir d' hd' place hplace content ?_
  -- the file is at the same place of both trees
  rw [← Entries.at?_append hat']
  refine (h.files _ content ?_).mpr ((Entries.at?_append hat place).trans hcontent)
  exact classify_of_isIgnoreFile hplaces (List.suffix_append front place)

end FileTree

end CodeSurvey
