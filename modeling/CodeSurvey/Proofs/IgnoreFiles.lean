import CodeSurvey.Proofs.IgnoreFaults
import CodeSurvey.Proofs.LastPlace

/-!
# What a walk takes from ignore files

Two trees with the same sources can differ in their ignore files. What a walk
then still has in common is what this module is about: it looks at the files in
a known language, at the directories, and at the rules of the ignore files that
it asks (`Entries.SameSources`). Trees that agree on these three, and on the faults
of the ignore files around a path, have the same files found below it
(`FileTree.walk_eq_of_sameSources`). An ignore file is in no
language, so it counts through its rules and its faults only.

The way there is one description of a walk that leaves no ignore file out:
`Entries.LetsThrough` follows the names of a single file and asks the levels on
the way, and `mem_filesAmong_iff` says that a walk finds the files that are let
through. Both trees are then compared name by name.

Which rules are asked depends on the configuration. Those of version control are
asked if they are respected; those of general ignore files are asked always, so
two trees that differ in their ignore files agree for certain only if the general
ones state the same rules, and have the same faults where those end a walk
(`collect_eq_of_general_rules`), and need not agree otherwise
(`collect_ne_of_general_rules`).
-/

namespace CodeSurvey

/-! ## The language of a file that is found -/

/-- The language is read off the last name. -/
theorem classify_intercalate_concat (front : List String) (name : String) :
    Language.classify ("/".intercalate (front ++ [name])) = Language.classify name := by
  induction front with
  | nil => rw [List.nil_append, String.intercalate_singleton]
  | cons first front ih =>
      obtain ⟨next, rest, hrest⟩ : ∃ next rest, front ++ [name] = next :: rest :=
        List.exists_cons_of_ne_nil (by simp)
      rw [← ih, List.cons_append, hrest, String.intercalate_cons_cons, Language.classify,
        Language.classify, Language.extension?, Language.extension?]
      have htexts : (first ++ "/" ++ "/".intercalate (next :: rest)).toList
          = first.toList ++ '/' :: ("/".intercalate (next :: rest)).toList := by
        rw [String.toList_append, String.toList_append, List.append_assoc]
        rfl
      rw [htexts, behindLast_append_cons _ (by rfl)]

theorem classify_intercalate_append (front : List String) {names : List String} (hne : names ≠ []) :
    Language.classify ("/".intercalate (front ++ names))
      = Language.classify ("/".intercalate names) := by
  obtain ⟨middle, last, rfl⟩ := (List.eq_nil_or_concat' names).resolve_left hne
  rw [← List.append_assoc, classify_intercalate_concat, classify_intercalate_concat]

/-- No ignore file is in a language that is known. -/
theorem classify_of_isIgnoreFile {names place : List String} (hplace : place ∈ IgnoreLevel.places)
    (hsuffix : place <:+ names) : Language.classify ("/".intercalate names) = .unknown := by
  have hlast : ∀ place ∈ IgnoreLevel.places, ∃ front name, place = front ++ [name]
      ∧ Language.classify name = .unknown := by
    simp only [IgnoreLevel.places, List.forall_mem_cons]
    exact ⟨⟨[], _, rfl, by decide⟩, ⟨[], _, rfl, by decide⟩,
      ⟨[".git", "info"], _, rfl, by decide⟩, by simp⟩
  obtain ⟨front, name, rfl, hname⟩ := hlast place hplace
  obtain ⟨above, rfl⟩ := hsuffix
  rw [← List.append_assoc, classify_intercalate_concat, hname]

/-! ## What a walk finds, ignore files included -/

namespace Entries

/-- Whether a walk that is in a directory comes to the file at some names below:
no name on the way is ignored, and no directory is skipped. -/
def LetsThrough (c : WalkerConfig) : List IgnoreLevel → Entries → List String → Prop
  | _, _, [] => False
  | levels, _, [name] => IgnoreLevel.ignores levels name false = false
  | levels, entries, name :: next :: names =>
    ∃ inner, entries.lookup name = some (.directory inner)
      ∧ IgnoreLevel.ignores levels name true = false ∧ c.skips name = false
      ∧ LetsThrough c
        (IgnoreLevel.ofDirectory c.respectGitignore inner :: levels.map (·.enter name)) inner
        (next :: names)

theorem IsTree.lookup_eq_some_iff {entries : Entries} (h : IsTree entries) {name : String}
    {e : Entry} : entries.lookup name = some e ↔ (name, e) ∈ entries := by
  constructor
  · intro hl
    obtain ⟨before, behind, rfl, -⟩ := List.lookup_eq_some_iff.mp hl
    simp
  · intro hmem
    obtain ⟨before, behind, rfl⟩ := List.append_of_mem hmem
    refine List.lookup_eq_some_iff.mpr ⟨before, behind, rfl, fun p hp => ?_⟩
    have hnodup := h.nodup
    rw [List.map_append, List.map_cons, List.nodup_append'] at hnodup
    refine bne_iff_ne.mpr fun heq => ?_
    exact hnodup.2.2 (List.mem_map.mpr ⟨p, hp, heq.symm⟩) List.mem_cons_self

variable {c : WalkerConfig}

theorem mem_filesAmong_iff_exists {levels : List IgnoreLevel} {above : List String}
    {entries : Entries} (htree : IsTree entries) {f : FoundFile} :
    f ∈ filesAmong c levels above entries
      ↔ ∃ name e, entries.lookup name = some e ∧ f ∈ e.files c levels above name := by
  have hall : ∀ entries : Entries, f ∈ filesAmong c levels above entries
      ↔ ∃ name e, (name, e) ∈ entries ∧ f ∈ e.files c levels above name := by
    intro entries
    induction entries with
    | nil => simp [filesAmong]
    | cons p rest ih =>
        obtain ⟨name, e⟩ := p
        rw [filesAmong, List.mem_append, ih]
        constructor
        · rintro (h | ⟨n, e', hmem, h⟩)
          · exact ⟨name, e, List.mem_cons_self, h⟩
          · exact ⟨n, e', List.mem_cons_of_mem _ hmem, h⟩
        · rintro ⟨n, e', hmem, h⟩
          rcases List.mem_cons.mp hmem with heq | hmem
          · obtain ⟨rfl, rfl⟩ := Prod.mk.inj heq
            exact .inl h
          · exact .inr ⟨n, e', hmem, h⟩
  simp only [hall, htree.lookup_eq_some_iff]

/-- A walk finds the files that are let through, and nothing else. -/
theorem mem_filesAmong_iff {levels : List IgnoreLevel} (above : List String) {entries : Entries}
    (htree : IsTree entries) {names : List String} {content : ByteArray} :
    ⟨above ++ names, content⟩ ∈ filesAmong c levels above entries
      ↔ entries.at? names = some (.file content) ∧ LetsThrough c levels entries names := by
  induction names generalizing levels above entries with
  | nil =>
      constructor
      · intro h
        obtain ⟨names, hnames, hr, -⟩ := reaches_of_mem_filesAmong c levels above entries _ h
        obtain rfl : names = [] := (List.append_cancel_left hnames).symm
        exact absurd rfl hr.ne_nil
      · rintro ⟨h, -⟩
        cases h
  | cons name names ih =>
      rw [mem_filesAmong_iff_exists htree]
      constructor
      · rintro ⟨n, e, hl, h⟩
        -- whatever entry the file is found in, its name comes first
        obtain ⟨front, hfront, hr, -⟩ := reaches_of_mem_files c levels above n e _ h
        obtain rfl : front = name :: names := (List.append_cancel_left hfront).symm
        cases e with
        | file found =>
            obtain ⟨heq, hcontent⟩ := reaches_file.mp hr
            obtain ⟨rfl, rfl⟩ := List.cons.inj heq
            rw [at?_singleton, hl, ← hcontent]
            rw [Entry.files] at h
            split at h
            · cases h
            · rename_i hpass
              exact ⟨rfl, by simpa [LetsThrough] using hpass⟩
        | directory inner =>
            rcases reaches_directory.mp hr with ⟨-, heq⟩ | ⟨rest, heq, hinner⟩
            · cases heq
            obtain ⟨rfl, rfl⟩ := List.cons.inj heq
            obtain ⟨next, rest, rfl⟩ := List.exists_cons_of_ne_nil hinner.ne_nil
            rw [Entry.files] at h
            split at h
            · cases h
            · rename_i hpass
              obtain ⟨hignored, hskipped⟩ :
                  IgnoreLevel.ignores levels name true = false ∧ c.skips name = false := by
                simpa using hpass
              have hbelow := htree.inner (htree.lookup_eq_some_iff.mp hl)
              rw [List.append_cons above name (next :: rest)] at h
              obtain ⟨hat, hthrough⟩ := (ih (above ++ [name]) hbelow).mp h
              exact ⟨(at?_cons_directory hl _).trans hat, inner, hl, hignored, hskipped, hthrough⟩
      · rintro ⟨hat, hthrough⟩
        cases names with
        | nil =>
            rw [at?_singleton] at hat
            refine ⟨name, _, hat, ?_⟩
            rw [Entry.files, show IgnoreLevel.ignores levels name false = false from hthrough]
            exact List.mem_singleton.mpr rfl
        | cons next rest =>
            obtain ⟨inner, hl, hignored, hskipped, hthrough⟩ := hthrough
            have hbelow := htree.inner (htree.lookup_eq_some_iff.mp hl)
            rw [at?_cons_directory hl] at hat
            refine ⟨name, _, hl, ?_⟩
            rw [Entry.files, hignored, hskipped, List.append_cons above name (next :: rest)]
            exact (ih (above ++ [name]) hbelow).mpr ⟨hat, hthrough⟩

/-! ## Trees with the same sources -/

/-- Two directory trees agree on what a walk looks at: the files in a known
language, the directories, and the ignore files of each directory as far as they
are asked. -/
structure SameSources (c : WalkerConfig) (entries entries' : Entries) : Prop where
  files : ∀ names content, Language.classify ("/".intercalate names) ≠ .unknown →
    (entries.at? names = some (.file content) ↔ entries'.at? names = some (.file content))
  directories : ∀ names, (∃ inner, entries.at? names = some (.directory inner))
    ↔ ∃ inner, entries'.at? names = some (.directory inner)
  levels : ∀ names inner inner', entries.at? names = some (.directory inner) →
    entries'.at? names = some (.directory inner') →
    IgnoreLevel.ofDirectory c.respectGitignore inner
      = IgnoreLevel.ofDirectory c.respectGitignore inner'

variable {entries entries' : Entries}

theorem SameSources.symm (h : SameSources c entries entries') : SameSources c entries' entries where
  files names content hknown := (h.files names content hknown).symm
  directories names := (h.directories names).symm
  levels names inner inner' hinner hinner' := (h.levels names inner' inner hinner' hinner).symm

/-- What is at a place agrees as well. -/
theorem SameSources.at? (h : SameSources c entries entries') {place : List String}
    {inner inner' : Entries} (hinner : entries.at? place = some (.directory inner))
    (hinner' : entries'.at? place = some (.directory inner')) : SameSources c inner inner' where
  files names content hknown := by
    cases names with
    | nil => simp [Entries.at?]
    | cons name names =>
        rw [← classify_intercalate_append place (List.cons_ne_nil name names)] at hknown
        have hfile := h.files _ content hknown
        rwa [at?_append hinner, at?_append hinner'] at hfile
  directories names := by
    have hdir := h.directories (place ++ names)
    rwa [at?_append hinner, at?_append hinner'] at hdir
  levels names _ _ hat hat' := by
    refine h.levels (place ++ names) _ _ ?_ ?_
    · rw [at?_append hinner, hat]
    · rw [at?_append hinner', hat']

theorem SameSources.letsThrough (h : SameSources c entries entries') {levels : List IgnoreLevel}
    {names : List String} (hthrough : LetsThrough c levels entries names) :
    LetsThrough c levels entries' names := by
  induction names generalizing levels entries entries' with
  | nil => exact hthrough
  | cons name names ih =>
      cases names with
      | nil => exact hthrough
      | cons next rest =>
          obtain ⟨inner, hl, hignored, hskipped, hbelow⟩ := hthrough
          have hat : entries.at? [name] = some (.directory inner) := by rw [at?_singleton, hl]
          obtain ⟨inner', hat'⟩ := (h.directories [name]).mp ⟨inner, hat⟩
          have hl' : entries'.lookup name = some (.directory inner') := by
            rw [← at?_singleton, hat']
          rw [h.levels [name] inner inner' hat hat'] at hbelow
          exact ⟨inner', hl', hignored, hskipped, ih (h.at? hat hat') hbelow⟩

theorem SameSources.mem_ranked (h : SameSources c entries entries') (ht : IsTree entries)
    (ht' : IsTree entries') {above above' : List (String × Entries)}
    (hlevels : levelsAround c entries above = levelsAround c entries' above') {f : FoundFile}
    (hf : f ∈ ranked c entries above) : f ∈ ranked c entries' above' := by
  obtain ⟨names, content⟩ := f
  rw [mem_ranked_iff] at hf ⊢
  obtain ⟨hmem, hknown⟩ := hf
  obtain ⟨hat, hthrough⟩ := (mem_filesAmong_iff [] ht).mp hmem
  refine ⟨(mem_filesAmong_iff [] ht').mpr ⟨?_, ?_⟩, hknown⟩
  · exact (h.files names content hknown).mp hat
  · exact hlevels ▸ h.letsThrough hthrough

theorem SameSources.foundFiles_eq (h : SameSources c entries entries') (ht : IsTree entries)
    (ht' : IsTree entries') {above above' : List (String × Entries)}
    (hlevels : levelsAround c entries above = levelsAround c entries' above') :
    foundFiles c entries above = foundFiles c entries' above' := by
  have hranked : ranked c entries above = ranked c entries' above' :=
    FoundFile.eq_of_pairwise_key (pairwise_ranked ht) (pairwise_ranked ht') fun f =>
      ⟨h.mem_ranked ht ht' hlevels, h.symm.mem_ranked ht' ht hlevels.symm⟩
  rw [foundFiles_eq_take_ranked, foundFiles_eq_take_ranked, hranked]

end Entries

/-! ## Walks below a path -/

namespace Entries

variable {c : WalkerConfig} {root root' entries entries' : Entries}

theorem IsTree.at? (h : IsTree root) {place : List String} {inner : Entries}
    (hat : root.at? place = some (.directory inner)) : IsTree inner := by
  induction place generalizing root with
  | nil =>
      obtain rfl : root = inner := by simpa [Entries.at?] using hat
      exact h
  | cons name place ih =>
      obtain ⟨next, hl, hnext⟩ := exists_lookup_of_at? hat
      exact ih (h.inner (h.lookup_eq_some_iff.mp hl)) hnext

/-- The last step of a way down. -/
theorem StandsAt.exists_outer {above : List (String × Entries)} {place : List String}
    {name : String} (h : StandsAt root entries above (place ++ [name])) :
    ∃ outer rest, above = (name, outer) :: rest ∧ StandsAt root outer rest place := by
  generalize hplace : place ++ [name] = full at h
  cases h with
  | root => simp at hplace
  | enter houter _ =>
      obtain ⟨rfl, hname⟩ := List.append_inj' hplace rfl
      obtain rfl := List.singleton_inj.mp hname
      exact ⟨_, _, rfl, houter⟩

theorem StandsAt.eq_nil {above : List (String × Entries)} (h : StandsAt root entries above []) :
    above = [] := by
  simpa using h.names

/-- Directories at one place have the same ignore files around them. -/
theorem SameSources.levelsAround_eq (h : SameSources c root root')
    {above above' : List (String × Entries)} {place : List String}
    (hs : StandsAt root entries above place) (hs' : StandsAt root' entries' above' place) :
    levelsAround c entries above = levelsAround c entries' above' := by
  have houter : ∀ path, levelsAround.outer c path above = levelsAround.outer c path above' := by
    induction hs generalizing entries' above' with
    | root =>
        obtain rfl := hs'.eq_nil
        exact fun _ => rfl
    | enter hs _ ih =>
        obtain ⟨outer', rest', rfl, houter'⟩ := hs'.exists_outer
        intro path
        rw [levelsAround.outer, levelsAround.outer, ih houter',
          h.levels _ _ _ hs.at? houter'.at?]
  rw [levelsAround, levelsAround, houter, h.levels _ _ _ hs.at? hs'.at?]

/-- The same is reported of the ignore files that are asked on the way to a place. -/
def SameFaultsAround (c : WalkerConfig) (root root' : Entries) (place : List String) : Prop :=
  ∀ front inner inner', front <+: place → front ≠ place →
    root.at? front = some (.directory inner) → root'.at? front = some (.directory inner') →
    ∀ file ∈ IgnoreLevel.placesAsked c.respectGitignore,
      (IgnoreLevel.fileAt file inner).reported = (IgnoreLevel.fileAt file inner').reported

theorem SameFaultsAround.of_concat {place : List String} {name : String}
    (h : SameFaultsAround c root root' (place ++ [name])) :
    SameFaultsAround c root root' place := by
  intro front inner inner' hfront _
  refine h front inner inner' (hfront.trans (List.prefix_append place [name])) ?_
  rintro rfl
  simpa using hfront.length_le

theorem SameFaultsAround.faultsAround_eq {above above' : List (String × Entries)}
    {place : List String} (h : SameFaultsAround c root root' place)
    (hs : StandsAt root entries above place) (hs' : StandsAt root' entries' above' place) :
    faultsAround c above = faultsAround c above' := by
  induction hs generalizing entries' above' with
  | root =>
      obtain rfl := hs'.eq_nil
      rfl
  | @enter outer _ _ place name houter _ ih =>
      obtain ⟨outer', rest', rfl, houter'⟩ := hs'.exists_outer
      have hown : ∀ names, IgnoreFault.ofDirectory c.respectGitignore names outer
          = IgnoreFault.ofDirectory c.respectGitignore names outer' := by
        intro names
        apply List.flatMap_congr
        intro file hfile
        rw [h place outer outer' (List.prefix_append place [name]) (by simp) houter.at? houter'.at?
          file hfile]
      rw [faultsAround, faultsAround, houter.names, houter'.names, hown,
        ih h.of_concat houter']

end Entries

namespace FileTree

variable {c : WalkerConfig} {t u : FileTree}

/-- A path that leads to a directory leads to the one at the same place of a tree
that agrees. -/
theorem exists_directory_of_sameSources (hhere : t.here = u.here)
    (h : Entries.SameSources c t.root u.root) {path : String} {entries : Entries}
    {above : List (String × Entries)} (ht : t.locate? path = some (.directory entries, above)) :
    ∃ entries' above', u.locate? path = some (.directory entries', above')
      ∧ Entries.StandsAt t.root entries above (Path.settled (t.fullNames path))
      ∧ Entries.StandsAt u.root entries' above' (Path.settled (t.fullNames path)) := by
  obtain ⟨hpath, hfollow⟩ := (locate?_eq_directory_iff t).mp ht
  have hnames : t.fullNames path = u.fullNames path := by rw [fullNames, fullNames, hhere]
  have hway : ∃ entries' above',
      u.root.follow [] (u.fullNames path) = some (.directory entries', above') :=
    Entries.StandsAt.root.exists_follow fun front hfront => by
      obtain ⟨next, around, hnext⟩ := Entries.exists_follow_prefix hfollow (hnames ▸ hfront)
      exact (h.directories _).mp ⟨next, (Entries.StandsAt.root.follow hnext).1⟩
  obtain ⟨entries', above', hfollow'⟩ := hway
  have hu : u.locate? path = some (.directory entries', above') :=
    (locate?_eq_directory_iff u).mpr ⟨hpath, hfollow'⟩
  exact ⟨entries', above', hu, t.standsAt_of_locate? ht, hnames ▸ u.standsAt_of_locate? hu⟩

/-- Trees that agree on what a walk looks at have the same files found. -/
theorem walk_eq_of_sameSources (hhere : t.here = u.here)
    (h : Entries.SameSources c t.root u.root) (ht : Entries.IsTree t.root)
    (hu : Entries.IsTree u.root) {path : String}
    (hfaults : Entries.SameFaultsAround c t.root u.root (Path.settled (t.fullNames path))) :
    t.walk c path = u.walk c path := by
  by_cases hdir : ∃ entries above, t.locate? path = some (.directory entries, above)
  · obtain ⟨entries, above, hlocate⟩ := hdir
    obtain ⟨entries', above', hlocate', hs, hs'⟩ :=
      exists_directory_of_sameSources hhere h hlocate
    have hbelow := h.at? hs.at? hs'.at?
    have hfound := hbelow.foundFiles_eq (ht.at? hs.at?) (hu.at? hs'.at?) (h.levelsAround_eq hs hs')
    rw [walk_of_directory hlocate, walk_of_directory hlocate', hfound,
      hfaults.faultsAround_eq hs hs']
  · have hnone : ∀ entries above, t.locate? path ≠ some (.directory entries, above) :=
      fun entries above hlocate => hdir ⟨entries, above, hlocate⟩
    have hnone' : ∀ entries above, u.locate? path ≠ some (.directory entries, above) := by
      intro entries above hlocate
      obtain ⟨entries', above', hlocate', -⟩ :=
        exists_directory_of_sameSources hhere.symm h.symm hlocate
      exact hnone _ _ hlocate'
    rw [walk_of_forall_ne hnone, walk_of_forall_ne hnone']

/-! ## Trees with other ignore files -/

/-- Two trees differ in ignore files only: they have the same directories, and the
same files at all other places. -/
structure DiffersInIgnoreFiles (t u : FileTree) : Prop where
  here : t.here = u.here
  directories : ∀ names, (∃ inner, t.root.at? names = some (.directory inner))
    ↔ ∃ inner, u.root.at? names = some (.directory inner)
  files : ∀ names content, (∀ place ∈ IgnoreLevel.places, ¬place <:+ names) →
    (t.root.at? names = some (.file content) ↔ u.root.at? names = some (.file content))

/-- The general ignore files of two trees state the same rules in each directory. -/
def SameGeneralRules (t u : FileTree) : Prop :=
  ∀ names inner inner', t.root.at? names = some (.directory inner) →
    u.root.at? names = some (.directory inner') →
    IgnoreLevel.rulesAt [".ignore"] inner = IgnoreLevel.rulesAt [".ignore"] inner'

/-- The general ignore files of two trees have the same faults in the directories
around the one at a path. -/
def SameGeneralFaults (path : String) (t u : FileTree) : Prop :=
  ∀ names inner inner', names <+: Path.settled (t.fullNames path) →
    names ≠ Path.settled (t.fullNames path) →
    t.root.at? names = some (.directory inner) → u.root.at? names = some (.directory inner') →
    (IgnoreLevel.fileAt [".ignore"] inner).reported
      = (IgnoreLevel.fileAt [".ignore"] inner').reported

theorem placesAsked_of_general (hc : c.respectGitignore = false) :
    IgnoreLevel.placesAsked c.respectGitignore = [[".ignore"]] := by
  rw [hc]
  rfl

/-- If the ignore files of version control are not respected, only the general
ones are asked. -/
theorem DiffersInIgnoreFiles.sameSources (h : t.DiffersInIgnoreFiles u)
    (hc : c.respectGitignore = false) (hrules : t.SameGeneralRules u) :
    Entries.SameSources c t.root u.root where
  files names content hknown := by
    refine h.files names content fun place hplace hsuffix => ?_
    exact hknown (classify_of_isIgnoreFile hplace hsuffix)
  directories := h.directories
  levels names inner inner' hat hat' := by
    rw [IgnoreLevel.ofDirectory, IgnoreLevel.ofDirectory, placesAsked_of_general hc,
      List.map_singleton, List.map_singleton, hrules names inner inner' hat hat']

theorem SameGeneralFaults.sameFaultsAround {path : String} (h : SameGeneralFaults path t u)
    (hc : c.respectGitignore = false) :
    Entries.SameFaultsAround c t.root u.root (Path.settled (t.fullNames path)) := by
  intro front inner inner' hfront hne hat hat'
  rw [placesAsked_of_general hc, List.forall_mem_singleton]
  exact h front inner inner' hfront hne hat hat'

/-- A walk that does not respect the ignore files of version control collects the
same files from trees that differ in ignore files, as long as the general ones
state the same rules, and have the same faults in the directories around the one
that is walked. -/
theorem collect_eq_of_general_rules {t u : FileTree} (ht : Entries.IsTree t.root)
    (hu : Entries.IsTree u.root) (h : t.DiffersInIgnoreFiles u) (hrules : t.SameGeneralRules u)
    (path : String) (hfaults : SameGeneralFaults path t u) (c : WalkerConfig)
    (hc : c.respectGitignore = false) (maxFileBytes : Nat) :
    t.collect c maxFileBytes path = u.collect c maxFileBytes path := by
  have hwalk : t.walk c path = u.walk c path :=
    walk_eq_of_sameSources h.here (h.sameSources hc hrules) ht hu (hfaults.sameFaultsAround hc)
  rw [collect, collect, hwalk]

end FileTree

namespace FileTree

/-- A directory with one source. -/
def sampleSources : Entries := [("a.js", .file "x".toUTF8)]

def bareSample : FileTree := ⟨sampleSources, []⟩

/-- The directory with a file beside the source that names it in a rule. -/
def sampleWith (name : String) : FileTree := ⟨(name, .file "a.js\n".toUTF8) :: sampleSources, []⟩

theorem isTree_sampleWith {name : String} (hsource : name ≠ "a.js")
    (hslash : '/' ∉ name.toList) : Entries.IsTree (sampleWith name).root := by
  have hreaches : ∀ names e, (sampleWith name).root.Reaches names e →
      (names = [name] ∨ names = ["a.js"]) ∧ ∃ content, e = .file content := by
    intro names e h
    rw [sampleWith, sampleSources, Entries.reaches_cons, Entries.reaches_file,
      Entries.reaches_file] at h
    rcases h with ⟨rfl, rfl⟩ | ⟨rfl, rfl⟩
    · exact ⟨.inl rfl, _, rfl⟩
    · exact ⟨.inr rfl, _, rfl⟩
  refine ⟨by simp [sampleWith, sampleSources, hsource], fun names inner h => ?_,
    fun names e h => ?_⟩
  · obtain ⟨-, content, heq⟩ := hreaches _ _ h
    cases heq
  · obtain ⟨rfl | rfl, -⟩ := hreaches _ _ h
    · simpa using hslash
    · simp

theorem isTree_bareSample : Entries.IsTree bareSample.root := by
  have htree : Entries.IsTree (sampleWith ".ignore").root :=
    isTree_sampleWith (by decide) (by decide)
  exact htree.mono (List.sublist_cons_self ..)

/-- Nothing but the source is below the sample. -/
theorem at?_sampleSources (name : String) (names : List String) :
    sampleSources.at? (name :: names)
      = if name = "a.js" ∧ names = [] then some (.file "x".toUTF8) else none := by
  by_cases hname : name = "a.js"
  · subst hname
    cases names <;> simp [sampleSources, Entries.at?]
  · simp [sampleSources, Entries.at?, List.lookup_cons, beq_false_of_ne hname, hname]

theorem at?_sampleWith (name n : String) (names : List String) :
    (sampleWith name).root.at? (n :: names)
      = if n = name then if names = [] then some (.file "a.js\n".toUTF8) else none
        else sampleSources.at? (n :: names) := by
  by_cases hname : n = name
  · subst hname
    cases names <;> simp [sampleWith, Entries.at?]
  · simp [sampleWith, Entries.at?, List.lookup_cons, beq_false_of_ne hname, hname]

/-- A rule of an ignore file is a difference in ignore files. -/
theorem differs_sampleWith {name : String} (hplace : [name] ∈ IgnoreLevel.places) :
    (sampleWith name).DiffersInIgnoreFiles bareSample where
  here := rfl
  directories names := by
    cases names with
    | nil => exact ⟨fun _ => ⟨_, rfl⟩, fun _ => ⟨_, rfl⟩⟩
    | cons n names =>
        rw [at?_sampleWith, bareSample, at?_sampleSources]
        constructor
        · rintro ⟨inner, h⟩
          split at h
          · split at h <;> cases h
          · split at h <;> cases h
        · rintro ⟨inner, h⟩
          split at h <;> cases h
  files names content hother := by
    cases names with
    | nil => exact ⟨fun h => (nomatch h), fun h => (nomatch h)⟩
    | cons n names =>
        have hsource : name ≠ "a.js" := by
          rintro rfl
          exact absurd hplace (by decide)
        rw [at?_sampleWith, bareSample]
        split
        · rename_i hname
          subst hname
          have hnames : names ≠ [] := by
            rintro rfl
            exact hother _ hplace (List.suffix_refl _)
          rw [at?_sampleSources, if_neg hnames, if_neg fun h => hnames h.2]
        · rfl

/-- The configuration of a walk that respects no ignore file of version control. -/
def anyFiles : WalkerConfig := { WalkerConfig.standard with respectGitignore := false }

theorem collect_eq_gitignore : (Entries.IsTree (sampleWith ".gitignore").root
      ∧ Entries.IsTree bareSample.root
      ∧ (sampleWith ".gitignore").DiffersInIgnoreFiles bareSample
      ∧ (sampleWith ".gitignore").SameGeneralRules bareSample
      ∧ SameGeneralFaults "." (sampleWith ".gitignore") bareSample
      ∧ anyFiles.respectGitignore = false)
    ∧ (sampleWith ".gitignore").collect anyFiles 0 "." = bareSample.collect anyFiles 0 "." := by
  have htree : Entries.IsTree (sampleWith ".gitignore").root :=
    isTree_sampleWith (by decide) (by decide)
  have hdiffers : (sampleWith ".gitignore").DiffersInIgnoreFiles bareSample :=
    differs_sampleWith (by decide)
  have hrules : (sampleWith ".gitignore").SameGeneralRules bareSample := by
    intro names inner inner' hat hat'
    cases names with
    | nil =>
        obtain rfl := Entry.directory.inj (Option.some.inj hat)
        obtain rfl := Entry.directory.inj (Option.some.inj hat')
        rfl
    | cons n names =>
        rw [bareSample, at?_sampleSources] at hat'
        split at hat' <;> cases hat'
  have hfaults : SameGeneralFaults "." (sampleWith ".gitignore") bareSample :=
    fun _ _ _ hprefix hne => absurd (List.prefix_nil.mp hprefix) hne
  exact ⟨⟨htree, isTree_bareSample, hdiffers, hrules, hfaults, rfl⟩,
    collect_eq_of_general_rules htree isTree_bareSample hdiffers hrules "." hfaults anyFiles rfl 0⟩

/-- The rules of a general ignore file are asked, whatever is respected: the
source is collected without the file, and not with it. -/
theorem collect_ne_of_general_rules : Entries.IsTree (sampleWith ".ignore").root
    ∧ Entries.IsTree bareSample.root
    ∧ (sampleWith ".ignore").DiffersInIgnoreFiles bareSample
    ∧ anyFiles.respectGitignore = false
    ∧ bareSample.collect anyFiles 0 "." = .ok [⟨"a.js", "x", 1⟩]
    ∧ (sampleWith ".ignore").collect anyFiles 0 "." = .ok [] :=
  ⟨isTree_sampleWith (by decide) (by decide), isTree_bareSample, differs_sampleWith (by decide),
    rfl, by cbv, by cbv⟩

/-- A line that states no pattern states no rule either, and still makes a difference
in a directory above the one that is walked. -/
example : (FileTree.mk [(".ignore", .file "\x7b".toUTF8), ("r", .directory sampleSources)]
    []).walk anyFiles "r" = .error (.badIgnoreFiles
      [⟨[".ignore"], 1, .badPattern "\x7b" .unclosedGroup⟩]) := by
  cbv

end FileTree

end CodeSurvey
