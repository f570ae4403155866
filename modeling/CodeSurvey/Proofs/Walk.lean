import CodeSurvey.Directory.Walk
import Mathlib

/-!
# Which files are collected

A walk prunes directories while it goes down, asks ignore files on the way,
and cuts the sorted list of what it found. `Entries.Reaches` says what is in a
directory tree without any of that: some names lead to an entry.
`Entries.IsEligible` is the condition on a single file, and `Entries.CollectsFirst`
says that the files that are collected are the first of the eligible ones, in
the order of `FoundFile.key`.

The two halves of the condition come from one induction each over a tree:
`reaches_of_mem_filesAmong` needs nothing, so it also serves walks with ignore
files, and `mem_filesAmong_of_reaches` needs that there are none
(`IgnoreLevel.IsSilent` is what is kept on the way down).
-/

namespace CodeSurvey

namespace Entries

/-! ## What a directory tree holds -/

/-- Names that lead from a directory down to an entry. -/
inductive Reaches : Entries → List String → Entry → Prop where
  | entry {entries : Entries} {name : String} {e : Entry} (h : (name, e) ∈ entries) :
    Reaches entries [name] e
  | within {entries inner : Entries} {name : String} {names : List String} {e : Entry}
    (h : (name, .directory inner) ∈ entries) (hinner : Reaches inner names e) :
    Reaches entries (name :: names) e

theorem Reaches.mono {entries entries' : Entries} {names : List String} {e : Entry}
    (h : Reaches entries names e) (hsub : entries ⊆ entries') : Reaches entries' names e := by
  cases h with
  | entry hmem => exact .entry (hsub hmem)
  | within hmem hinner => exact .within (hsub hmem) hinner

theorem Reaches.exists_mem {entries : Entries} {names : List String} {e : Entry}
    (h : Reaches entries names e) :
    ∃ name rest top, names = name :: rest ∧ (name, top) ∈ entries := by
  cases h with
  | entry hmem => exact ⟨_, _, _, rfl, hmem⟩
  | within hmem _ => exact ⟨_, _, _, rfl, hmem⟩

theorem Reaches.ne_nil {entries : Entries} {names : List String} {e : Entry}
    (h : Reaches entries names e) : names ≠ [] := by
  obtain ⟨name, rest, -, rfl, -⟩ := h.exists_mem
  exact List.cons_ne_nil name rest

theorem reaches_nil {names : List String} {e : Entry} : ¬Reaches [] names e := by
  intro h
  obtain ⟨_, _, _, -, hmem⟩ := h.exists_mem
  cases hmem

theorem reaches_cons {p : String × Entry} {rest : Entries} {names : List String} {e : Entry} :
    Reaches (p :: rest) names e ↔ Reaches [p] names e ∨ Reaches rest names e := by
  constructor
  · intro h
    cases h with
    | entry hmem =>
        rcases List.mem_cons.mp hmem with rfl | hmem
        · exact .inl (.entry (List.mem_singleton.mpr rfl))
        · exact .inr (.entry hmem)
    | within hmem hinner =>
        rcases List.mem_cons.mp hmem with rfl | hmem
        · exact .inl (.within (List.mem_singleton.mpr rfl) hinner)
        · exact .inr (.within hmem hinner)
  · rintro (h | h)
    · exact h.mono (by simp)
    · exact h.mono (by simp)

theorem reaches_file {name : String} {content : ByteArray} {names : List String} {e : Entry} :
    Reaches [(name, .file content)] names e ↔ names = [name] ∧ e = .file content := by
  constructor
  · intro h
    cases h with
    | entry hmem => simp_all
    | within hmem _ => simp at hmem
  · rintro ⟨rfl, rfl⟩
    exact .entry (List.mem_singleton.mpr rfl)

theorem reaches_directory {name : String} {inner : Entries} {names : List String} {e : Entry} :
    Reaches [(name, .directory inner)] names e
      ↔ (names = [name] ∧ e = .directory inner)
        ∨ ∃ rest, names = name :: rest ∧ Reaches inner rest e := by
  constructor
  · intro h
    cases h with
    | entry hmem => simp_all
    | within hmem hinner =>
        obtain ⟨rfl, heq⟩ := Prod.mk.inj (List.mem_singleton.mp hmem)
        cases heq
        exact .inr ⟨_, rfl, hinner⟩
  · rintro (⟨rfl, rfl⟩ | ⟨rest, rfl, hinner⟩)
    · exact .entry (List.mem_singleton.mpr rfl)
    · exact .within (List.mem_singleton.mpr rfl) hinner

/-- What every directory tree of a machine is: no directory has two entries of
one name, and no name has a slash. -/
structure IsTree (entries : Entries) : Prop where
  nodup : (entries.map (·.1)).Nodup
  nodup_within : ∀ names inner, Reaches entries names (.directory inner) → (inner.map (·.1)).Nodup
  no_slash : ∀ names e, Reaches entries names e → ∀ name ∈ names, '/' ∉ name.toList

theorem IsTree.inner {entries inner : Entries} {name : String} (h : IsTree entries)
    (hmem : (name, .directory inner) ∈ entries) : IsTree inner where
  nodup := h.nodup_within _ _ (.entry hmem)
  nodup_within := fun _ _ hr => h.nodup_within _ _ (.within hmem hr)
  no_slash := fun _ _ hr n hn => h.no_slash _ _ (.within hmem hr) n (List.mem_cons_of_mem _ hn)

theorem IsTree.mono {entries entries' : Entries} (h : IsTree entries')
    (hsub : entries.Sublist entries') : IsTree entries where
  nodup := h.nodup.sublist (hsub.map _)
  nodup_within := fun _ _ hr => h.nodup_within _ _ (hr.mono hsub.subset)
  no_slash := fun _ _ hr => h.no_slash _ _ (hr.mono hsub.subset)

end Entries

/-! ## Ignore files -/

namespace IgnoreLevel

/-- The places below a directory where a file with rules may be. -/
def places : List (List String) := [[".ignore"], [".gitignore"], [".git", "info", "exclude"]]

/-- No rules are stated. -/
def IsSilent (l : IgnoreLevel) : Prop := ∀ rules ∈ l.kinds, rules = []

theorem IsSilent.enter {l : IgnoreLevel} (h : l.IsSilent) (name : String) :
    (l.enter name).IsSilent := h

theorem ignores_of_silent {levels : List IgnoreLevel} (h : ∀ l ∈ levels, l.IsSilent)
    (name : String) (isDirectory : Bool) : ignores levels name isDirectory = false := by
  have hrules : ∀ l ∈ levels, ∀ k : Nat, l.kinds[k]?.getD [] = [] := by
    intro l hl k
    cases hk : l.kinds[k]? with
    | none => rfl
    | some rules => exact h l hl rules (List.mem_of_getElem? hk)
  have hnone : ∀ k ∈ List.range ((levels.map (·.kinds.length)).foldl max 0),
      (levels.filterMap fun l => IgnoreRules.verdict? isDirectory
        (pathBytes (l.below ++ [name])) (l.kinds[k]?.getD [])) = [] := by
    intro k _
    refine List.filterMap_eq_nil_iff.mpr fun l hl => ?_
    rw [hrules l hl k]
    rfl
  simp only [ignores, List.flatMap_eq_nil_iff.mpr hnone]
  rfl

theorem reaches_of_follow {entries : Entries} {above above' : List (String × Entries)}
    {names : List String} {content : ByteArray} (hup : ".." ∉ names)
    (h : entries.follow above names = some (.file content, above')) :
    entries.Reaches names (.file content) := by
  induction names generalizing entries above with
  | nil => cases h
  | cons name names ih =>
      obtain ⟨hname, hup⟩ : ".." ≠ name ∧ ".." ∉ names := by simpa using hup
      rw [Entries.follow] at h
      · cases hl : entries.lookup name with
        | none => simp [hl] at h
        | some e =>
            obtain ⟨l₁, l₂, rfl, -⟩ := List.lookup_eq_some_iff.mp hl
            cases e with
            | directory inner =>
                simp only [hl] at h
                exact .within (by simp) (ih hup h)
            | file found =>
                cases names with
                | nil =>
                    obtain ⟨rfl, -⟩ : found = content ∧ _ := by simpa [hl] using h
                    exact .entry (by simp)
                | cons n ns => simp [hl] at h
      · exact fun heq => hname heq.symm

theorem up_notMem_places : ∀ place ∈ places, ".." ∉ place := by decide

/-- No file at the top of a directory states rules. -/
def NoneAt (entries : Entries) : Prop :=
  ∀ place ∈ places, ∀ content, ¬entries.Reaches place (.file content)

theorem fileAt_eq_missing {entries : Entries} {place : List String} (hup : ".." ∉ place)
    (h : ∀ content, ¬entries.Reaches place (.file content)) : fileAt place entries = .missing := by
  unfold fileAt
  split
  · rename_i content above hfollow
    exact absurd (reaches_of_follow hup hfollow) (h content)
  · rfl

theorem placesAsked_subset (respect : Bool) : placesAsked respect ⊆ places := by
  cases respect <;> simp [placesAsked, places]

theorem silent_ofDirectory {entries : Entries} (h : NoneAt entries) (respect : Bool) :
    (ofDirectory respect entries).IsSilent := by
  intro rules hrules
  obtain ⟨place, hasked, rfl⟩ := List.mem_map.mp hrules
  have hplace := placesAsked_subset respect hasked
  rw [rulesAt, fileAt_eq_missing (up_notMem_places place hplace) (h place hplace)]
  rfl

end IgnoreLevel

namespace Entries

/-- No file in a tree, at any depth, states rules. -/
def NoIgnoreFiles (entries : Entries) : Prop :=
  ∀ names content, Reaches entries names (.file content) →
    ∀ place ∈ IgnoreLevel.places, ¬place <:+ names

theorem NoIgnoreFiles.noneAt {entries : Entries} (h : NoIgnoreFiles entries) :
    IgnoreLevel.NoneAt entries :=
  fun place hplace content hr => h place content hr place hplace (List.suffix_refl _)

theorem NoIgnoreFiles.inner {entries inner : Entries} {name : String} (h : NoIgnoreFiles entries)
    (hmem : (name, .directory inner) ∈ entries) : NoIgnoreFiles inner :=
  fun names content hr place hplace hsuffix =>
    h (name :: names) content (.within hmem hr) place hplace
      (hsuffix.trans (List.suffix_cons name names))

theorem NoIgnoreFiles.tail {p : String × Entry} {rest : Entries} (h : NoIgnoreFiles (p :: rest)) :
    NoIgnoreFiles rest :=
  fun names content hr => h names content (hr.mono (List.subset_cons_self ..))

end Entries

/-! ## What a walk finds -/

section Walk

open Entries

variable (c : WalkerConfig)

mutual

/-- A walk finds only files of the tree, and enters no directory that is skipped. -/
theorem reaches_of_mem_files : (levels : List IgnoreLevel) → (above : List String) →
    (name : String) → (e : Entry) → (f : FoundFile) → f ∈ e.files c levels above name →
    ∃ names, f.names = above ++ names ∧ Reaches [(name, e)] names (.file f.content)
      ∧ ∀ dir ∈ names.dropLast, c.skips dir = false
  | levels, above, name, .file content, f, h => by
      rw [Entry.files] at h
      split at h
      · cases h
      · obtain rfl := List.mem_singleton.mp h
        exact ⟨[name], rfl, reaches_file.mpr ⟨rfl, rfl⟩, by simp⟩
  | levels, above, name, .directory entries, f, h => by
      rw [Entry.files] at h
      split at h
      · cases h
      · rename_i hpass
        obtain ⟨rest, hnames, hr, hskips⟩ := reaches_of_mem_filesAmong _ _ entries f h
        obtain ⟨-, hname⟩ : _ ∧ c.skips name = false := by simpa using hpass
        refine ⟨name :: rest, by simp [hnames], reaches_directory.mpr (.inr ⟨rest, rfl, hr⟩), ?_⟩
        rw [List.dropLast_cons_of_ne_nil hr.ne_nil]
        exact List.forall_mem_cons.mpr ⟨hname, hskips⟩

theorem reaches_of_mem_filesAmong : (levels : List IgnoreLevel) → (above : List String) →
    (entries : List (String × Entry)) → (f : FoundFile) → f ∈ filesAmong c levels above entries →
    ∃ names, f.names = above ++ names ∧ Reaches entries names (.file f.content)
      ∧ ∀ dir ∈ names.dropLast, c.skips dir = false
  | _, _, [], _, h => by cases h
  | levels, above, (name, e) :: rest, f, h => by
      rw [filesAmong, List.mem_append] at h
      rcases h with h | h
      · obtain ⟨names, hnames, hr, hskips⟩ := reaches_of_mem_files levels above name e f h
        exact ⟨names, hnames, reaches_cons.mpr (.inl hr), hskips⟩
      · obtain ⟨names, hnames, hr, hskips⟩ := reaches_of_mem_filesAmong levels above rest f h
        exact ⟨names, hnames, reaches_cons.mpr (.inr hr), hskips⟩

end

mutual

/-- Without ignore files a walk finds every file below directories that are not
skipped. -/
theorem mem_files_of_reaches : (levels : List IgnoreLevel) → (above : List String) →
    (name : String) → (e : Entry) → (∀ l ∈ levels, l.IsSilent) → NoIgnoreFiles [(name, e)] →
    (names : List String) → (content : ByteArray) → Reaches [(name, e)] names (.file content) →
    (∀ dir ∈ names.dropLast, c.skips dir = false) →
    ⟨above ++ names, content⟩ ∈ e.files c levels above name
  | levels, above, name, .file found, hsilent, _, names, content, hr, _ => by
      obtain ⟨rfl, heq⟩ := reaches_file.mp hr
      obtain rfl : content = found := by injection heq
      rw [Entry.files, IgnoreLevel.ignores_of_silent hsilent]
      exact List.mem_singleton.mpr rfl
  | levels, above, name, .directory entries, hsilent, hnone, names, content, hr, hskips => by
      rcases reaches_directory.mp hr with ⟨-, heq⟩ | ⟨rest, rfl, hinner⟩
      · cases heq
      rw [List.dropLast_cons_of_ne_nil hinner.ne_nil, List.forall_mem_cons] at hskips
      have hbelow := hnone.inner (List.mem_singleton.mpr rfl)
      have hlevels : ∀ l ∈ IgnoreLevel.ofDirectory c.respectGitignore entries
          :: levels.map (·.enter name), l.IsSilent := by
        refine List.forall_mem_cons.mpr ⟨IgnoreLevel.silent_ofDirectory hbelow.noneAt _, ?_⟩
        intro l hl
        obtain ⟨l', hl', rfl⟩ := List.mem_map.mp hl
        exact (hsilent l' hl').enter name
      rw [Entry.files, IgnoreLevel.ignores_of_silent hsilent, hskips.1]
      have hfound := mem_filesAmong_of_reaches _ (above ++ [name]) entries hlevels hbelow rest
        content hinner hskips.2
      simpa using hfound

theorem mem_filesAmong_of_reaches : (levels : List IgnoreLevel) → (above : List String) →
    (entries : List (String × Entry)) → (∀ l ∈ levels, l.IsSilent) → NoIgnoreFiles entries →
    (names : List String) → (content : ByteArray) → Reaches entries names (.file content) →
    (∀ dir ∈ names.dropLast, c.skips dir = false) →
    ⟨above ++ names, content⟩ ∈ filesAmong c levels above entries
  | _, _, [], _, _, _, _, hr, _ => absurd hr reaches_nil
  | levels, above, (name, e) :: rest, hsilent, hnone, names, content, hr, hskips => by
      rw [filesAmong, List.mem_append]
      rcases reaches_cons.mp hr with hr | hr
      · have hone : NoIgnoreFiles [(name, e)] :=
          fun names content h => hnone names content (h.mono (by simp))
        exact .inl (mem_files_of_reaches levels above name e hsilent hone names content hr hskips)
      · exact .inr
          (mem_filesAmong_of_reaches levels above rest hsilent hnone.tail names content hr hskips)

end

mutual

/-- No two files that are found have the same names. -/
theorem nodup_files : (levels : List IgnoreLevel) → (above : List String) → (name : String) →
    (e : Entry) → IsTree [(name, e)] → ((e.files c levels above name).map (·.names)).Nodup
  | levels, above, name, .file content, _ => by
      rw [Entry.files]
      split <;> simp
  | levels, above, name, .directory entries, htree => by
      rw [Entry.files]
      split
      · exact List.nodup_nil
      · exact nodup_filesAmong _ _ entries (htree.inner (List.mem_singleton.mpr rfl))

theorem nodup_filesAmong : (levels : List IgnoreLevel) → (above : List String) →
    (entries : List (String × Entry)) → IsTree entries →
    ((filesAmong c levels above entries).map (·.names)).Nodup
  | _, _, [], _ => List.nodup_nil
  | levels, above, (name, e) :: rest, htree => by
      rw [filesAmong, List.map_append, List.nodup_append']
      refine ⟨nodup_files levels above name e (htree.mono (by simp)),
        nodup_filesAmong levels above rest (htree.mono (by simp)), ?_⟩
      -- the names of both begin with that of their entry, and these differ
      intro names hhead htail
      obtain ⟨f, hf, rfl⟩ := List.mem_map.mp hhead
      obtain ⟨g, hg, heq⟩ := List.mem_map.mp htail
      obtain ⟨ns, hns, hr, -⟩ := reaches_of_mem_files c levels above name e f hf
      obtain ⟨ns', hns', hr', -⟩ := reaches_of_mem_filesAmong c levels above rest g hg
      obtain rfl : ns' = ns := List.append_cancel_left (hns'.symm.trans (heq.trans hns))
      obtain ⟨n, _, _, hcons, hmem⟩ := hr.exists_mem
      obtain ⟨n', _, e', hcons', hmem'⟩ := hr'.exists_mem
      obtain ⟨rfl, -⟩ := List.cons.inj (hcons.symm.trans hcons')
      obtain ⟨rfl, -⟩ := Prod.mk.inj (List.mem_singleton.mp hmem)
      exact (List.nodup_cons.mp htree.nodup).1 (List.mem_map.mpr ⟨_, hmem', rfl⟩)

end

end Walk

/-! ## The order of files -/

namespace FoundFile

/-- What files are sorted by: first the rank, then the names from the root on. -/
def key (f : FoundFile) : ℕ ×ₗ List String := toLex (f.priority, f.names)

/-- What the ranks stand for. Of what can be analysed comes first what is below
one of the application directories, at the top or in a top directory `src`. -/
theorem priority_eq (f : FoundFile) : f.priority =
    if f.language.isAnalyzable = false then 2
    else if ∃ top ∈ applicationDirs, [top] <+: f.names ∨ ["src", top] <+: f.names then 0
    else 1 := by
  obtain ⟨names, content⟩ := f
  by_cases hanalyzable : (FoundFile.mk names content).language.isAnalyzable = true
  · have hsrc : "src" ∉ applicationDirs := by decide
    have hempty : "" ∉ applicationDirs := by decide
    match names with
    | [] => simp [priority, hanalyzable, hempty]
    | [name] =>
        by_cases hname : name = "src"
        · subst hname
          simp [priority, hanalyzable, hsrc, hempty, List.cons_prefix_cons]
        · simp [priority, hanalyzable, hname, Ne.symm hname, List.cons_prefix_cons]
    | name :: next :: rest =>
        by_cases hname : name = "src"
        · subst hname
          have hnext : (∃ top ∈ applicationDirs, top = "src" ∨ top = next)
              ↔ next ∈ applicationDirs :=
            ⟨fun ⟨top, hmem, htop⟩ => htop.resolve_left (fun h => hsrc (h ▸ hmem)) ▸ hmem,
              fun hmem => ⟨next, hmem, .inr rfl⟩⟩
          simp [priority, hanalyzable, List.cons_prefix_cons, hnext]
        · simp [priority, hanalyzable, hname, Ne.symm hname, List.cons_prefix_cons]
  · simp [priority, hanalyzable]

theorem namesLess_iff : (as bs : List String) → (namesLess as bs = true ↔ as < bs)
  | [], [] => by simp [namesLess]
  | [], _ :: _ => by simp [namesLess]
  | _ :: _, [] => by simp [namesLess]
  | a :: as, b :: bs => by
      rw [List.cons_lt_cons_iff, ← namesLess_iff as bs, String.lt_iff_toList_lt]
      simp [namesLess, textLess]

theorem comesBefore_iff (f g : FoundFile) : f.comesBefore g = true ↔ f.key < g.key := by
  simp [comesBefore, key, Prod.Lex.toLex_lt_toLex, namesLess_iff]

theorem not_comesBefore_iff (f g : FoundFile) : (!g.comesBefore f) = true ↔ f.key ≤ g.key := by
  rw [Bool.not_eq_true', ← Bool.not_eq_true, comesBefore_iff, not_lt]

/-- A key depends on the names alone, and determines them. -/
theorem key_eq_iff {f g : FoundFile} : f.key = g.key ↔ f.names = g.names := by
  obtain ⟨names, content⟩ := f
  obtain ⟨names', content'⟩ := g
  constructor
  · intro h
    exact congrArg (fun k => (ofLex k).2) h
  · rintro rfl
    rfl

/-- Files with keys that go up are listed in one way only. -/
theorem eq_of_pairwise_key {fs gs : List FoundFile} (hf : fs.Pairwise fun a b => a.key < b.key)
    (hg : gs.Pairwise fun a b => a.key < b.key) (h : ∀ f, f ∈ fs ↔ f ∈ gs) : fs = gs := by
  have : Std.Irrefl fun a b : FoundFile => a.key < b.key := ⟨fun a => lt_irrefl a.key⟩
  have : Std.Antisymm fun a b : FoundFile => a.key < b.key :=
    ⟨fun a b hab hba => absurd (hab.trans hba) (lt_irrefl a.key)⟩
  exact hf.eq_of_mem_iff hg h

theorem priority_le_of_key_lt {f g : FoundFile} (h : f.key < g.key) : f.priority ≤ g.priority := by
  rcases Prod.Lex.toLex_lt_toLex.mp h with hlt | ⟨heq, -⟩
  · exact Nat.le_of_lt hlt
  · exact Nat.le_of_eq heq

/-- Different names make different paths, because no name has a slash. -/
theorem path_inj {f g : FoundFile} (hf : f.names ≠ []) (hg : g.names ≠ [])
    (hfs : ∀ name ∈ f.names, '/' ∉ name.toList) (hgs : ∀ name ∈ g.names, '/' ∉ name.toList)
    (h : f.path = g.path) : f.names = g.names := by
  have hsplit : ∀ names : List String, names ≠ [] → (∀ name ∈ names, '/' ∉ name.toList) →
      (("/".intercalate names).toList.splitOn '/') = names.map String.toList := by
    intro names hne hno
    rw [String.toList_intercalate]
    refine List.splitOn_intercalate '/' (fun l hl => ?_) (by simpa using hne)
    obtain ⟨name, hname, rfl⟩ := List.mem_map.mp hl
    exact hno name hname
  have hchars : f.names.map String.toList = g.names.map String.toList := by
    rw [← hsplit f.names hf hfs, ← hsplit g.names hg hgs]
    exact congrArg (fun p : String => p.toList.splitOn '/') h
  exact List.map_injective_iff.mpr (fun _ _ => String.toList_inj.mp) hchars

end FoundFile

namespace Entries

/-- A file that is worth a look: it is in the tree, in which all files are regular, its
language is known, and no directory on the way to it is hidden or to be skipped. -/
structure IsEligible (c : WalkerConfig) (entries : Entries) (f : FoundFile) : Prop where
  reaches : Reaches entries f.names (.file f.content)
  language : f.language ≠ .unknown
  not_hidden : ∀ dir ∈ f.names.dropLast, dir.toList.head? ≠ some '.'
  not_skipped : ∀ dir ∈ f.names.dropLast, dir ∉ c.skipDirs

/-- All files that a walk finds, in the order of their keys. -/
def ranked (c : WalkerConfig) (entries : Entries) (above : List (String × Entries)) :
    List FoundFile :=
  ((filesAmong c (levelsAround c entries above) [] entries).filter fun f =>
    f.language ≠ .unknown).mergeSort fun a b => !FoundFile.comesBefore b a

theorem foundFiles_eq_take_ranked (c : WalkerConfig) (entries : Entries)
    (above : List (String × Entries)) :
    foundFiles c entries above = (ranked c entries above).take c.maxFiles := rfl

variable {c : WalkerConfig} {entries : Entries} {above : List (String × Entries)}

theorem mem_ranked_iff {f : FoundFile} : f ∈ ranked c entries above
    ↔ f ∈ filesAmong c (levelsAround c entries above) [] entries ∧ f.language ≠ .unknown := by
  rw [ranked, (List.mergeSort_perm ..).mem_iff, List.mem_filter, decide_eq_true_eq]

/-- Whatever ignore files say, what is collected is in the tree. -/
theorem reaches_of_mem_foundFiles {f : FoundFile} (h : f ∈ foundFiles c entries above) :
    Reaches entries f.names (.file f.content) := by
  rw [foundFiles_eq_take_ranked] at h
  obtain ⟨names, hnames, hr, -⟩ :=
    reaches_of_mem_filesAmong c _ _ entries f (mem_ranked_iff.mp (List.mem_of_mem_take h)).1
  obtain rfl : f.names = names := hnames
  exact hr

theorem skips_eq_false_iff (name : String) :
    c.skips name = false ↔ name.toList.head? ≠ some '.' ∧ name ∉ c.skipDirs := by
  simp [WalkerConfig.skips]

theorem silent_levelsAround (hnone : NoIgnoreFiles entries)
    (habove : ∀ p ∈ above, IgnoreLevel.NoneAt p.2) :
    ∀ l ∈ levelsAround c entries above, l.IsSilent := by
  have houter : ∀ (path : List String) (above : List (String × Entries)),
      (∀ p ∈ above, IgnoreLevel.NoneAt p.2) →
        ∀ l ∈ levelsAround.outer c path above, l.IsSilent := by
    intro path above habove
    induction above generalizing path with
    | nil => simp [levelsAround.outer]
    | cons p rest ih =>
        obtain ⟨hp, hrest⟩ := List.forall_mem_cons.mp habove
        exact List.forall_mem_cons.mpr ⟨IgnoreLevel.silent_ofDirectory hp _, ih _ hrest⟩
  exact List.forall_mem_cons.mpr
    ⟨IgnoreLevel.silent_ofDirectory hnone.noneAt _, houter [] above habove⟩

theorem mem_ranked_iff_isEligible (hnone : NoIgnoreFiles entries)
    (habove : ∀ p ∈ above, IgnoreLevel.NoneAt p.2) (f : FoundFile) :
    f ∈ ranked c entries above ↔ IsEligible c entries f := by
  rw [mem_ranked_iff]
  constructor
  · rintro ⟨hmem, hlanguage⟩
    obtain ⟨names, hnames, hr, hskips⟩ := reaches_of_mem_filesAmong c _ _ entries f hmem
    obtain rfl : f.names = names := hnames
    exact ⟨hr, hlanguage, fun dir hdir => ((skips_eq_false_iff dir).mp (hskips dir hdir)).1,
      fun dir hdir => ((skips_eq_false_iff dir).mp (hskips dir hdir)).2⟩
  · intro h
    refine ⟨?_, h.language⟩
    exact mem_filesAmong_of_reaches c _ [] entries (silent_levelsAround hnone habove) hnone f.names
      f.content h.reaches
      fun dir hdir => (skips_eq_false_iff dir).mpr ⟨h.not_hidden dir hdir, h.not_skipped dir hdir⟩

/-- The keys go up strictly, because no two files have the same names. -/
theorem pairwise_ranked (htree : IsTree entries) :
    (ranked c entries above).Pairwise fun f g => f.key < g.key := by
  have hnodup : ((ranked c entries above).map (·.names)).Nodup := by
    have hperm := (List.mergeSort_perm
      ((filesAmong c (levelsAround c entries above) [] entries).filter fun f =>
        f.language ≠ .unknown)
      fun a b => !FoundFile.comesBefore b a).map (·.names)
    refine hperm.nodup_iff.mpr ?_
    exact (nodup_filesAmong c _ [] entries htree).sublist (List.filter_sublist.map _)
  have hle : (ranked c entries above).Pairwise fun f g => f.key ≤ g.key := by
    have hsorted := @List.pairwise_mergeSort _ (fun a b => !FoundFile.comesBefore b a)
      (fun f g h hfg hgh => by
        rw [FoundFile.not_comesBefore_iff] at *
        exact hfg.trans hgh)
      (fun f g => by
        rw [Bool.or_eq_true, FoundFile.not_comesBefore_iff, FoundFile.not_comesBefore_iff]
        exact le_total f.key g.key)
      ((filesAmong c (levelsAround c entries above) [] entries).filter fun f =>
        f.language ≠ .unknown)
    exact hsorted.imp fun h => (FoundFile.not_comesBefore_iff ..).mp h
  have hne : (ranked c entries above).Pairwise fun f g => f.names ≠ g.names :=
    List.pairwise_map.mp hnodup
  exact (hle.and hne).imp fun h => lt_of_le_of_ne h.1 fun heq => h.2 (FoundFile.key_eq_iff.mp heq)

/-- How many files are asked for plays no part in which are eligible. -/
theorem ranked_maxFiles (htree : IsTree entries) (hnone : NoIgnoreFiles entries)
    (habove : ∀ p ∈ above, IgnoreLevel.NoneAt p.2) (n : Nat) :
    ranked { c with maxFiles := n } entries above = ranked c entries above := by
  refine FoundFile.eq_of_pairwise_key (pairwise_ranked htree) (pairwise_ranked htree) fun f => ?_
  rw [mem_ranked_iff_isEligible hnone habove, mem_ranked_iff_isEligible hnone habove]
  exact ⟨fun h => ⟨h.1, h.2, h.3, h.4⟩, fun h => ⟨h.1, h.2, h.3, h.4⟩⟩

/-- A walk collects the first of the eligible files, as many as are asked for. -/
structure CollectsFirst (c : WalkerConfig) (entries : Entries) (above : List (String × Entries)) :
    Prop where
  first : ∃ files : List FoundFile, (∀ f, f ∈ files ↔ IsEligible c entries f)
    ∧ files.Pairwise (fun f g => f.key < g.key)
    ∧ foundFiles c entries above = files.take c.maxFiles
  nodup_paths : ((foundFiles c entries above).map (·.path)).Nodup
  /-- Asking for more only appends files. -/
  prefix_of_le : ∀ n, c.maxFiles ≤ n →
    foundFiles c entries above <+: foundFiles { c with maxFiles := n } entries above
  /-- What is left out comes behind all that is kept. -/
  le_of_notMem : ∀ f g, IsEligible c entries f → f ∉ foundFiles c entries above →
    g ∈ foundFiles c entries above → g.key < f.key ∧ g.priority ≤ f.priority

/-- In a tree without ignore files, in it or around it, the files that are
collected are the first of the eligible ones in the order of their keys. -/
theorem foundFiles_collectsFirst (c : WalkerConfig) (entries : Entries)
    (above : List (String × Entries)) (htree : IsTree entries) (hnone : NoIgnoreFiles entries)
    (habove : ∀ p ∈ above, IgnoreLevel.NoneAt p.2) : CollectsFirst c entries above := by
  have hmem := mem_ranked_iff_isEligible (c := c) hnone habove
  have hpairwise : (ranked c entries above).Pairwise _ := pairwise_ranked htree
  have hfound : ∀ n, foundFiles { c with maxFiles := n } entries above
      = (ranked c entries above).take n := fun n => by
    rw [foundFiles_eq_take_ranked, ranked_maxFiles htree hnone habove]
  refine ⟨⟨ranked c entries above, hmem, hpairwise, hfound c.maxFiles⟩, ?_, fun n hn => ?_,
    fun f g hf hout hin => ?_⟩
  · have hpaths : (ranked c entries above).Pairwise fun f g => f.path ≠ g.path := by
      refine List.Pairwise.imp_of_mem (fun {f g} hf hg hlt heq => ?_) hpairwise
      have hrf := ((hmem f).mp hf).reaches
      have hrg := ((hmem g).mp hg).reaches
      have hnames := FoundFile.path_inj hrf.ne_nil hrg.ne_nil (htree.no_slash _ _ hrf)
        (htree.no_slash _ _ hrg) heq
      rw [FoundFile.key_eq_iff.mpr hnames] at hlt
      exact lt_irrefl _ hlt
    rw [hfound c.maxFiles]
    exact List.pairwise_map.mpr (hpaths.sublist (List.take_sublist ..))
  · rw [hfound c.maxFiles, hfound n]
    exact List.take_prefix_take_left hn
  · rw [hfound c.maxFiles] at hout hin
    have hsplit := List.take_append_drop c.maxFiles (ranked c entries above)
    have hdropped : f ∈ (ranked c entries above).drop c.maxFiles := by
      have hf' := (hmem f).mpr hf
      rw [← hsplit, List.mem_append] at hf'
      exact hf'.resolve_left hout
    rw [← hsplit] at hpairwise
    have hlt := (List.pairwise_append.mp hpairwise).2.2 g hin f hdropped
    exact ⟨hlt, FoundFile.priority_le_of_key_lt hlt⟩

/-- A tree with a hidden directory, and application code beside other code. -/
def sampleTree : Entries := [
  ("main.py", .file .empty),
  ("scripts", .directory [("seed.js", .file .empty)]),
  ("src", .directory [("app", .directory [("page.tsx", .file .empty)])]),
  (".next", .directory [("chunk.js", .file .empty)])]

/-- The places of the sample, each with its entry. -/
def samplePlaces : List (List String × Entry) := [
  (["main.py"], .file .empty),
  (["scripts"], .directory [("seed.js", .file .empty)]),
  (["scripts", "seed.js"], .file .empty),
  (["src"], .directory [("app", .directory [("page.tsx", .file .empty)])]),
  (["src", "app"], .directory [("page.tsx", .file .empty)]),
  (["src", "app", "page.tsx"], .file .empty),
  ([".next"], .directory [("chunk.js", .file .empty)]),
  ([".next", "chunk.js"], .file .empty)]

theorem mem_samplePlaces {names : List String} {e : Entry} (h : Reaches sampleTree names e) :
    (names, e) ∈ samplePlaces := by
  simp only [sampleTree, @reaches_cons _ (_ :: _), reaches_file, reaches_directory] at h
  simp only [samplePlaces, List.mem_cons, Prod.mk.injEq, List.not_mem_nil, or_false]
  grind

theorem foundFiles_sampleTree : (IsTree sampleTree ∧ NoIgnoreFiles sampleTree
      ∧ ∀ p ∈ [("repo", [("repo", Entry.directory sampleTree)])], IgnoreLevel.NoneAt p.2)
    ∧ CollectsFirst { WalkerConfig.standard with maxFiles := 2 } sampleTree
      [("repo", [("repo", .directory sampleTree)])] := by
  have htree : IsTree sampleTree := by
    refine ⟨by decide, fun names inner h => ?_, fun names e h => ?_⟩
    · have hnodup : ∀ p ∈ samplePlaces, ∀ inner, p.2 = .directory inner →
          (inner.map (·.1)).Nodup := by
        simp [samplePlaces]
      exact hnodup _ (mem_samplePlaces h) inner rfl
    · have hslash : ∀ p ∈ samplePlaces, ∀ name ∈ p.1, '/' ∉ name.toList := by
        simp [samplePlaces]
      exact hslash _ (mem_samplePlaces h)
  have hnone : NoIgnoreFiles sampleTree := by
    intro names content h
    have hplaces : ∀ p ∈ samplePlaces, ∀ place ∈ IgnoreLevel.places, ¬place <:+ p.1 := by
      simp only [samplePlaces, List.forall_mem_cons]
      decide
    exact hplaces _ (mem_samplePlaces h)
  have habove : ∀ p ∈ [("repo", [("repo", Entry.directory sampleTree)])],
      IgnoreLevel.NoneAt p.2 := by
    simp [IgnoreLevel.NoneAt, IgnoreLevel.places, reaches_directory]
  exact ⟨⟨htree, hnone, habove⟩, foundFiles_collectsFirst _ _ _ htree hnone habove⟩

end Entries

end CodeSurvey
