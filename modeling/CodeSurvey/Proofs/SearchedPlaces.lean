import CodeSurvey.Proofs.Discovery
import Mathlib.Data.List.Dedup

/-!
# Which directories are searched

A search for settings is to look at a directory and at those above it, and at no
other (`SearchesAbove`). But the directories above are got from the path, which is
shortened as a text: with two dots among its names, what is left of it can lead
anywhere.

Every path that is tried has the first names of the path that the search is for
(`isPrefix_fullNames`), so on the way to a directory it leads to a directory as well,
and the text that is read there is the one at that place (`IsDirectory.readText?`).
A search in which all these places are above the directory looks nowhere else
(`StaysAbove.searchesAbove`). Conversely, if one of them is not above, a file with
settings there is found, in a tree with directories wherever the path passes and
settings nowhere else (`SearchesAbove.staysAbove`).
-/

namespace CodeSurvey

namespace FileTree

/-- The text of the file with settings in the directory at a place. -/
def settingsText? (place : List String) (t : FileTree) : Option String :=
  (t.root.at? (place ++ [configFileName])).bind (·.text?)

def IsDirectory (path : String) (t : FileTree) : Prop :=
  ∃ entries above, t.locate? path = some (.directory entries, above)

/-- The place of what a path leads to from the directory at `here`. -/
def placeFrom (here : List String) (path : String) : List String :=
  Path.settled (fullNames path ⟨[], here⟩)

/-- Settings are the same in any two trees in which the directory at the path and
those above it have the same files with settings. -/
def SearchesAbove (here : List String) (start : String) : Prop :=
  ∀ t u : FileTree, t.here = here → u.here = here → t.IsDirectory start → u.IsDirectory start →
    (∀ place, place <+: placeFrom here start → t.settingsText? place = u.settingsText? place) →
    t.discoverConfig start = u.discoverConfig start

/-- Every path that is tried leads to the directory at the path or above it. -/
def StaysAbove (here : List String) (start : String) : Prop :=
  ∀ dir ∈ Path.ancestors searchDepth start.toList,
    placeFrom here (String.ofList dir) <+: placeFrom here start

/-! ### What a search reads -/

/-- The path of the file with settings in a directory. -/
def configPath (dir : List Char) : String :=
  String.ofList (Path.join dir configFileName.toList)

theorem isName_configFileName : Path.IsName configFileName.toList := ⟨by decide, by decide⟩

/-- The texts of the files with settings that are tried. -/
def triedTexts (start : String) (t : FileTree) : List (Option String) :=
  (Path.ancestors searchDepth start.toList).map fun dir => t.readText? (configPath dir)

/-- The settings in the first text that a run can work with. -/
def configOfTexts (texts : List (Option String)) : Config :=
  (texts.findSome? fun text? => text?.bind fun text => (Config.parse text).toOption).getD .standard

theorem configOfTexts_of_forall_none {texts : List (Option String)}
    (h : ∀ text? ∈ texts, text? = none) : configOfTexts texts = .standard := by
  have hnone : (texts.findSome? fun text? =>
      text?.bind fun text => (Config.parse text).toOption) = none :=
    List.findSome?_eq_none_iff.mpr fun text? htext => by rw [h text? htext, Option.bind_none]
  rw [configOfTexts, hnone, Option.getD_none]

theorem configOfTexts_of_mem {texts : List (Option String)} {text : String} {c : Config}
    (h : ∀ text? ∈ texts, text? = none ∨ text? = some text) (hmem : some text ∈ texts)
    (hparse : Config.parse text = .ok c) : configOfTexts texts = c := by
  have hvalid : (Config.parse text).toOption = some c := by rw [hparse]; rfl
  rw [configOfTexts]
  cases hfound : texts.findSome? fun text? =>
      text?.bind fun text => (Config.parse text).toOption with
  | none =>
      have := List.findSome?_eq_none_iff.mp hfound _ hmem
      rw [Option.bind_some, hvalid] at this
      cases this
  | some d =>
      obtain ⟨text?, htext, hd⟩ := List.exists_of_findSome?_eq_some hfound
      rcases h text? htext with rfl | rfl
      · cases hd
      · rw [Option.bind_some, hvalid] at hd
        exact (Option.some.inj hd).symm

theorem discoverConfig_eq_texts (t : FileTree) (start : String) :
    t.discoverConfig start = configOfTexts (t.triedTexts start) := by
  have hload : ∀ dir : List Char, (t.settingsAt? (configPath dir)).join
      = (t.readText? (configPath dir)).bind fun text => (Config.parse text).toOption := by
    intro dir
    rw [← toOption_loadConfig, loadConfig]
    cases t.readText? (configPath dir) with
    | none => rfl
    | some text => cases h : Config.parse text <;> simp [h] <;> rfl
  rw [discoverConfig_eq, firstValid?, configPaths, configOfTexts, triedTexts, List.findSome?_map,
    List.findSome?_map]
  exact congrArg (fun f => (List.findSome? f _).getD .standard) (funext hload)

variable {t u : FileTree} {here : List String} {start : String} {dir : List Char}

theorem isPrefix_fullNames {count : Nat} (h : dir ∈ Path.ancestors count start.toList) :
    t.fullNames (String.ofList dir) <+: t.fullNames start := by
  obtain ⟨hnames, habs⟩ := Path.names_prefix_of_mem_ancestors h
  have hmap := hnames.map String.ofList
  simp only [Path.IsAbsolute] at habs
  simp only [fullNames, String.toList_ofList, habs]
  split
  · exact hmap
  · exact (List.prefix_append_right_inj _).mpr hmap

theorem readText?_configPath (t : FileTree) (dir : List Char) :
    t.readText? (configPath dir)
      = (t.root.follow [] (t.fullNames (String.ofList dir) ++ [configFileName])).bind
        fun found => found.1.text? := by
  rw [readText?, find?, configPath, locate?_join t dir isName_configFileName, String.ofList_toList]
  cases t.root.follow [] (t.fullNames (String.ofList dir) ++ [configFileName]) <;> rfl

/-- Where a path leads to a directory, its file with settings is the one at that place. -/
theorem readText?_of_follow {entries : Entries} {above : List (String × Entries)}
    (h : t.root.follow [] (t.fullNames (String.ofList dir)) = some (.directory entries, above)) :
    t.readText? (configPath dir) = t.settingsText? (placeFrom t.here (String.ofList dir)) := by
  have hplace : t.root.at? (placeFrom t.here (String.ofList dir)) = some (.directory entries) :=
    (Entries.StandsAt.root.follow h).1
  rw [readText?_configPath, Entries.follow_append _ _ _ (List.cons_ne_nil _ _), h, settingsText?,
    Entries.at?_append hplace, Entries.at?_singleton,
    ← Entries.map_follow_singleton entries above (show configFileName ≠ ".." by decide)]
  show (Entries.follow entries above [configFileName]).bind _ = _
  cases Entries.follow entries above [configFileName] <;> rfl

/-- On the way to a directory every path that is tried leads to a directory. -/
theorem IsDirectory.readText? (hdir : t.IsDirectory start)
    (hmem : dir ∈ Path.ancestors searchDepth start.toList) :
    t.readText? (configPath dir) = t.settingsText? (placeFrom t.here (String.ofList dir)) := by
  obtain ⟨entries, above, hlocate⟩ := hdir
  obtain ⟨-, hfollow⟩ := (locate?_eq_directory_iff t).mp hlocate
  obtain ⟨inner, around, hfirst⟩ := Entries.exists_follow_prefix hfollow (isPrefix_fullNames hmem)
  exact readText?_of_follow hfirst

theorem StaysAbove.searchesAbove (h : StaysAbove here start) : SearchesAbove here start := by
  rintro t u rfl hu hdirt hdiru hagree
  rw [discoverConfig_eq_texts, discoverConfig_eq_texts]
  refine congrArg configOfTexts (List.map_congr_left fun dir hdir => ?_)
  rw [hdirt.readText? hdir, hdiru.readText? hdir, hu]
  exact hagree _ (h dir hdir)

/-- Without two dots a path leads along its names. -/
theorem staysAbove_of_notMem (h : ".." ∉ fullNames start ⟨[], here⟩) : StaysAbove here start := by
  intro dir hdir
  have hfirst := isPrefix_fullNames (t := ⟨[], here⟩) hdir
  rw [placeFrom, placeFrom, Path.settled, Path.settled, Path.settledFrom_of_notMem h,
    Path.settledFrom_of_notMem fun hmem => h (hfirst.subset hmem)]
  exact hfirst

/-! ### Trees that tell a search apart

For the converse there have to be trees with directories wherever the names of a
path pass. `grown` has one for every list of names up to some length, so two of
them differ in the files with settings only. -/

/-- A directory with directories of all `names`, and these with the same again, down
to a depth. Those at the places `marked` have a file with settings. -/
def grown (names : List String) (marked : List (List String)) : Nat → List String → Entries
  | 0, _ => []
  | depth + 1, place =>
    (if place ∈ marked then [(configFileName, .file sevenFiles.toUTF8)] else [])
      ++ names.map fun name => (name, .directory (grown names marked depth (place ++ [name])))

section Grown

variable {names : List String} (hconfig : configFileName ∉ names) (marked : List (List String))

include hconfig

theorem lookup_grown {name : String} (hname : name ∈ names) (depth : Nat) (place : List String) :
    (grown names marked (depth + 1) place).lookup name
      = some (.directory (grown names marked depth (place ++ [name]))) := by
  have hne : name ≠ configFileName := fun heq => hconfig (heq ▸ hname)
  rw [grown, List.lookup_append, List.lookup_graph _ hname]
  split
  · simp [List.lookup_cons, beq_false_of_ne hne]
  · rfl

theorem lookup_grown_config (depth : Nat) (place : List String) :
    (grown names marked (depth + 1) place).lookup configFileName
      = if place ∈ marked then some (.file sevenFiles.toUTF8) else none := by
  have hnone : (names.map fun name => (name, Entry.directory
      (grown names marked depth (place ++ [name])))).lookup configFileName = none := by
    rw [List.lookup_eq_none_iff]
    intro entry hentry
    obtain ⟨name, hname, rfl⟩ := List.mem_map.mp hentry
    exact bne_iff_ne.mpr fun heq => hconfig (heq ▸ hname)
  rw [grown, List.lookup_append, hnone, Option.or_none]
  split
  · simp
  · rfl

theorem at?_grown {place : List String} (hplace : place ⊆ names) (extra : Nat)
    (outer : List String) :
    (grown names marked (place.length + extra) outer).at? place
      = some (.directory (grown names marked extra (outer ++ place))) := by
  induction place generalizing outer with
  | nil => simp [Entries.at?]
  | cons name place ih =>
      obtain ⟨hname, hrest⟩ := List.cons_subset.mp hplace
      rw [List.length_cons, Nat.add_right_comm,
        Entries.at?_cons_directory (lookup_grown hconfig marked hname _ _), ih hrest]
      simp

theorem settingsText?_grown {place : List String} (hplace : place ⊆ names) {depth : Nat}
    (hdepth : place.length < depth) :
    settingsText? place ⟨grown names marked depth [], here⟩
      = if place ∈ marked then some sevenFiles else none := by
  obtain ⟨extra, rfl⟩ := Nat.exists_eq_add_of_lt hdepth
  rw [settingsText?, Nat.add_assoc, Entries.at?_append (at?_grown hconfig marked hplace _ _),
    Entries.at?_singleton, lookup_grown_config hconfig, List.nil_append]
  split
  · exact fromUTF8?_toUTF8 sevenFiles
  · rfl

end Grown

/-! ### The converse -/

/-- The names that a path passes, each once. -/
def passed (here : List String) (start : String) : List String :=
  ((fullNames start ⟨[], here⟩).filter (· ≠ "..")).dedup

/-- A tree in which a path leads to a directory, with settings at some places. -/
def treeAround (here : List String) (start : String) (marked : List (List String)) : FileTree :=
  ⟨grown (passed here start) marked ((fullNames start ⟨[], here⟩).length + 1) [], here⟩

theorem settled_subset_passed {front : List String}
    (hfront : front <+: fullNames start ⟨[], here⟩) :
    Path.settledFrom [] front ⊆ passed here start
      ∧ (Path.settledFrom [] front).length < (fullNames start ⟨[], here⟩).length + 1 := by
  constructor
  · intro n hn
    rcases Path.mem_of_mem_settledFrom hn with hn | ⟨hn, hup⟩
    · cases hn
    · simp [passed, hfront.subset hn, hup]
  · have hlength := Path.length_settledFrom_le [] front
    have := hfront.length_le
    simp only [List.length_nil, Nat.zero_add] at hlength
    omega

section TreeAround

variable (hconfig : configFileName ∉ fullNames start ⟨[], here⟩) (marked : List (List String))

include hconfig

theorem notMem_passed : configFileName ∉ passed here start := by
  simp [passed, hconfig]

theorem settingsText?_treeAround {front place : List String}
    (hfront : front <+: fullNames start ⟨[], here⟩) (hplace : place <+: Path.settledFrom [] front) :
    (treeAround here start marked).settingsText? place
      = if place ∈ marked then some sevenFiles else none := by
  obtain ⟨hsubset, hlength⟩ := settled_subset_passed hfront
  exact settingsText?_grown (notMem_passed hconfig) marked
    (fun n hn => hsubset (hplace.subset hn)) (Nat.lt_of_le_of_lt hplace.length_le hlength)

theorem isDirectory_treeAround (hstart : start ≠ "") :
    (treeAround here start marked).IsDirectory start := by
  have hpass : ∀ front, front <+: fullNames start ⟨[], here⟩ → ∃ inner,
      (treeAround here start marked).root.at? (Path.settledFrom [] front)
        = some (.directory inner) := by
    intro front hfront
    obtain ⟨hsubset, hlength⟩ := settled_subset_passed hfront
    obtain ⟨extra, hextra⟩ := Nat.exists_eq_add_of_lt hlength
    rw [treeAround, hextra, Nat.add_assoc]
    exact ⟨_, at?_grown (notMem_passed hconfig) marked hsubset _ _⟩
  obtain ⟨entries, above, hfollow⟩ := Entries.StandsAt.root.exists_follow hpass
  exact ⟨entries, above, (locate?_eq_directory_iff _).mpr ⟨hstart, hfollow⟩⟩

theorem readText?_treeAround (hstart : start ≠ "")
    (hdir : dir ∈ Path.ancestors searchDepth start.toList) :
    (treeAround here start marked).readText? (configPath dir)
      = if placeFrom here (String.ofList dir) ∈ marked then some sevenFiles else none := by
  rw [(isDirectory_treeAround hconfig marked hstart).readText? hdir]
  exact settingsText?_treeAround hconfig marked (isPrefix_fullNames hdir) List.prefix_rfl

theorem discoverConfig_treeAround_nil (hstart : start ≠ "") :
    (treeAround here start []).discoverConfig start = .standard := by
  rw [discoverConfig_eq_texts]
  refine configOfTexts_of_forall_none fun text? htext => ?_
  obtain ⟨dir, hdir, rfl⟩ := List.mem_map.mp htext
  rw [readText?_treeAround hconfig [] hstart hdir, if_neg List.not_mem_nil]

theorem maxFiles_treeAround_singleton (hstart : start ≠ "")
    (hdir : dir ∈ Path.ancestors searchDepth start.toList) :
    ((treeAround here start [placeFrom here (String.ofList dir)]).discoverConfig
      start).walker.maxFiles = 7 := by
  obtain ⟨c, hparse, hc⟩ := exists_parse_sevenFiles
  have hfound : some sevenFiles
      ∈ (treeAround here start [placeFrom here (String.ofList dir)]).triedTexts start := by
    refine List.mem_map.mpr ⟨dir, hdir, ?_⟩
    rw [readText?_treeAround hconfig _ hstart hdir, if_pos (List.mem_singleton.mpr rfl)]
  rw [discoverConfig_eq_texts, configOfTexts_of_mem (fun text? htext => ?_) hfound hparse, hc]
  obtain ⟨other, hother, rfl⟩ := List.mem_map.mp htext
  rw [readText?_treeAround hconfig _ hstart hother]
  split
  · exact .inr rfl
  · exact .inl rfl

end TreeAround

/-- A path that is tried and leads astray is told by a file with settings where it
leads. -/
theorem SearchesAbove.staysAbove (hconfig : configFileName ∉ fullNames start ⟨[], here⟩)
    (h : SearchesAbove here start) : StaysAbove here start := by
  intro dir hdir
  by_contra hastray
  have hstart : start ≠ "" := by
    rintro rfl
    have hempty : Path.ancestors searchDepth "".toList = [[]] := rfl
    rw [hempty, List.mem_singleton] at hdir
    exact hastray (hdir ▸ List.prefix_rfl)
  have hagree : ∀ place, place <+: placeFrom here start →
      (treeAround here start []).settingsText? place
        = (treeAround here start [placeFrom here (String.ofList dir)]).settingsText? place := by
    intro place hplace
    have hne : place ∉ [placeFrom here (String.ofList dir)] :=
      fun hmem => hastray (List.mem_singleton.mp hmem ▸ hplace)
    rw [settingsText?_treeAround hconfig _ List.prefix_rfl hplace,
      settingsText?_treeAround hconfig _ List.prefix_rfl hplace, if_neg hne,
      if_neg List.not_mem_nil]
  have hsame := h _ _ rfl rfl (isDirectory_treeAround hconfig _ hstart)
    (isDirectory_treeAround hconfig _ hstart) hagree
  have hseven := maxFiles_treeAround_singleton hconfig hstart hdir
  rw [← hsame, discoverConfig_treeAround_nil hconfig hstart] at hseven
  exact absurd hseven (by decide)

variable (here start)

/-- A search looks only at the directory that the path leads to and above it, for
all paths without two dots and all on which no path that is tried leads astray.
Those are all, save perhaps paths that pass a directory with the name of a file
with settings. -/
theorem discoverConfig_local_iff :
    (".." ∉ fullNames start ⟨[], here⟩ → SearchesAbove here start)
      ∧ (StaysAbove here start → SearchesAbove here start)
      ∧ (configFileName ∉ fullNames start ⟨[], here⟩ →
        (SearchesAbove here start ↔ StaysAbove here start)) :=
  ⟨fun h => (staysAbove_of_notMem h).searchesAbove, StaysAbove.searchesAbove,
    fun hconfig => ⟨fun h => h.staysAbove hconfig, StaysAbove.searchesAbove⟩⟩

end FileTree

/-- Two directories side by side, the first with the given entries. -/
def sideBySide (entries : Entries) : FileTree :=
  ⟨[("a", .directory entries), ("b", .directory [])], []⟩

theorem not_searchesAbove_sideBySide :
    FileTree.placeFrom [] "a/../b" = ["b"]
      ∧ ((sideBySide [(".repodoc.toml", .file sevenFiles.toUTF8)]).discoverConfig
        "a/../b").walker.maxFiles = 7
      ∧ (sideBySide []).discoverConfig "a/../b" = .standard
      ∧ ¬ FileTree.SearchesAbove [] "a/../b" := by
  have hseven : ((sideBySide [(".repodoc.toml", .file sevenFiles.toUTF8)]).discoverConfig
      "a/../b").walker.maxFiles = 7 := by rfl
  have hbare : (sideBySide []).discoverConfig "a/../b" = .standard := by rfl
  refine ⟨by rfl, hseven, hbare, fun h => ?_⟩
  have hsame := h (sideBySide [(".repodoc.toml", .file sevenFiles.toUTF8)]) (sideBySide [])
    rfl rfl ⟨_, _, by rfl⟩ ⟨_, _, by rfl⟩ fun place hplace => by
      rcases List.prefix_cons_iff.mp hplace with rfl | ⟨rest, rfl, hrest⟩
      · rfl
      · obtain rfl := List.prefix_nil.mp hrest
        rfl
  rw [hsame, hbare] at hseven
  exact absurd hseven (by decide)

end CodeSurvey
