import CodeSurvey.Directory.Load
import CodeSurvey.Proofs.Place

/-!
# Which settings decide

The settings for a directory are looked for in the directory itself and in those
above it. The nearest file that a run can work with decides: a broken one is passed
over as if it were not there, and the search goes on above it.

That is not the rule that the nearest file decides whatever it is, and that a broken
one stands for the standard settings. `discoverConfig_nearest_iff` says where the two
come to the same: unless a broken file hides other settings further up.
-/

namespace CodeSurvey

namespace FileTree

variable (t : FileTree)

/-! ## Broken files

`settingsAt?` tells a broken file from none at all, which the search does not. -/

/-- The settings in the file at a path: nothing if there is no file, and none in
it if no run could work with what it says. -/
def settingsAt? (path : String) : Option (Option Config) :=
  match t.find? path with
  | some (.file content) =>
    some ((String.fromUTF8? content).bind fun text => (Config.parse text).toOption)
  | _ => none

/-- The settings by the rule that the nearest file decides, be it broken or not. -/
def nearestConfig (start : String) : Config :=
  match (configPaths start).findSome? t.settingsAt? with
  | some (some c) => c
  | _ => .standard

/-- The first settings on the way that a run can work with. -/
def firstValid? (paths : List String) : Option Config :=
  paths.findSome? fun path => (t.settingsAt? path).join

theorem toOption_loadConfig (path : String) :
    (t.loadConfig path).toOption = (t.settingsAt? path).join := by
  rw [loadConfig, readText?, settingsAt?]
  cases t.find? path with
  | none => rfl
  | some e =>
      cases e with
      | directory entries => rfl
      | file content =>
          simp only [Option.bind_some, Entry.text?, Option.join_some]
          cases String.fromUTF8? content with
          | none => rfl
          | some text =>
              simp only [Option.bind_some]
              cases Config.parse text <;> rfl

theorem loadConfig_eq_toOption (path : String) : (match t.loadConfig path with
    | .ok c => some c
    | .error _ => none) = (t.settingsAt? path).join := by
  rw [← toOption_loadConfig]
  cases t.loadConfig path <;> rfl

theorem discoverConfig_eq (start : String) :
    t.discoverConfig start = (t.firstValid? (configPaths start)).getD .standard := by
  rw [discoverConfig, firstValid?]
  exact congrArg (fun f => (List.findSome? f (configPaths start)).getD .standard)
    (funext t.loadConfig_eq_toOption)

variable {t} {start : String}

theorem firstValid?_append {before : List String}
    (hbefore : ∀ path ∈ before, ∀ c, t.settingsAt? path ≠ some (some c)) (after : List String) :
    t.firstValid? (before ++ after) = t.firstValid? after := by
  have hnone : t.firstValid? before = none := by
    refine List.findSome?_eq_none_iff.mpr fun path hpath => ?_
    cases h : t.settingsAt? path with
    | none => rfl
    | some c? =>
        cases c? with
        | none => rfl
        | some c => exact absurd h (hbefore path hpath c)
  rw [firstValid?, List.findSome?_append]
  exact (congrArg (Option.or · _) hnone).trans (Option.none_or ..)

theorem discoverConfig_of_valid {before after : List String} {path : String} {c : Config}
    (hpaths : configPaths start = before ++ path :: after)
    (hbefore : ∀ p ∈ before, ∀ d, t.settingsAt? p ≠ some (some d))
    (hpath : t.settingsAt? path = some (some c)) : t.discoverConfig start = c := by
  rw [discoverConfig_eq, hpaths, firstValid?_append hbefore, firstValid?, List.findSome?_cons,
    hpath]
  rfl

theorem discoverConfig_of_none
    (hnone : ∀ p ∈ configPaths start, ∀ c, t.settingsAt? p ≠ some (some c)) :
    t.discoverConfig start = .standard := by
  rw [discoverConfig_eq, ← List.append_nil (configPaths start), firstValid?_append hnone]
  rfl

/-- Behind a broken file the search goes on. -/
theorem discoverConfig_of_broken {before after : List String} {path : String}
    (hpaths : configPaths start = before ++ path :: after)
    (hbefore : ∀ p ∈ before, t.settingsAt? p = none) (hpath : t.settingsAt? path = some none) :
    t.discoverConfig start = (t.firstValid? after).getD .standard := by
  have hinvalid : ∀ p ∈ before ++ [path], ∀ c, t.settingsAt? p ≠ some (some c) := by
    intro p hp c heq
    rcases List.mem_append.mp hp with hp | hp
    · rw [hbefore p hp] at heq
      cases heq
    · rw [List.mem_singleton.mp hp, hpath] at heq
      cases heq
  rw [discoverConfig_eq, hpaths, List.append_cons, firstValid?_append hinvalid]

theorem nearestConfig_of_broken {before after : List String} {path : String}
    (hpaths : configPaths start = before ++ path :: after)
    (hbefore : ∀ p ∈ before, t.settingsAt? p = none) (hpath : t.settingsAt? path = some none) :
    t.nearestConfig start = .standard := by
  have hnear : (configPaths start).findSome? t.settingsAt? = some none :=
    List.findSome?_eq_some_iff.mpr ⟨before, path, after, hpaths, hpath, hbefore⟩
  rw [nearestConfig, hnear]

variable (t start)

/-- The nearest file that a run can work with decides, and only if there is none
are the settings the standard ones. So a broken file decides nothing: the search
comes to what the nearest file says, or to the standard settings if it is broken,
if and only if no broken file hides other settings further up. -/
theorem discoverConfig_nearest_iff :
    (∀ before path after c, configPaths start = before ++ path :: after →
        (∀ p ∈ before, ∀ d, t.settingsAt? p ≠ some (some d)) →
        t.settingsAt? path = some (some c) → t.discoverConfig start = c)
      ∧ ((∀ p ∈ configPaths start, ∀ c, t.settingsAt? p ≠ some (some c)) →
        t.discoverConfig start = .standard)
      ∧ (t.discoverConfig start = t.nearestConfig start ↔
        ∀ before path after c, configPaths start = before ++ path :: after →
          (∀ p ∈ before, t.settingsAt? p = none) → t.settingsAt? path = some none →
          t.firstValid? after = some c → c = .standard) := by
  refine ⟨fun before path after c => discoverConfig_of_valid, discoverConfig_of_none, ?_, ?_⟩
  · intro heq before path after c hpaths hbefore hpath hafter
    rw [nearestConfig_of_broken hpaths hbefore hpath,
      discoverConfig_of_broken hpaths hbefore hpath, hafter] at heq
    exact heq
  · intro hhidden
    cases hnear : (configPaths start).findSome? t.settingsAt? with
    | none =>
        have hnone := List.findSome?_eq_none_iff.mp hnear
        rw [nearestConfig, hnear,
          discoverConfig_of_none fun p hp c heq => nomatch (hnone p hp).symm.trans heq]
    | some c? =>
        obtain ⟨before, path, after, hpaths, hpath, hbefore⟩ :=
          List.findSome?_eq_some_iff.mp hnear
        cases c? with
        | some c =>
            rw [nearestConfig, hnear, discoverConfig_of_valid hpaths
              (fun p hp d heq => nomatch (hbefore p hp).symm.trans heq) hpath]
        | none =>
            rw [nearestConfig_of_broken hpaths hbefore hpath,
              discoverConfig_of_broken hpaths hbefore hpath]
            cases hafter : t.firstValid? after with
            | none => rfl
            | some c => exact hhidden before path after c hpaths hbefore hpath hafter

end FileTree

/-- Settings that limit a survey to seven files. -/
def sevenFiles : String := "[walker]\nmax_files = 7\n"

theorem exists_parse_sevenFiles :
    ∃ c, Config.parse sevenFiles = .ok c ∧ c.walker.maxFiles = 7 := ⟨_, by rfl, rfl⟩

/-- A broken file below one that limits a survey to seven files. -/
def brokenBelowValid : FileTree := ⟨[
  (".repodoc.toml", .file sevenFiles.toUTF8),
  ("a", .directory [(".repodoc.toml", .file "[walker\nbroken".toUTF8)])], []⟩

theorem discoverConfig_brokenBelowValid :
    brokenBelowValid.settingsAt? "a/.repodoc.toml" = some none
      ∧ brokenBelowValid.nearestConfig "a" = .standard
      ∧ (brokenBelowValid.discoverConfig "a").walker.maxFiles = 7
      ∧ brokenBelowValid.discoverConfig "a" ≠ brokenBelowValid.nearestConfig "a" := by
  have hnearest : brokenBelowValid.nearestConfig "a" = .standard := by rfl
  have hseven : (brokenBelowValid.discoverConfig "a").walker.maxFiles = 7 := by rfl
  refine ⟨by rfl, hnearest, hseven, fun heq => ?_⟩
  rw [heq, hnearest] at hseven
  exact absurd hseven (by decide)

end CodeSurvey
