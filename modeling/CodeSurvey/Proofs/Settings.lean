import CodeSurvey.Command.Run

/-!
# The settings of a survey are valid

Settings are validated when they are read, and the options of the command line are
laid over them afterwards, without a second look. So every option has to keep what
was validated: `isValid_override` says that it does, because a number is only taken
over if it is not zero.

Settings come from a file that is named, from one that is found, or from nowhere;
`isValid_loadConfig` covers all three. A broken file that is only found gives no
settings at all, so whatever the search comes to was either validated or is the
standard.
-/

namespace CodeSurvey

/-! ## Valid settings -/

namespace Config

/-- Settings that a run could work with. -/
structure IsValid (c : Config) : Prop where
  workers : c.parallel.maxConcurrency ≠ some 0
  files : c.walker.maxFiles ≠ 0
  entryNames : c.routes.entryNames ≠ []

theorem validate_eq_ok_iff {c : Config} : c.validate = .ok () ↔ c.IsValid := by
  unfold validate
  constructor
  · intro h
    split at h
    · cases h
    rename_i hworkers
    split at h
    · cases h
    rename_i hfiles
    split at h
    · cases h
    rename_i hnames
    exact ⟨hworkers, hfiles, hnames⟩
  · intro h
    rw [if_neg h.workers, if_neg h.files, if_neg h.entryNames]

theorem isValid_standard : standard.IsValid := ⟨by decide, by decide, by decide⟩

theorem isValid_parse {text : String} {c : Config} (h : Config.parse text = .ok c) : c.IsValid := by
  unfold Config.parse at h
  split at h
  · cases h
  split at h
  · cases h
  · rename_i read _ hvalid
    obtain rfl := Except.ok.inj h
    exact validate_eq_ok_iff.mp hvalid

end Config

namespace FileTree

variable {t : FileTree} {c : Config}

theorem isValid_loadConfig {path : String} (h : t.loadConfig path = .ok c) : c.IsValid := by
  unfold loadConfig at h
  split at h
  · cases h
  split at h
  · rename_i hparse
    obtain rfl := Except.ok.inj h
    exact Config.isValid_parse hparse
  · cases h

/-- A search comes to settings that were read and validated, or to the standard. -/
theorem isValid_discoverConfig (start : String) (t : FileTree) :
    (t.discoverConfig start).IsValid := by
  unfold discoverConfig
  dsimp only
  generalize hfound : List.findSome? _ (configPaths start) = found
  cases found with
  | none => exact Config.isValid_standard
  | some c =>
      obtain ⟨path, -, hpath⟩ := List.exists_of_findSome?_eq_some hfound
      split at hpath
      · rename_i hload
        obtain rfl := Option.some.inj hpath
        exact isValid_loadConfig hload
      · cases hpath

end FileTree

namespace SurveyRequest

variable {q : SurveyRequest} {t : FileTree} {c : Config}

/-! ## What the command line says instead -/

theorem maxConcurrency_override (h : c.parallel.maxConcurrency ≠ some 0) :
    (q.override c).parallel.maxConcurrency ≠ some 0 := by
  show ((q.jobs.filter (0 < ·)) <|> c.parallel.maxConcurrency) ≠ some 0
  cases hjobs : q.jobs.filter (0 < ·) with
  | none => simpa using h
  | some n =>
      have hpos : 0 < n := by simpa using (Option.filter_eq_some_iff.mp hjobs).2
      simp
      omega

theorem maxFiles_override (h : c.walker.maxFiles ≠ 0) : (q.override c).walker.maxFiles ≠ 0 := by
  show (q.maxFiles.filter (0 < ·)).getD c.walker.maxFiles ≠ 0
  cases hfiles : q.maxFiles.filter (0 < ·) with
  | none => exact h
  | some n =>
      have hpos : 0 < n := by simpa using (Option.filter_eq_some_iff.mp hfiles).2
      simp
      omega

/-- No option makes valid settings invalid. -/
theorem isValid_override (h : c.IsValid) (q : SurveyRequest) : (q.override c).IsValid where
  workers := maxConcurrency_override h.workers
  files := maxFiles_override h.files
  entryNames := h.entryNames

/-- `used` are the settings `loaded` with what a request says instead of them, and
else the same. A number of zero says nothing. -/
structure Adjusts (q : SurveyRequest) (loaded used : Config) : Prop where
  patterns : used.patterns = loaded.patterns
  routes : used.routes = loaded.routes
  components : used.components = loaded.components
  parser : used.parser = loaded.parser
  batchSize : used.parallel.batchSize = loaded.parallel.batchSize
  respectGitignore : used.walker.respectGitignore = loaded.walker.respectGitignore
  skipDirs : used.walker.skipDirs = loaded.walker.skipDirs
  enabled : used.parallel.enabled = if q.noParallel then false else loaded.parallel.enabled
  maxConcurrency : ∀ n, q.jobs = some n → 0 < n → used.parallel.maxConcurrency = some n
  maxConcurrency_unsaid : q.jobs = none ∨ q.jobs = some 0 →
    used.parallel.maxConcurrency = loaded.parallel.maxConcurrency
  maxFiles : ∀ n, q.maxFiles = some n → 0 < n → used.walker.maxFiles = n
  maxFiles_unsaid : q.maxFiles = none ∨ q.maxFiles = some 0 →
    used.walker.maxFiles = loaded.walker.maxFiles

theorem adjusts_override (q : SurveyRequest) (c : Config) : q.Adjusts c (q.override c) where
  patterns := rfl
  routes := rfl
  components := rfl
  parser := rfl
  batchSize := rfl
  respectGitignore := rfl
  skipDirs := rfl
  enabled := by
    show (c.parallel.enabled && !q.noParallel) = _
    cases q.noParallel <;> simp
  maxConcurrency := by
    intro n hn hpos
    simp [override, hn, Option.filter, hpos]
  maxConcurrency_unsaid := by
    rintro (hn | hn) <;> simp [override, hn, Option.filter]
  maxFiles := by
    intro n hn hpos
    simp [override, hn, Option.filter, hpos]
  maxFiles_unsaid := by
    rintro (hn | hn) <;> simp [override, hn, Option.filter]

/-! ## The settings of a survey -/

/-- The survey with settings that are given. -/
def surveyWith (q : SurveyRequest) (c : Config) (t : FileTree) :
    Except SurveyFailure AnalysisResult := do
  let files ← (t.collect c.walker c.parser.maxFileBytes q.path).mapError (.walk q.path)
  let manifest ← (t.loadManifest q.path).mapError .manifest
  return surveyRepository c manifest false files

/-- A survey of `t` works with the settings `used`, which are valid, and which are
`loaded` but for what the request says instead. -/
structure WorksWith (q : SurveyRequest) (t : FileTree) (loaded used : Config) : Prop where
  survey : q.survey t = q.surveyWith used t
  valid : used.validate = .ok ()
  adjusts : q.Adjusts loaded used

theorem worksWith_override (hload : q.loadConfig t = .ok c) (hvalid : c.IsValid) :
    q.WorksWith t c (q.override c) where
  survey := by
    unfold SurveyRequest.survey
    rw [hload]
    rfl
  valid := Config.validate_eq_ok_iff.mpr (isValid_override hvalid q)
  adjusts := adjusts_override q c

/-- Whatever file the settings come from and whatever the command line says, a
survey works with valid settings, which are those that were loaded but for what the
command line says instead. A file that is named has to be usable; one that is only
found may be broken, or missing. -/
theorem survey_worksWith_valid (q : SurveyRequest) (t : FileTree) :
    (∀ path c, q.config = some path → t.loadConfig path = .ok c → q.WorksWith t c (q.override c))
      ∧ (q.config = none →
        q.WorksWith t (t.discoverConfig q.path) (q.override (t.discoverConfig q.path))) := by
  constructor
  · intro path c hconfig hload
    refine worksWith_override ?_ (FileTree.isValid_loadConfig hload)
    rw [SurveyRequest.loadConfig, hconfig]
    dsimp only
    rw [hload]
  · intro hconfig
    refine worksWith_override ?_ (FileTree.isValid_discoverConfig q.path t)
    rw [SurveyRequest.loadConfig, hconfig]

/-- A survey of at most three files, one after another, by a number of workers that
says nothing. -/
def threeFiles : SurveyRequest := ⟨".", .json, none, some "seven.toml", some 0, true, some 3, 0⟩

/-- A directory with settings that limit a survey to seven files. -/
def sevenAllowed : FileTree :=
  ⟨[("seven.toml", .file "[walker]\nmax_files = 7\n\n[parallel]\nmax_concurrency = 2\n".toUTF8)], []⟩

theorem survey_worksWith_threeFiles : ∃ c, sevenAllowed.loadConfig "seven.toml" = .ok c
    ∧ c.walker.maxFiles = 7
    ∧ threeFiles.WorksWith sevenAllowed c (threeFiles.override c)
    ∧ (threeFiles.override c).walker.maxFiles = 3
    ∧ (threeFiles.override c).parallel.maxConcurrency = some 2 := by
  refine ⟨_, by rfl, rfl, ?_, rfl, rfl⟩
  exact (survey_worksWith_valid threeFiles sevenAllowed).1 "seven.toml" _ rfl (by rfl)

end SurveyRequest

end CodeSurvey
