import CodeSurvey.Proofs.Survey

/-!
# Consistent surveys

A survey says some things twice: its totals count what its lists hold, its
components and endpoints name files that it lists, and its breakdown by language
counts the files that it was given. `AnalysisResult.IsConsistent` says that
these agree, for whatever files a survey is made of.

The breakdown is made from two sources, the language of a record and the path of
a file without one. `languageBreakdown_eq` needs no case for either: a record
carries the path of its file and the language of that path
(`SourceFile.language_of_analyze`), and the paths of both lists together are
those of the files (`perm_paths`).
-/

namespace CodeSurvey

/-! ## Every file is listed once -/

theorem perm_paths (c : Config) (manifest : Option Manifest) (files : List SourceFile) :
    ((surveyRepository c manifest false files).sourceFiles.map (·.path)
        ++ (surveyRepository c manifest false files).skippedFiles.map (·.path)).Perm
      (files.map (·.path)) := by
  rw [surveyRepository_eq]
  show ((BatchResult.ofFiles c.parser files).parsed.map (·.path)
    ++ (BatchResult.ofFiles c.parser files).skipped.map (·.path)).Perm (files.map (·.path))
  rw [BatchResult.paths_parsed_ofFiles, BatchResult.paths_skipped_ofFiles, ← List.map_append]
  exact (List.filter_append_perm (·.parses c.parser) files).map _

theorem language_of_mem_sourceFiles {c : Config} {manifest : Option Manifest}
    {files : List SourceFile} {p : ParsedFile}
    (h : p ∈ (surveyRepository c manifest false files).sourceFiles) :
    p.language = Language.classify p.path ∧ p.language.isAnalyzable = true := by
  rw [surveyRepository_eq] at h
  obtain ⟨f, -, hf⟩ := List.mem_filterMap.mp
    (show p ∈ (BatchResult.ofFiles c.parser files).parsed from h)
  cases ha : f.analyze c.parser with
  | error e => simp [ha] at hf
  | ok r =>
      obtain rfl : r = p := by simpa [ha] using hf
      exact SourceFile.language_of_analyze ha

/-! ## The breakdown by language -/

/-- Only how often each language occurs counts, not where. -/
theorem countLanguages_of_perm {ls ls' : List Language} (h : ls.Perm ls') :
    countLanguages ls = countLanguages ls' := by
  simp only [countLanguages, h.count_eq]

theorem nodup_keys_countLanguages (ls : List Language) :
    ((countLanguages ls).map (·.1)).Nodup := by
  have hkept : (countLanguages ls).Sublist (Language.all.map fun l => (l, ls.count l)) :=
    List.filter_sublist
  have hkeys : ((countLanguages ls).map (·.1)).Sublist Language.all := by
    simpa [Function.comp_def] using hkept.map (·.1)
  exact hkeys.nodup (by decide)

/-- The breakdown counts the languages of the paths, whatever is at them. -/
theorem languageBreakdown_eq (c : Config) (manifest : Option Manifest) (files : List SourceFile) :
    (surveyRepository c manifest false files).metrics.languageBreakdown
      = countLanguages ((files.map (·.path)).map Language.classify) := by
  have hrecords : (surveyRepository c manifest false files).sourceFiles.map (·.language)
      = ((surveyRepository c manifest false files).sourceFiles.map (·.path)).map
        Language.classify := by
    rw [List.map_map]
    exact List.map_congr_left fun p hp => (language_of_mem_sourceFiles hp).1
  calc (surveyRepository c manifest false files).metrics.languageBreakdown
      = countLanguages ((surveyRepository c manifest false files).sourceFiles.map (·.language)
          ++ (surveyRepository c manifest false files).skippedFiles.map
            fun s => Language.classify s.path) := rfl
    _ = countLanguages (((surveyRepository c manifest false files).sourceFiles.map (·.path)
          ++ (surveyRepository c manifest false files).skippedFiles.map (·.path)).map
            Language.classify) := by
        rw [hrecords, List.map_append, List.map_map (l := AnalysisResult.skippedFiles _)]
        rfl
    _ = countLanguages ((files.map (·.path)).map Language.classify) :=
        countLanguages_of_perm ((perm_paths c manifest files).map _)

/-! ## What a survey says twice -/

/-- What a survey says of itself and of the files that it was given agrees. -/
structure AnalysisResult.IsConsistent (r : AnalysisResult) (files : List SourceFile) : Prop where
  /-- Every file is listed as often as it was given, with its record or with the
  reason why it has none. -/
  paths : (r.sourceFiles.map (·.path) ++ r.skippedFiles.map (·.path)).Perm (files.map (·.path))
  totalFiles : r.metrics.totalFiles = r.sourceFiles.length
  totalFunctions : r.metrics.totalFunctions = (r.sourceFiles.flatMap (·.functions)).length
  totalClasses : r.metrics.totalClasses = (r.sourceFiles.flatMap (·.classes)).length
  totalLines : r.metrics.totalLines = (r.sourceFiles.map (·.linesOfCode)).sum
  totalComponents : r.metrics.totalComponents = r.components.length
  totalApiEndpoints : r.metrics.totalApiEndpoints = r.apiEndpoints.length
  componentFile : ∀ k ∈ r.components, ∃ p ∈ r.sourceFiles, k.file = p.path
  endpointFile : ∀ e ∈ r.apiEndpoints, ∃ p ∈ r.sourceFiles, e.sourceFile = p.path
  language : ∀ p ∈ r.sourceFiles,
    p.language = Language.classify p.path ∧ p.language.isAnalyzable = true
  /-- A language has the number of the files of its kind, and no entry if there
  are none. -/
  mem_languageBreakdown : ∀ l n, (l, n) ∈ r.metrics.languageBreakdown
    ↔ files.countP (fun f => Language.classify f.path = l) = n ∧ n ≠ 0
  nodup_languages : (r.metrics.languageBreakdown.map (·.1)).Nodup

theorem totalOf_eq_sum {α : Type} (f : α → Nat) (as : List α) : totalOf f as = (as.map f).sum := by
  induction as with
  | nil => rfl
  | cons a as ih => rw [totalOf, ih, List.map_cons, List.sum_cons]

theorem file_of_mem_components {c : ComponentConfig} {p : ParsedFile} {k : ComponentRecord}
    (h : k ∈ p.components c) : k.file = p.path := by
  simp only [ParsedFile.components, List.mem_append, List.mem_map] at h
  obtain ⟨r, -, rfl⟩ | ⟨r, -, rfl⟩ := h <;> rfl

theorem sourceFile_of_mem_endpoints {c : RouteConfig} {p : ParsedFile} {e : ApiEndpointRecord}
    (h : e ∈ p.endpoints c) : e.sourceFile = p.path := by
  unfold ParsedFile.endpoints at h
  split at h
  · cases h
  · obtain ⟨x, -, hx⟩ := List.mem_filterMap.mp h
    split at hx
    · obtain ⟨m, -, rfl⟩ := Option.map_eq_some_iff.mp hx
      rfl
    · cases hx

/-- A survey is consistent, and its breakdown by language is the same for all
files at the same paths: neither the configuration, nor the manifest, nor what
is in the files, nor which of them have records plays a part in it. -/
theorem survey_isConsistent (c : Config) (manifest : Option Manifest) (files : List SourceFile) :
    (surveyRepository c manifest false files).IsConsistent files
      ∧ ∀ (c' : Config) (manifest' : Option Manifest) (files' : List SourceFile),
        (files.map (·.path)).Perm (files'.map (·.path)) →
        (surveyRepository c manifest false files).metrics.languageBreakdown
          = (surveyRepository c' manifest' false files').metrics.languageBreakdown := by
  refine ⟨{
    paths := perm_paths c manifest files
    totalFiles := rfl
    totalFunctions := ?_
    totalClasses := ?_
    totalLines := totalOf_eq_sum _ _
    totalComponents := rfl
    totalApiEndpoints := rfl
    componentFile := fun k hk => ?_
    endpointFile := fun e he => ?_
    language := fun p hp => language_of_mem_sourceFiles hp
    mem_languageBreakdown := fun l n => ?_
    nodup_languages := ?_ }, fun c' manifest' files' hpaths => ?_⟩
  · rw [List.length_flatMap]
    exact totalOf_eq_sum _ _
  · rw [List.length_flatMap]
    exact totalOf_eq_sum _ _
  · rw [components_eq] at hk
    obtain ⟨p, hp, hkp⟩ := List.mem_flatMap.mp hk
    exact ⟨p, hp, file_of_mem_components hkp⟩
  · rw [apiEndpoints_eq] at he
    obtain ⟨p, hp, hep⟩ := List.mem_flatMap.mp he
    exact ⟨p, hp, sourceFile_of_mem_endpoints hep⟩
  · have hcount : ((files.map (·.path)).map Language.classify).count l
        = files.countP fun f => Language.classify f.path = l := by
      rw [List.map_map, List.count, List.countP_map]
      exact List.countP_congr fun f _ => by simp
    rw [languageBreakdown_eq, mem_countLanguages, hcount]
  · rw [languageBreakdown_eq]
    exact nodup_keys_countLanguages _
  · rw [languageBreakdown_eq, languageBreakdown_eq]
    exact countLanguages_of_perm (hpaths.map _)

end CodeSurvey
