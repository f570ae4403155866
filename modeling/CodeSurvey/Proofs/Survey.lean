import CodeSurvey.Proofs.Schedule
import CodeSurvey.Proofs.Sorted
import CodeSurvey.Repository.Survey

/-!
# Surveys add up

A survey looks at every file on its own, so the survey of two lists of files in
a row is made of the surveys of both: lists of records are appended, counts
added and technologies united. Where a chunk of the batch ends plays no part,
because a batch that nobody stops is a map over its files
(`surveyRepository_eq`).

The share that one file has in a survey is the survey of this file alone, so
`sourceFiles_eq_flatMap` and its companions say that no file has a part in the
records of another.
-/

namespace CodeSurvey

/-! ## Counts per language -/

/-- The number of files of a language. -/
def Metrics.filesOf (m : Metrics) (l : Language) : Nat := (m.languageBreakdown.lookup l).getD 0

theorem lookup_filter_counts (g : Language → Nat) (l : Language) (keys : List Language) :
    ((((keys.map fun k => (k, g k)).filter fun (_, n) => n ≠ 0).lookup l).getD 0)
      = if l ∈ keys then g l else 0 := by
  induction keys with
  | nil => rfl
  | cons k keys ih =>
      by_cases hkl : l = k
      · subst hkl
        by_cases hg : g l = 0
        · by_cases hmem : l ∈ keys <;> simp_all
        · simp [hg]
      · by_cases hg : g k = 0
        · simpa [hg, hkl] using ih
        · simpa [hg, hkl, List.lookup_cons, beq_eq_false_iff_ne.mpr hkl] using ih

theorem mem_all (l : Language) : l ∈ Language.all := by
  cases l <;> decide

theorem filesOf_countLanguages (languages : List Language) (l : Language) :
    ((countLanguages languages).lookup l).getD 0 = languages.count l := by
  rw [countLanguages, lookup_filter_counts (fun k => languages.count k) l Language.all,
    if_pos (mem_all l)]

/-- The languages that occur, each with its count. -/
theorem mem_countLanguages {languages : List Language} {l : Language} {n : Nat} :
    (l, n) ∈ countLanguages languages ↔ languages.count l = n ∧ n ≠ 0 := by
  simp only [countLanguages, List.mem_filter, List.mem_map, Prod.mk.injEq, decide_eq_true_eq]
  constructor
  · rintro ⟨⟨k, -, rfl, rfl⟩, hn⟩
    exact ⟨rfl, hn⟩
  · rintro ⟨rfl, hn⟩
    exact ⟨⟨l, mem_all l, rfl, rfl⟩, hn⟩

namespace Metrics

/-- The counts of `m` are those of `a` and `b` together. -/
structure IsSum (m a b : Metrics) : Prop where
  totalFiles : m.totalFiles = a.totalFiles + b.totalFiles
  totalFunctions : m.totalFunctions = a.totalFunctions + b.totalFunctions
  totalClasses : m.totalClasses = a.totalClasses + b.totalClasses
  totalComponents : m.totalComponents = a.totalComponents + b.totalComponents
  totalApiEndpoints : m.totalApiEndpoints = a.totalApiEndpoints + b.totalApiEndpoints
  totalLines : m.totalLines = a.totalLines + b.totalLines
  filesOf : ∀ l, m.filesOf l = a.filesOf l + b.filesOf l
  /-- No language is listed that does not occur. -/
  languageBreakdown : ∀ l n, (l, n) ∈ m.languageBreakdown ↔ a.filesOf l + b.filesOf l = n ∧ n ≠ 0

theorem filesOf_ofFiles (files : List ParsedFile) (skipped : List SkippedFile)
    (components endpoints : Nat) (l : Language) :
    (ofFiles files skipped components endpoints).filesOf l
      = (files.map (·.language)).count l
        + (skipped.map fun s => Language.classify s.path).count l := by
  rw [Metrics.filesOf, ofFiles, filesOf_countLanguages, List.count_append]

theorem isSum_ofFiles (files files' : List ParsedFile) (skipped skipped' : List SkippedFile)
    (components components' endpoints endpoints' : Nat) :
    (ofFiles (files ++ files') (skipped ++ skipped') (components + components')
      (endpoints + endpoints')).IsSum
        (ofFiles files skipped components endpoints)
        (ofFiles files' skipped' components' endpoints') where
  totalFiles := List.length_append
  totalFunctions := totalOf_append ..
  totalClasses := totalOf_append ..
  totalComponents := rfl
  totalApiEndpoints := rfl
  totalLines := totalOf_append ..
  filesOf := by
    intro l
    simp only [filesOf_ofFiles, List.map_append, List.count_append]
    omega
  languageBreakdown := by
    intro l n
    have hsum : ((files ++ files').map (·.language)
          ++ (skipped ++ skipped').map fun s => Language.classify s.path).count l
        = (ofFiles files skipped components endpoints).filesOf l
          + (ofFiles files' skipped' components' endpoints').filesOf l := by
      simp only [filesOf_ofFiles, List.map_append, List.count_append]
      omega
    rw [← hsum]
    exact mem_countLanguages

end Metrics

/-! ## Technologies -/

/-- The technologies of two lists of files are those of both. -/
theorem mem_detectTechnologies_append (p : Patterns) (m : Manifest) (files files' : List ParsedFile)
    (label : String) :
    label ∈ detectTechnologies p m (files ++ files')
      ↔ label ∈ detectTechnologies p m files ∨ label ∈ detectTechnologies p m files' := by
  simp only [detectTechnologies, mem_sortedSet, List.filterMap_append, List.mem_append]
  tauto

/-! ## Surveys of two lists of files -/

section Append

variable (c : Config) (manifest : Option Manifest)

theorem surveyRepository_eq (files : List SourceFile) :
    surveyRepository c manifest false files
      = .ofBatch c manifest (BatchResult.ofFiles c.parser files) := by
  rw [surveyRepository, result_runBatch]

variable (xs ys : List SourceFile)

theorem sourceFiles_append :
    (surveyRepository c manifest false (xs ++ ys)).sourceFiles
      = (surveyRepository c manifest false xs).sourceFiles
        ++ (surveyRepository c manifest false ys).sourceFiles := by
  simp only [surveyRepository_eq]
  exact (BatchResult.ofFiles_append c.parser xs ys).1

theorem skippedFiles_append :
    (surveyRepository c manifest false (xs ++ ys)).skippedFiles
      = (surveyRepository c manifest false xs).skippedFiles
        ++ (surveyRepository c manifest false ys).skippedFiles := by
  simp only [surveyRepository_eq]
  exact (BatchResult.ofFiles_append c.parser xs ys).2

theorem components_eq (stopped : Bool) (files : List SourceFile) :
    (surveyRepository c manifest stopped files).components
      = (surveyRepository c manifest stopped files).sourceFiles.flatMap
        (·.components c.components) := rfl

theorem apiEndpoints_eq (stopped : Bool) (files : List SourceFile) :
    (surveyRepository c manifest stopped files).apiEndpoints
      = (surveyRepository c manifest stopped files).sourceFiles.flatMap
        (·.endpoints c.routes) := rfl

theorem components_append :
    (surveyRepository c manifest false (xs ++ ys)).components
      = (surveyRepository c manifest false xs).components
        ++ (surveyRepository c manifest false ys).components := by
  simp only [components_eq, sourceFiles_append, List.flatMap_append]

theorem apiEndpoints_append :
    (surveyRepository c manifest false (xs ++ ys)).apiEndpoints
      = (surveyRepository c manifest false xs).apiEndpoints
        ++ (surveyRepository c manifest false ys).apiEndpoints := by
  simp only [apiEndpoints_eq, sourceFiles_append, List.flatMap_append]

theorem isSum_metrics :
    (surveyRepository c manifest false (xs ++ ys)).metrics.IsSum
      (surveyRepository c manifest false xs).metrics
      (surveyRepository c manifest false ys).metrics := by
  have hparts : ∀ files, (surveyRepository c manifest false files).metrics
      = .ofFiles (surveyRepository c manifest false files).sourceFiles
        (surveyRepository c manifest false files).skippedFiles
        (surveyRepository c manifest false files).components.length
        (surveyRepository c manifest false files).apiEndpoints.length := fun _ => rfl
  rw [hparts (xs ++ ys), sourceFiles_append, skippedFiles_append, components_append,
    apiEndpoints_append, List.length_append, List.length_append]
  exact Metrics.isSum_ofFiles ..

theorem technologies_append :
    (surveyRepository c manifest false (xs ++ ys)).technologies
      = sortedSet ((surveyRepository c manifest false xs).technologies
        ++ (surveyRepository c manifest false ys).technologies) := by
  have hparts : ∀ files, (surveyRepository c manifest false files).technologies
      = detectTechnologies c.patterns (manifest.getD .empty)
        (surveyRepository c manifest false files).sourceFiles := fun _ => rfl
  refine eq_of_sorted (sorted_sortedSet _) (sorted_sortedSet _) fun label => ?_
  rw [mem_sortedSet, List.mem_append, hparts xs, hparts ys, ← mem_detectTechnologies_append,
    ← sourceFiles_append, ← hparts]

end Append

/-! ## The share of one file -/

/-- What is appended when files are, is put together from the files one by one. -/
theorem eq_flatMap_of_append {β : Type} (records : List SourceFile → List β)
    (hnil : records [] = []) (happend : ∀ xs ys, records (xs ++ ys) = records xs ++ records ys)
    (files : List SourceFile) : records files = files.flatMap fun f => records [f] := by
  induction files with
  | nil => exact hnil
  | cons f files ih => rw [← List.singleton_append, happend, ih, List.flatMap_append,
      List.flatMap_singleton]

section Share

variable (c : Config) (manifest : Option Manifest) (files : List SourceFile)

theorem surveyRepository_nil : surveyRepository c manifest false []
    = .ofBatch c manifest ⟨[], [], false⟩ := surveyRepository_eq c manifest []

theorem sourceFiles_eq_flatMap :
    (surveyRepository c manifest false files).sourceFiles
      = files.flatMap fun f => (surveyRepository c manifest false [f]).sourceFiles :=
  eq_flatMap_of_append (fun files => (surveyRepository c manifest false files).sourceFiles)
    (by rw [surveyRepository_nil]; rfl) (sourceFiles_append c manifest) files

theorem skippedFiles_eq_flatMap :
    (surveyRepository c manifest false files).skippedFiles
      = files.flatMap fun f => (surveyRepository c manifest false [f]).skippedFiles :=
  eq_flatMap_of_append (fun files => (surveyRepository c manifest false files).skippedFiles)
    (by rw [surveyRepository_nil]; rfl) (skippedFiles_append c manifest) files

theorem components_eq_flatMap :
    (surveyRepository c manifest false files).components
      = files.flatMap fun f => (surveyRepository c manifest false [f]).components :=
  eq_flatMap_of_append (fun files => (surveyRepository c manifest false files).components)
    (by rw [surveyRepository_nil]; rfl) (components_append c manifest) files

theorem apiEndpoints_eq_flatMap :
    (surveyRepository c manifest false files).apiEndpoints
      = files.flatMap fun f => (surveyRepository c manifest false [f]).apiEndpoints :=
  eq_flatMap_of_append (fun files => (surveyRepository c manifest false files).apiEndpoints)
    (by rw [surveyRepository_nil]; rfl) (apiEndpoints_append c manifest) files

end Share

/-! ## Interrupted surveys -/

section Interrupted

variable (c : Config) (manifest : Option Manifest)

/-- A survey shows what a batch found, not whether it was cut short. -/
theorem ofBatch_congr {b b' : BatchResult} (hparsed : b.parsed = b'.parsed)
    (hskipped : b.skipped = b'.skipped) :
    AnalysisResult.ofBatch c manifest b = .ofBatch c manifest b' := by
  simp only [AnalysisResult.ofBatch, hparsed, hskipped]

/-- However a batch was interrupted, its survey is that of the files that were
finished. -/
theorem ofBatch_of_run {files : List SourceFile} {flag : Option Bool} {w : Workers}
    (hrun : Workers.Run c.parser c.parallel files flag w) :
    AnalysisResult.ofBatch c manifest w.result
      = surveyRepository c manifest false (w.finishedFiles files) := by
  obtain ⟨hparsed, hskipped⟩ := hrun.inv.records
  rw [surveyRepository_eq]
  exact ofBatch_congr c manifest hparsed hskipped

theorem surveyRepository_stopped (files : List SourceFile) :
    surveyRepository c manifest true files = surveyRepository c manifest false [] := by
  have hnone := outcomes_steps_of_stopped c.parser (fun _ => false)
    (show (Batch.start true).stopped = true from rfl) files
  rw [surveyRepository_nil, surveyRepository, runBatch_eq_steps, Batch.result, hnone]
  refine ofBatch_congr c manifest ?_ ?_ <;>
    simp [BatchResult.ofOutcomes, Batch.start]

end Interrupted

/-- The survey of two lists of files in a row: records in a row, counts added,
technologies united, and the dependencies of either. What a file contributes
depends on no other file, so it stays the same whatever is added, removed or
broken beside it; and if the batch is interrupted, in whatever order its steps
came, the survey is that of the files that were finished. -/
theorem survey_append (c : Config) (manifest : Option Manifest) (xs ys : List SourceFile) :
    (surveyRepository c manifest false (xs ++ ys)).sourceFiles
        = (surveyRepository c manifest false xs).sourceFiles
          ++ (surveyRepository c manifest false ys).sourceFiles
      ∧ (surveyRepository c manifest false (xs ++ ys)).skippedFiles
        = (surveyRepository c manifest false xs).skippedFiles
          ++ (surveyRepository c manifest false ys).skippedFiles
      ∧ (surveyRepository c manifest false (xs ++ ys)).components
        = (surveyRepository c manifest false xs).components
          ++ (surveyRepository c manifest false ys).components
      ∧ (surveyRepository c manifest false (xs ++ ys)).apiEndpoints
        = (surveyRepository c manifest false xs).apiEndpoints
          ++ (surveyRepository c manifest false ys).apiEndpoints
      ∧ (surveyRepository c manifest false (xs ++ ys)).metrics.IsSum
        (surveyRepository c manifest false xs).metrics
        (surveyRepository c manifest false ys).metrics
      ∧ (surveyRepository c manifest false (xs ++ ys)).technologies
        = sortedSet ((surveyRepository c manifest false xs).technologies
          ++ (surveyRepository c manifest false ys).technologies)
      ∧ (∀ label, label ∈ (surveyRepository c manifest false (xs ++ ys)).technologies
        ↔ label ∈ (surveyRepository c manifest false xs).technologies
          ∨ label ∈ (surveyRepository c manifest false ys).technologies)
      ∧ (surveyRepository c manifest false (xs ++ ys)).dependencies
        = (surveyRepository c manifest false xs).dependencies
      ∧ (surveyRepository c manifest false (xs ++ ys)).dependencies
        = (surveyRepository c manifest false ys).dependencies
      ∧ (∀ files, (surveyRepository c manifest false files).sourceFiles
          = files.flatMap (fun f => (surveyRepository c manifest false [f]).sourceFiles)
        ∧ (surveyRepository c manifest false files).skippedFiles
          = files.flatMap (fun f => (surveyRepository c manifest false [f]).skippedFiles)
        ∧ (surveyRepository c manifest false files).components
          = files.flatMap (fun f => (surveyRepository c manifest false [f]).components)
        ∧ (surveyRepository c manifest false files).apiEndpoints
          = files.flatMap (fun f => (surveyRepository c manifest false [f]).apiEndpoints))
      ∧ (∀ files flag w, Workers.Run c.parser c.parallel files flag w → w.Over →
        AnalysisResult.ofBatch c manifest w.result
          = surveyRepository c manifest false (w.finishedFiles files))
      ∧ ∀ files, surveyRepository c manifest true files = surveyRepository c manifest false [] := by
  have htechnologies := technologies_append c manifest xs ys
  refine ⟨sourceFiles_append c manifest xs ys, skippedFiles_append c manifest xs ys,
    components_append c manifest xs ys, apiEndpoints_append c manifest xs ys,
    isSum_metrics c manifest xs ys, htechnologies, fun label => ?_, rfl, rfl, fun files => ?_,
    fun files flag w hrun _ => ofBatch_of_run c manifest hrun, surveyRepository_stopped c manifest⟩
  · rw [htechnologies, mem_sortedSet, List.mem_append]
  · exact ⟨sourceFiles_eq_flatMap c manifest files, skippedFiles_eq_flatMap c manifest files,
      components_eq_flatMap c manifest files, apiEndpoints_eq_flatMap c manifest files⟩

end CodeSurvey
