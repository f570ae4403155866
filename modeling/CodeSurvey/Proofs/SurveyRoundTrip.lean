import CodeSurvey.Proofs.JsonRecord
import CodeSurvey.Report.Format

/-!
# Surveys written as JSON and read back

The text that is written for a survey is read back as the same survey
(`AnalysisResult.parse_render_json`). What a record carries is shown record by
record, from the innermost outwards, so a field that is added to an encoder or to
a decoder alone is missed in the proof of its own record.

`IsRepresentable` says of each record what the types of its fields have room for:
numbers of 64 or 32 bits, maps and sets in the order of their keys. The average
complexity comes back as the number that its text denotes (`Json.Denotes`), which is
the number itself unless the roundings of the reader lead to a neighbour.
-/

namespace CodeSurvey

open Json (Carries carries_count carries_natural carries_list carries_textSet carries_map valueOf
  fits_fieldsOf)

variable {denoted : Double → Double}

/-! ## Records of a file -/

namespace FunctionRecord

structure IsRepresentable (f : FunctionRecord) : Prop where
  lineStart : f.lineStart ≤ Json.maxWord
  lineEnd : f.lineEnd ≤ Json.maxWord
  complexity : f.complexity ≤ Json.maxHalfWord

theorem IsRepresentable.carries {f : FunctionRecord} (h : f.IsRepresentable) (n : Nat) :
    Carries denoted (n + 2) ofJson? f.toJson f := by
  have hcomplexity : ∀ n, Carries denoted n _ _ f.complexity :=
    fun n => carries_natural n (by decide) h.complexity
  constructor
  · apply fits_fieldsOf
    simp [(carries_count _ h.lineStart).fits, (carries_count _ h.lineEnd).fits,
      (hcomplexity _).fits]
  · simp [ofJson?, toJson, valueOf, (carries_count 0 h.lineStart).reads,
      (carries_count 0 h.lineEnd).reads, (hcomplexity 0).reads]

end FunctionRecord

namespace ClassRecord

structure IsRepresentable (c : ClassRecord) : Prop where
  lineStart : c.lineStart ≤ Json.maxWord
  lineEnd : c.lineEnd ≤ Json.maxWord

theorem IsRepresentable.carries {c : ClassRecord} (h : c.IsRepresentable) (n : Nat) :
    Carries denoted (n + 2) ofJson? c.toJson c := by
  constructor
  · apply fits_fieldsOf
    simp [(carries_count _ h.lineStart).fits, (carries_count _ h.lineEnd).fits]
  · simp [ofJson?, toJson, valueOf, (carries_count 0 h.lineStart).reads,
      (carries_count 0 h.lineEnd).reads]

end ClassRecord

theorem ImportKind.ofJson?_word (k : ImportKind) :
    ofJson? ((Json.string k.word).reread denoted) = some k := by
  cases k <;> simp [ofJson?, word]

theorem ExportKind.ofJson?_word (k : ExportKind) :
    ofJson? ((Json.string k.word).reread denoted) = some k := by
  cases k <;> simp [ofJson?, word]

theorem ImportRecord.carries (i : ImportRecord) (n : Nat) :
    Carries denoted (n + 2) ofJson? i.toJson i := by
  rw [toJson, Json.object_eq_fieldsOf]
  constructor
  · apply fits_fieldsOf
    simp
  · simp [ofJson?, valueOf, ImportKind.ofJson?_word]

namespace ExportRecord

structure IsRepresentable (e : ExportRecord) : Prop where
  line : e.line ≤ Json.maxWord

theorem IsRepresentable.carries {e : ExportRecord} (h : e.IsRepresentable) (n : Nat) :
    Carries denoted (n + 1) ofJson? e.toJson e := by
  rw [toJson, Json.object_eq_fieldsOf]
  constructor
  · apply fits_fieldsOf
    simp [(carries_count _ h.line).fits]
  · simp [ofJson?, valueOf, ExportKind.ofJson?_word, (carries_count 0 h.line).reads]

end ExportRecord

theorem Language.ofWord?_word (l : Language) : ofWord? l.word = some l := by
  cases l <;> simp [word, ofWord?, all]

theorem Language.word_inj {l k : Language} : l.word = k.word ↔ l = k := by
  refine ⟨fun h => ?_, congrArg word⟩
  have hread := ofWord?_word l
  rw [h, ofWord?_word] at hread
  exact (Option.some.inj hread).symm

theorem Language.ofJson?_toJson (l : Language) : ofJson? (l.toJson.reread denoted) = some l :=
  ofWord?_word l

theorem Language.fits_toJson (l : Language) (n : Nat) : l.toJson.Fits denoted n :=
  Json.fits_string n l.word

namespace ParsedFile

structure IsRepresentable (p : ParsedFile) : Prop where
  linesOfCode : p.linesOfCode ≤ Json.maxWord
  functions : ∀ f ∈ p.functions, f.IsRepresentable
  classes : ∀ c ∈ p.classes, c.IsRepresentable
  exports : ∀ e ∈ p.exports, e.IsRepresentable
  totalComplexity : p.totalComplexity ≤ Json.maxHalfWord

theorem IsRepresentable.carries {p : ParsedFile} (h : p.IsRepresentable) (n : Nat) :
    Carries denoted (n + 4) ofJson? p.toJson p := by
  have hfunctions : ∀ n, Carries denoted (n + 3) _ _ p.functions :=
    fun n => carries_list fun f hf => (h.functions f hf).carries n
  have hclasses : ∀ n, Carries denoted (n + 3) _ _ p.classes :=
    fun n => carries_list fun c hc => (h.classes c hc).carries n
  have himports : ∀ n, Carries denoted (n + 3) _ _ p.imports :=
    fun n => carries_list fun i _ => i.carries n
  have hexports : ∀ n, Carries denoted (n + 2) _ _ p.exports :=
    fun n => carries_list fun e he => (h.exports e he).carries n
  have hcomplexity : ∀ n, Carries denoted n _ _ p.totalComplexity :=
    fun n => carries_natural n (by decide) h.totalComplexity
  rw [toJson, Json.object_eq_fieldsOf]
  constructor
  · apply fits_fieldsOf
    simp [Language.fits_toJson, (carries_count _ h.linesOfCode).fits, (hfunctions _).fits,
      (hclasses _).fits, (himports _).fits, (hexports _).fits, (hcomplexity _).fits]
  · simp [ofJson?, valueOf, Language.ofJson?_toJson, (carries_count 0 h.linesOfCode).reads,
      (hfunctions 0).reads, (hclasses 0).reads, (himports 0).reads, (hexports 0).reads,
      (hcomplexity 0).reads]

end ParsedFile

/-! ## Records of a repository -/

theorem ComponentKind.ofJson?_word (k : ComponentKind) :
    ofJson? ((Json.string k.word).reread denoted) = some k := by
  cases k <;> simp [ofJson?, word]

theorem ComponentRole.ofJson?_word (r : ComponentRole) :
    ofJson? ((Json.string r.word).reread denoted) = some r := by
  cases r <;> simp [ofJson?, word]

theorem HttpMethod.ofWord?_word (m : HttpMethod) : ofWord? m.word = some m := by
  cases m <;> simp [ofWord?, word, all]

theorem SkipReason.ofJson?_word (r : SkipReason) :
    ofJson? ((Json.string r.word).reread denoted) = some r := by
  cases r <;> simp [ofJson?, word]

theorem ComponentRecord.carries (c : ComponentRecord) (n : Nat) :
    Carries denoted (n + 1) ofJson? c.toJson c := by
  rw [toJson, Json.object_eq_fieldsOf]
  constructor
  · apply fits_fieldsOf
    simp
  · simp [ofJson?, valueOf, ComponentKind.ofJson?_word, ComponentRole.ofJson?_word]

theorem SkippedFile.carries (s : SkippedFile) (n : Nat) :
    Carries denoted (n + 1) ofJson? s.toJson s := by
  constructor
  · apply fits_fieldsOf
    simp
  · simp [ofJson?, toJson, valueOf, SkipReason.ofJson?_word]

theorem Architecture.carries (a : Architecture) (n : Nat) :
    Carries denoted (n + 1) ofJson? a.toJson a := by
  constructor
  · apply fits_fieldsOf
    simp
  · simp [ofJson?, toJson, valueOf]

namespace ApiEndpointRecord

structure IsRepresentable (e : ApiEndpointRecord) : Prop where
  lineNumber : e.lineNumber ≤ Json.maxWord

theorem IsRepresentable.carries {e : ApiEndpointRecord} (h : e.IsRepresentable) (n : Nat) :
    Carries denoted (n + 1) ofJson? e.toJson e := by
  rw [toJson, Json.object_eq_fieldsOf]
  constructor
  · apply fits_fieldsOf
    simp [(carries_count _ h.lineNumber).fits]
  · simp [ofJson?, valueOf, HttpMethod.ofWord?_word, (carries_count 0 h.lineNumber).reads]

end ApiEndpointRecord

/-- The names of a section are keys, so the section has to be in their order. -/
theorem Manifest.carries_section {pairs : List (String × String)}
    (h : Sorted (pairs.map Prod.fst)) (n : Nat) :
    Carries denoted (n + 1) (Json.map? Json.string?) (sectionJson pairs) pairs := by
  have hpairs : Carries denoted (n + 1) (Json.map? Json.string?)
      (.object (pairs.map fun p => (p.1, .string p.2))) (mergePairs pairs []) :=
    carries_map fun p _ => ⟨Json.fits_string n p.2, Json.string?_reread p.2⟩
  rwa [mergePairs_of_sorted h] at hpairs

structure Categories.IsRepresentable (c : Categories) : Prop where
  frameworks : Sorted c.frameworks
  uiLibraries : Sorted c.uiLibraries
  databases : Sorted c.databases

namespace DependencySummary

structure IsRepresentable (d : DependencySummary) : Prop where
  production : Sorted (d.production.map Prod.fst)
  development : Sorted (d.development.map Prod.fst)
  totalCount : d.totalCount ≤ Json.maxWord
  categories : d.categories.IsRepresentable

theorem IsRepresentable.carries {d : DependencySummary} (h : d.IsRepresentable) (n : Nat) :
    Carries denoted (n + 2) ofJson? d.toJson d := by
  have hproduction : ∀ n, Carries denoted (n + 1) _ _ d.production :=
    fun n => Manifest.carries_section h.production n
  have hdevelopment : ∀ n, Carries denoted (n + 1) _ _ d.development :=
    fun n => Manifest.carries_section h.development n
  have hframeworks : Carries denoted 1 _ _ d.categories.frameworks :=
    carries_textSet 0 h.categories.frameworks
  have huiLibraries : Carries denoted 1 _ _ d.categories.uiLibraries :=
    carries_textSet 0 h.categories.uiLibraries
  have hdatabases : Carries denoted 1 _ _ d.categories.databases :=
    carries_textSet 0 h.categories.databases
  rw [toJson, Json.object_eq_fieldsOf]
  constructor
  · apply fits_fieldsOf
    simp [Categories.fields, (hproduction _).fits, (hdevelopment _).fits,
      (carries_count _ h.totalCount).fits]
  · simp [ofJson?, Categories.ofJson?, Categories.fields, valueOf, (hproduction 0).reads,
      (hdevelopment 0).reads, (carries_count 0 h.totalCount).reads, hframeworks.reads,
      huiLibraries.reads, hdatabases.reads]

end DependencySummary

namespace Metrics

/-- Counts come back from what is found for each language, if they are in order. -/
theorem filterMap_find {find : Language → Option Nat} {counts : List (Language × Nat)}
    {languages : List Language} (h : List.Sublist (counts.map Prod.fst) languages)
    (hnodup : languages.Nodup) (hfind : ∀ l ∈ languages, find l = counts.lookup l) :
    (languages.filterMap fun l => (find l).map (Prod.mk l)) = counts := by
  induction languages generalizing counts with
  | nil =>
      rw [List.sublist_nil, List.map_eq_nil_iff] at h
      rw [h]
      rfl
  | cons l languages ih =>
      obtain ⟨hnew, hrest⟩ := List.nodup_cons.mp hnodup
      have hhead := hfind l List.mem_cons_self
      have htail := fun l' hl' => hfind l' (List.mem_cons_of_mem l hl')
      rcases List.sublist_cons_iff.mp h with hskip | ⟨keys, hkeys, hsub⟩
      · rw [lookup_eq_none_of_notMem fun hl => hnew (hskip.subset hl)] at hhead
        rw [List.filterMap_cons_none (by rw [hhead]; rfl)]
        exact ih hskip hrest htail
      · obtain ⟨⟨l, n⟩, counts, rfl, rfl, rfl⟩ := List.map_eq_cons_iff.mp hkeys
        rw [List.lookup_cons_self] at hhead
        rw [List.filterMap_cons_some (by rw [hhead]; rfl)]
        refine congrArg _ (ih hsub hrest fun l' hl' => (htail l' hl').trans ?_)
        rw [lookup_cons_eq_ite, if_neg fun heq : l' = l => hnew (heq ▸ hl')]

/-- The counts under the words of their languages. -/
def wordCounts (counts : List (Language × Nat)) : List (String × Nat) :=
  counts.map fun p => (p.1.word, p.2)

theorem lookup_wordCounts (l : Language) (counts : List (Language × Nat)) :
    (wordCounts counts).lookup l.word = counts.lookup l := by
  induction counts with
  | nil => rfl
  | cons p counts ih =>
      obtain ⟨k, n⟩ := p
      rw [wordCounts, List.map_cons, lookup_cons_eq_ite, lookup_cons_eq_ite]
      simp only [Language.word_inj]
      exact congrArg (ite (l = k) (some n)) ih

theorem nodup_wordCounts {counts : List (Language × Nat)} (h : (counts.map Prod.fst).Nodup) :
    ((wordCounts counts).map Prod.fst).Nodup :=
  List.pairwise_map.mpr (List.pairwise_map.mpr
    ((List.pairwise_map.mp h).imp fun hne => mt Language.word_inj.mp hne))

/-- Words of languages are read as languages, with their counts. -/
theorem exists_mapM_ofWord? {pairs : List (String × Nat)}
    (h : ∀ p ∈ pairs, ∃ l : Language, p.1 = l.word) :
    ∃ counts, pairs = wordCounts counts
      ∧ (pairs.mapM fun p => (Language.ofWord? p.1).map fun l => (l, p.2)) = some counts := by
  induction pairs with
  | nil => exact ⟨[], rfl, rfl⟩
  | cons p pairs ih =>
      obtain ⟨counts, rfl, hread⟩ := ih fun q hq => h q (List.mem_cons_of_mem _ hq)
      obtain ⟨word, n⟩ := p
      obtain ⟨l, rfl⟩ : ∃ l : Language, word = l.word := h _ List.mem_cons_self
      refine ⟨(l, n) :: counts, rfl, ?_⟩
      rw [List.mapM_cons, hread, Language.ofWord?_word]
      rfl

/-- The counts are written under words and come back in the order of the words;
the decoder asks for the languages in their own order. -/
theorem carries_breakdown {counts : List (Language × Nat)}
    (hkeys : List.Sublist (counts.map Prod.fst) Language.all)
    (hcounts : ∀ p ∈ counts, p.2 ≤ Json.maxWord) (n : Nat) :
    Carries denoted (n + 1) breakdownOfJson?
      (.object (counts.map fun p => (p.1.word, .natural p.2))) counts := by
  have hwords : Carries denoted (n + 1) (Json.map? Json.count?)
      (.object ((wordCounts counts).map fun p => (p.1, .natural p.2)))
      (mergePairs (wordCounts counts) []) := by
    refine carries_map fun p hp => carries_count n ?_
    obtain ⟨q, hq, rfl⟩ := List.mem_map.mp hp
    exact hcounts q hq
  have hnodup := nodup_wordCounts (hkeys.nodup (by decide))
  obtain ⟨decoded, hdecoded, hread⟩ : ∃ decoded,
      mergePairs (wordCounts counts) [] = wordCounts decoded
        ∧ ((mergePairs (wordCounts counts) []).mapM fun p =>
          (Language.ofWord? p.1).map fun l => (l, p.2)) = some decoded := by
    refine exists_mapM_ofWord? fun p hp => ?_
    rcases mem_of_mem_mergePairs hp with hp | hp
    · obtain ⟨q, -, rfl⟩ := List.mem_map.mp hp
      exact ⟨q.1, rfl⟩
    · cases hp
  have hfind : ∀ l ∈ Language.all, decoded.lookup l = counts.lookup l := by
    intro l _
    rw [← lookup_wordCounts, ← hdecoded, lookup_mergePairs _ hnodup, lookup_wordCounts]
    exact Option.or_none
  have hcounts := filterMap_find hkeys (by decide) hfind
  have htexts : ((wordCounts counts).map fun p => (p.1, Json.natural p.2))
      = counts.map fun p => (p.1.word, .natural p.2) := List.map_map
  rw [htexts] at hwords
  refine ⟨hwords.fits, ?_⟩
  have hdecode : ∀ v, breakdownOfJson? v = (Json.map? Json.count? v).bind fun pairs =>
      (pairs.mapM fun p => (Language.ofWord? p.1).map fun l => (l, p.2)).bind fun found =>
        some (Language.all.filterMap fun l => (found.lookup l).map (Prod.mk l)) := fun _ => rfl
  rw [hdecode, hwords.reads, Option.bind_some, hread, Option.bind_some, hcounts]

structure IsRepresentable (m : Metrics) : Prop where
  totalFiles : m.totalFiles ≤ Json.maxWord
  totalFunctions : m.totalFunctions ≤ Json.maxWord
  totalClasses : m.totalClasses ≤ Json.maxWord
  totalComponents : m.totalComponents ≤ Json.maxWord
  totalApiEndpoints : m.totalApiEndpoints ≤ Json.maxWord
  totalLines : m.totalLines ≤ Json.maxWord
  languages : List.Sublist (m.languageBreakdown.map Prod.fst) Language.all
  languageCounts : ∀ p ∈ m.languageBreakdown, p.2 ≤ Json.maxWord

theorem IsRepresentable.carries {m : Metrics} (h : m.IsRepresentable)
    (hx : Json.Denotes m.averageComplexity (denoted m.averageComplexity)) (n : Nat) :
    Carries denoted (n + 2) ofJson? m.toJson
      { m with averageComplexity := denoted m.averageComplexity } := by
  have hbreakdown : ∀ n, Carries denoted (n + 1) _ _ m.languageBreakdown :=
    fun n => carries_breakdown h.languages h.languageCounts n
  have haverage : ∀ n, Carries denoted n Json.fraction? (.fraction m.averageComplexity)
      (denoted m.averageComplexity) := fun n => ⟨by rwa [Json.Fits], rfl⟩
  rw [toJson, Json.object_eq_fieldsOf]
  constructor
  · apply fits_fieldsOf
    simp [(carries_count _ h.totalFiles).fits, (carries_count _ h.totalFunctions).fits,
      (carries_count _ h.totalClasses).fits, (carries_count _ h.totalComponents).fits,
      (carries_count _ h.totalApiEndpoints).fits, (carries_count _ h.totalLines).fits,
      (haverage _).fits, (hbreakdown _).fits]
  · simp [ofJson?, valueOf, (carries_count 0 h.totalFiles).reads,
      (carries_count 0 h.totalFunctions).reads, (carries_count 0 h.totalClasses).reads,
      (carries_count 0 h.totalComponents).reads, (carries_count 0 h.totalApiEndpoints).reads,
      (carries_count 0 h.totalLines).reads, (haverage 0).reads, (hbreakdown 0).reads]

end Metrics

/-! ## Surveys -/

namespace AnalysisResult

structure IsRepresentable (r : AnalysisResult) : Prop where
  metrics : r.metrics.IsRepresentable
  dependencies : r.dependencies.IsRepresentable
  technologies : Sorted r.technologies
  apiEndpoints : ∀ e ∈ r.apiEndpoints, e.IsRepresentable
  sourceFiles : ∀ p ∈ r.sourceFiles, p.IsRepresentable

/-- The survey as it comes back: its average is what the text of the average denotes. -/
def withAverage (r : AnalysisResult) (x : Double) : AnalysisResult :=
  { r with metrics := { r.metrics with averageComplexity := x } }

theorem IsRepresentable.carries {r : AnalysisResult} (h : r.IsRepresentable)
    (hx : Json.Denotes r.metrics.averageComplexity (denoted r.metrics.averageComplexity))
    (n : Nat) : Carries denoted (n + 6) ofJson? r.toJson
      (r.withAverage (denoted r.metrics.averageComplexity)) := by
  have hmetrics : ∀ n, Carries denoted (n + 2) _ _ _ := fun n => h.metrics.carries hx n
  have hdependencies : ∀ n, Carries denoted (n + 2) _ _ r.dependencies :=
    fun n => h.dependencies.carries n
  have htechnologies : Carries denoted 1 _ _ r.technologies := carries_textSet 0 h.technologies
  have harchitecture : ∀ n, Carries denoted (n + 1) _ _ r.architecture := r.architecture.carries
  have hendpoints : ∀ n, Carries denoted (n + 2) _ _ r.apiEndpoints :=
    fun n => carries_list fun e he => (h.apiEndpoints e he).carries n
  have hcomponents : ∀ n, Carries denoted (n + 2) _ _ r.components :=
    fun n => carries_list fun c _ => c.carries n
  have hfiles : ∀ n, Carries denoted (n + 5) _ _ r.sourceFiles :=
    fun n => carries_list fun p hp => (h.sourceFiles p hp).carries n
  have hskipped : ∀ n, Carries denoted (n + 2) _ _ r.skippedFiles :=
    fun n => carries_list fun s _ => s.carries n
  -- without skipped files there is no field, and the decoder takes its default
  have hskippedFiles : ((if r.skippedFiles = [] then none
      else some (Json.array (r.skippedFiles.map (·.toJson)))).elim (some []) fun v =>
        Json.list? SkippedFile.ofJson? (v.reread denoted)) = some r.skippedFiles := by
    split
    case isTrue hnone => exact congrArg some hnone.symm
    case isFalse => exact (hskipped 0).reads
  constructor
  · apply fits_fieldsOf
    simp [(hmetrics _).fits, (hdependencies _).fits, (harchitecture _).fits,
      (hendpoints _).fits, (hcomponents _).fits, (hfiles _).fits, (hskipped _).fits]
  · simp [ofJson?, toJson, valueOf, (hmetrics 0).reads, (hdependencies 0).reads,
      htechnologies.reads, (harchitecture 0).reads, (hendpoints 0).reads,
      (hcomponents 0).reads, (hfiles 0).reads, hskippedFiles, withAverage]

/-- A survey that was written as JSON is read back as it was: names, texts and
comments with whatever characters, fields with and without a value, the lists,
the maps and the skipped files; the average is the number that its text denotes.
So a survey whose average is denoted by its own text is read back as itself. -/
theorem parse_render_json {r : AnalysisResult} {x : Double} (h : r.IsRepresentable)
    (hx : Json.Denotes r.metrics.averageComplexity x) (colour : Bool) :
    ∃ v, Json.parse (r.render .json colour) = .ok v ∧ ofJson? v = some (r.withAverage x) := by
  have hcarries : Carries (fun _ => x) (Json.nestingLimit - 1) ofJson? r.toJson
      (r.withAverage x) := h.carries hx 121
  have hbreak : ∀ c ∈ "\n".toList, JsonText.isBlank c = true := by simp [JsonText.isBlank]
  exact ⟨_, Json.parse_pretty hcarries.fits hbreak, hcarries.reads⟩

def sampleSurvey : AnalysisResult where
  metrics := {
    totalFiles := 1
    totalFunctions := 1
    totalClasses := 1
    totalComponents := 1
    totalApiEndpoints := 1
    totalLines := 12
    averageComplexity := ⟨false, 6755399441055744, -52⟩
    languageBreakdown := [(.typescript, 1), (.unknown, 2)] }
  dependencies := {
    production := [("next", "^14.0.0"), ("zod", "*")]
    development := []
    all := ["next", "zod"]
    totalCount := 2
    categories := ⟨["next"], [], []⟩ }
  technologies := ["Next.js", "TypeScript"]
  architecture := ⟨"web", "Next.js", "TypeScript", none, some "", none, none⟩
  apiEndpoints := [⟨.get, "/api/users", "app/api/users/route.ts", 3⟩]
  components := [⟨"Page", .functional, .page, "app/page.tsx"⟩]
  sourceFiles := [{
    path := "app/api/users/route.ts"
    language := .typescript
    linesOfCode := 12
    functions := [⟨"GET", ["request"], none, 3, 5, 2, true, true, some "Say \"\\\t\x01é\"."⟩]
    classes := [
      ⟨"Plain", [], [], none, none, 7, 7, false, none⟩,
      ⟨"Empty", ["run"], ["x"], some "Plain", some [], 8, 9, true, none⟩,
      ⟨"Full", [], [], none, some ["Runs"], 10, 12, true, none⟩]
    imports := [⟨"zod", ["z"], .static⟩]
    exports := [⟨"GET", .named, 3⟩]
    totalComplexity := 2 }]
  skippedFiles := [⟨"big.ts", .tooLarge, none⟩, ⟨"odd.ts", .parseFailure, some "1:1"⟩]

theorem isRepresentable_sampleSurvey : sampleSurvey.IsRepresentable where
  metrics := by constructor <;> decide
  dependencies := ⟨by decide, by decide, by decide, by constructor <;> decide⟩
  technologies := by decide
  apiEndpoints := List.forall_mem_singleton.mpr ⟨by decide⟩
  sourceFiles := by
    have hclass : ∀ c ∈ sampleSurvey.sourceFiles.flatMap (·.classes),
        c.lineStart ≤ Json.maxWord ∧ c.lineEnd ≤ Json.maxWord := by decide
    refine List.forall_mem_singleton.mpr ⟨by decide, ?_, fun c hc => ?_, ?_, by decide⟩
    · exact List.forall_mem_singleton.mpr ⟨by decide, by decide, by decide⟩
    · have hlines := hclass c (List.mem_append_left _ hc)
      exact ⟨hlines.1, hlines.2⟩
    · exact List.forall_mem_singleton.mpr ⟨by decide⟩

theorem denotes_sampleSurvey : Json.Denotes sampleSurvey.metrics.averageComplexity
    sampleSurvey.metrics.averageComplexity := by
  refine @JsonText.denotes_of_number _ _ ['1', '.', '5'] rfl
    ⟨⟨'1', ['.', '5'], rfl, by decide⟩, by simp [JsonText.isBlank]⟩ fun line column =>
      ⟨⟨[], line, column + 1 + 1 + 1⟩, ?_, rfl⟩
  have hpoint : JsonText.advance ⟨['.', '5'], line, column + 1⟩
      = ⟨['5'], line, column + 1 + 1⟩ := rfl
  calc JsonText.number false ⟨['1', '.', '5'], line, column⟩
      = JsonText.decimals false 1 0 ⟨['.', '5'], line, column + 1⟩ := rfl
    _ = JsonText.fraction false 15 (-1) ⟨[], line, column + 1 + 1 + 1⟩ := by
        rw [JsonText.decimals, hpoint]
        rfl
    _ = .ok (.fraction sampleSurvey.metrics.averageComplexity,
        ⟨[], line, column + 1 + 1 + 1⟩) := rfl

theorem parse_render_json_sampleSurvey : sampleSurvey.IsRepresentable
    ∧ Json.Denotes sampleSurvey.metrics.averageComplexity sampleSurvey.metrics.averageComplexity
    ∧ ∃ v, Json.parse (sampleSurvey.render .json false) = .ok v
      ∧ ofJson? v = some sampleSurvey :=
  ⟨isRepresentable_sampleSurvey, denotes_sampleSurvey,
    parse_render_json isRepresentable_sampleSurvey denotes_sampleSurvey false⟩

end AnalysisResult

end CodeSurvey
