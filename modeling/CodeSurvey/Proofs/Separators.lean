import CodeSurvey.Proofs.LastPlace
import CodeSurvey.Proofs.Survey

/-!
# Surveys and the spelling of paths

A path is read in three places, each with a splitting of its own: the language
of a file is read off the extension, the role of its components off its name and
its directories, and its route off both. A *renaming* of paths that none of the
three can tell apart (`Renaming.Unseen`) goes through a whole survey: it changes
the paths that the records show and nothing else (`surveyRepository_rename`).
The way there is the way of a survey - one file, then the batch, then what is
found in the records of the batch - with one lemma per step.

The renaming of interest writes a slash for every backslash
(`forwardSlashes`). Two of the three readings put the slashes in themselves, so
they only need that writing them twice changes nothing. The extension does not:
it takes either separator as it stands, and what it looks at is behind the last
of them, where nothing is rewritten (`behindLast_map`).
-/

namespace CodeSurvey

/-! ## Records under a renaming of paths -/

/-- A new path for every path. -/
abbrev Renaming := String → String

namespace Renaming

/-- No reading of a path tells it from its new path. -/
structure Unseen (g : Renaming) : Prop where
  classify : ∀ path, Language.classify (g path) = Language.classify path
  role : ∀ path, ComponentRole.ofPath (g path) = ComponentRole.ofPath path
  route : ∀ (c : RouteConfig) path, c.route? (g path) = c.route? path

end Renaming

def SourceFile.rename (g : Renaming) (f : SourceFile) : SourceFile := { f with path := g f.path }

def ParsedFile.rename (g : Renaming) (f : ParsedFile) : ParsedFile := { f with path := g f.path }

def SkippedFile.rename (g : Renaming) (s : SkippedFile) : SkippedFile :=
  { s with path := g s.path }

def ComponentRecord.rename (g : Renaming) (r : ComponentRecord) : ComponentRecord :=
  { r with file := g r.file }

def ApiEndpointRecord.rename (g : Renaming) (e : ApiEndpointRecord) : ApiEndpointRecord :=
  { e with sourceFile := g e.sourceFile }

def BatchResult.rename (g : Renaming) (b : BatchResult) : BatchResult :=
  { b with parsed := b.parsed.map (·.rename g), skipped := b.skipped.map (·.rename g) }

/-- A survey with new paths in its records. Its totals, its technologies, its
dependencies and its architecture show no path, so they stay. -/
def AnalysisResult.rename (g : Renaming) (r : AnalysisResult) : AnalysisResult :=
  { r with
    apiEndpoints := r.apiEndpoints.map (·.rename g)
    components := r.components.map (·.rename g)
    sourceFiles := r.sourceFiles.map (·.rename g)
    skippedFiles := r.skippedFiles.map (·.rename g) }

/-! ## Surveys under a renaming of paths -/

section Survey

variable {g : Renaming}

/-! ### One file -/

theorem Renaming.Unseen.language (hg : g.Unseen) (f : SourceFile) :
    (f.rename g).language = f.language := hg.classify f.path

/-- The language decides on the grammar and the content on all else, so a file
is parsed alike under both paths, and refused alike. -/
theorem analyze_rename (hg : g.Unseen) (c : ParserConfig) (f : SourceFile) :
    (f.rename g).analyze c = (f.analyze c).map (·.rename g) := by
  have hbytes : (f.rename g).bytes = f.bytes := rfl
  have hcontent : (f.rename g).content = f.content := rfl
  unfold SourceFile.analyze
  rw [hg.language f, hbytes, hcontent]
  cases f.language.dialect? with
  | none => rfl
  | some d =>
      dsimp only
      split
      · rfl
      · cases (Source.ofString f.content).parse? d <;> rfl

/-! ### The batch -/

/-- The two records that a file can have are renamed side by side. -/
theorem ofFiles_rename (hg : g.Unseen) (c : ParserConfig) (files : List SourceFile) :
    BatchResult.ofFiles c (files.map (·.rename g)) = (BatchResult.ofFiles c files).rename g := by
  simp only [BatchResult.ofFiles, BatchResult.rename, List.filterMap_map, List.map_filterMap,
    BatchResult.mk.injEq, and_true]
  constructor
  · congr 1
    funext f
    simp only [Function.comp_apply, analyze_rename hg]
    cases f.analyze c <;> rfl
  · congr 1
    funext f
    simp only [Function.comp_apply, analyze_rename hg]
    cases f.analyze c <;> rfl

/-! ### What is found in the records -/

theorem components_rename (hg : g.Unseen) (c : ComponentConfig) (f : ParsedFile) :
    (f.rename g).components c = (f.components c).map (·.rename g) := by
  have hrole : ComponentRole.ofPath (f.rename g).path = .ofPath f.path := hg.role f.path
  simp only [ParsedFile.components, hrole, List.map_append, List.map_map]
  rfl

theorem detectComponents_rename (hg : g.Unseen) (c : ComponentConfig) (files : List ParsedFile) :
    detectComponents c (files.map (·.rename g)) = (detectComponents c files).map (·.rename g) := by
  simp only [detectComponents, List.flatMap_map, List.map_flatMap, components_rename hg]

theorem endpoints_rename (hg : g.Unseen) (c : RouteConfig) (f : ParsedFile) :
    (f.rename g).endpoints c = (f.endpoints c).map (·.rename g) := by
  have hroute : c.route? (f.rename g).path = c.route? f.path := hg.route c f.path
  unfold ParsedFile.endpoints
  rw [hroute]
  cases c.route? f.path with
  | none => rfl
  | some route =>
      rw [List.map_filterMap]
      refine List.filterMap_congr fun e _ => ?_
      split
      · rw [Option.map_map]
        rfl
      · rfl

theorem detectEndpoints_rename (hg : g.Unseen) (c : RouteConfig) (files : List ParsedFile) :
    detectEndpoints c (files.map (·.rename g)) = (detectEndpoints c files).map (·.rename g) := by
  simp only [detectEndpoints, List.flatMap_map, List.map_flatMap, endpoints_rename hg]

/-! ### Totals and technologies -/

theorem totalOf_map {α β : Type} (f : β → Nat) (h : α → β) (as : List α) :
    totalOf f (as.map h) = totalOf (fun a => f (h a)) as := by
  induction as with
  | nil => rfl
  | cons a as ih => rw [List.map_cons, totalOf, totalOf, ih]

/-- Only the languages of the files without a record are read off their paths. -/
theorem metrics_rename (hg : g.Unseen) (files : List ParsedFile) (skipped : List SkippedFile)
    (components endpoints : Nat) :
    Metrics.ofFiles (files.map (·.rename g)) (skipped.map (·.rename g)) components endpoints
      = Metrics.ofFiles files skipped components endpoints := by
  have hskipped : ∀ s : SkippedFile, Language.classify (s.rename g).path = .classify s.path :=
    fun s => hg.classify s.path
  simp only [Metrics.ofFiles, totalOf_map, List.length_map, List.map_map, Function.comp_def,
    hskipped]
  rfl

theorem detectTechnologies_rename (p : Patterns) (m : Manifest) (files : List ParsedFile) :
    detectTechnologies p m (files.map (·.rename g)) = detectTechnologies p m files := by
  simp only [detectTechnologies, List.filterMap_map]
  rfl

theorem ofBatch_rename (hg : g.Unseen) (c : Config) (manifest : Option Manifest)
    (b : BatchResult) :
    AnalysisResult.ofBatch c manifest (b.rename g) = (AnalysisResult.ofBatch c manifest b).rename g
      := by
  simp only [AnalysisResult.ofBatch, BatchResult.rename, detectComponents_rename hg,
    detectEndpoints_rename hg, AnalysisResult.ofParts, AnalysisResult.rename, List.length_map,
    metrics_rename hg, detectTechnologies_rename]

/-- A renaming that no reading of a path sees goes through a survey. -/
theorem surveyRepository_rename (hg : g.Unseen) (c : Config) (manifest : Option Manifest)
    (stopped : Bool) (files : List SourceFile) :
    surveyRepository c manifest stopped (files.map (·.rename g))
      = (surveyRepository c manifest stopped files).rename g := by
  cases stopped with
  | false => rw [surveyRepository_eq, surveyRepository_eq, ofFiles_rename hg, ofBatch_rename hg]
  | true =>
      have hnone : (⟨[], [], false⟩ : BatchResult).rename g = ⟨[], [], false⟩ := rfl
      rw [surveyRepository_stopped, surveyRepository_stopped, surveyRepository_nil,
        ← ofBatch_rename hg, hnone]

end Survey

/-! ## Slashes for backslashes -/

/-- A path with a slash for every backslash. -/
def forwardSlashes (path : String) : String := String.ofList (withSlashes path)

theorem toList_forwardSlashes (path : String) : (forwardSlashes path).toList = withSlashes path :=
  String.toList_ofList

/-- A path with slashes only is as it should be. -/
theorem withSlashes_forwardSlashes (path : String) :
    withSlashes (forwardSlashes path) = withSlashes path := by
  rw [withSlashes, toList_forwardSlashes, withSlashes, List.map_map]
  refine List.map_congr_left fun c _ => ?_
  by_cases hc : c = '\\'
  · subst hc
    rfl
  · simp [hc]

theorem extension?_forwardSlashes (path : String) :
    Language.extension? (forwardSlashes path) = Language.extension? path := by
  rw [Language.extension?, Language.extension?, toList_forwardSlashes, behindLast_withSlashes]

theorem unseen_forwardSlashes : Renaming.Unseen forwardSlashes where
  classify path := by rw [Language.classify, Language.classify, extension?_forwardSlashes]
  role path := by rw [ComponentRole.ofPath, ComponentRole.ofPath, withSlashes_forwardSlashes]
  route c path := by rw [RouteConfig.route?, RouteConfig.route?, withSlashes_forwardSlashes]

/-- Slashes for backslashes in the paths of the files change the paths that a
survey shows and nothing else. Every file keeps its grammar, and its record or
the reason why it has none. -/
theorem survey_forwardSlashes (c : Config) (manifest : Option Manifest) (stopped : Bool)
    (files : List SourceFile) :
    surveyRepository c manifest stopped (files.map (·.rename forwardSlashes))
        = (surveyRepository c manifest stopped files).rename forwardSlashes
      ∧ ∀ f : SourceFile, (f.rename forwardSlashes).language.dialect? = f.language.dialect?
        ∧ (f.rename forwardSlashes).analyze c.parser
          = (f.analyze c.parser).map (·.rename forwardSlashes) := by
  refine ⟨surveyRepository_rename unseen_forwardSlashes c manifest stopped files, fun f => ?_⟩
  exact ⟨congrArg Language.dialect? (unseen_forwardSlashes.language f),
    analyze_rename unseen_forwardSlashes c.parser f⟩

end CodeSurvey
