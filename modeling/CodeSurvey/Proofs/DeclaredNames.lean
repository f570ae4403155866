import CodeSurvey.Proofs.Sorted
import CodeSurvey.Repository.Survey
import Mathlib.Data.Finset.Card

/-!
# What a manifest declares

A manifest has two sections, and a name may stand in both. The summary of the
dependencies, the technologies and the architecture ask for names in different ways:
some run through `names`, some ask `declares`, and two lines of the architecture look
at one section only. Here all but these two come to the same set, `declared`, in which
a name is once whatever the sections and versions it has (`mem_names`, `declares_iff`).

What is made of the set then needs no look at the sections. `survey_of_declared` is
assembled from these: a category is sorted, so it is told by its members, and a
question "is there a name that ..." is told by the set.
-/

namespace CodeSurvey

/-! ## Texts in texts -/

theorem occursIn_iff (needle cs : List Char) : occursIn needle cs = true ↔ needle <:+: cs := by
  induction cs with
  | nil => rw [occursIn, List.isEmpty_iff, List.infix_nil]
  | cons c cs ih =>
      rw [occursIn, Bool.or_eq_true, ih, List.isPrefixOf_iff_prefix, List.infix_cons_iff]

theorem textContains_iff (s part : String) :
    textContains s part = true ↔ part.toList <:+: s.toList := occursIn_iff ..

/-! ## The set of the names -/

namespace Manifest

variable {m m' : Manifest} {name : String}

/-- The sections are maps: they have their names in order, each once. -/
structure IsSorted (m : Manifest) : Prop where
  production : Sorted m.productionNames
  development : Sorted m.developmentNames

/-- The names in both sections together. -/
def declared (m : Manifest) : Finset String :=
  m.productionNames.toFinset ∪ m.developmentNames.toFinset

theorem mem_declared :
    name ∈ m.declared ↔ name ∈ m.productionNames ∨ name ∈ m.developmentNames := by
  simp [declared]

/-- The names that are declared for development and not for production. -/
def developmentOnly (m : Manifest) : List String :=
  m.developmentNames.filter fun n => !m.productionNames.contains n

theorem mem_developmentOnly :
    name ∈ m.developmentOnly ↔ name ∈ m.developmentNames ∧ name ∉ m.productionNames := by
  simp [developmentOnly]

theorem names_eq (m : Manifest) : m.names = m.productionNames ++ m.developmentOnly := rfl

theorem mem_names : name ∈ m.names ↔ name ∈ m.declared := by
  rw [names_eq, List.mem_append, mem_developmentOnly, mem_declared]
  tauto

theorem declares_iff : m.declares name = true ↔ name ∈ m.declared := by
  rw [declares, Bool.or_eq_true, List.contains_iff_mem, List.contains_iff_mem, mem_declared]

theorem IsSorted.nodup_names (h : m.IsSorted) : m.names.Nodup := by
  rw [names_eq, List.nodup_append]
  refine ⟨h.production.nodup, h.development.nodup.filter _, ?_⟩
  intro a ha b hb heq
  subst heq
  exact (mem_developmentOnly.mp hb).2 ha

theorem IsSorted.length_names (h : m.IsSorted) : m.names.length = m.declared.card := by
  have hset : m.names.toFinset = m.declared := by
    ext n
    rw [List.mem_toFinset, mem_names]
  rw [← hset, List.toFinset_card_of_nodup h.nodup_names]

/-! ## Manifests that declare the same names -/

theorem any_names (h : m.declared = m'.declared) (p : String → Bool) :
    m.names.any p = m'.names.any p := by
  rw [Bool.eq_iff_iff, List.any_eq_true, List.any_eq_true]
  simp only [mem_names, h]

theorem declares_eq (h : m.declared = m'.declared) : m.declares = m'.declares := by
  funext n
  rw [Bool.eq_iff_iff, declares_iff, declares_iff, h]

end Manifest

/-! ## Categories -/

theorem sorted_namesMatching (texts names : List String) : Sorted (namesMatching texts names) :=
  sorted_sortedSet _

theorem mem_namesMatching {texts names : List String} {n : String} :
    n ∈ namesMatching texts names
      ↔ n ∈ names ∧ ∃ text ∈ texts, (lowercase text).toList <:+: (lowercase n).toList := by
  simp only [namesMatching, mem_sortedSet, List.mem_filter, List.any_eq_true, containsIgnoringCase,
    textContains_iff]

theorem namesMatching_names {m m' : Manifest} (h : m.declared = m'.declared) (texts : List String) :
    namesMatching texts m.names = namesMatching texts m'.names := by
  refine eq_of_sorted (sorted_namesMatching ..) (sorted_namesMatching ..) ?_
  intro n
  rw [mem_namesMatching, mem_namesMatching, Manifest.mem_names, Manifest.mem_names, h]

/-- A category has the declared names that contain one of its texts when case does
not matter, and no other, each once. -/
structure Manifest.IsCategory (m : Manifest) (texts names : List String) : Prop where
  sorted : Sorted names
  mem_iff : ∀ n, n ∈ names ↔ n ∈ m.declared
    ∧ ∃ text ∈ texts, (lowercase text).toList <:+: (lowercase n).toList

theorem Manifest.isCategory_namesMatching (m : Manifest) (texts : List String) :
    m.IsCategory texts (namesMatching texts m.names) where
  sorted := sorted_namesMatching ..
  mem_iff := by
    intro n
    rw [mem_namesMatching, Manifest.mem_names]

/-! ## What a survey says of them -/

section Survey

variable {m m' : Manifest} (h : m.declared = m'.declared)

include h

theorem categories_of_declared (p : Patterns) :
    (m.summary p).categories = (m'.summary p).categories := by
  show Categories.ofNames p m.names = Categories.ofNames p m'.names
  simp only [Categories.ofNames, namesMatching_names h]

theorem detectTechnologies_of_declared (p : Patterns) (files : List ParsedFile) :
    detectTechnologies p m files = detectTechnologies p m' files := by
  unfold detectTechnologies
  simp only [Manifest.any_names h]

/-- All lines of the architecture but those on authentication and tests, which look
at one section. -/
theorem architecture_of_declared (technologies : List String) :
    { Architecture.ofManifest m technologies with authentication := none, testing := none }
      = { Architecture.ofManifest m' technologies with authentication := none, testing := none } := by
  simp only [Architecture.ofManifest, Manifest.any_names h, Manifest.declares_eq h]

end Survey

/-- What a summary says of the names that a manifest declares. -/
structure DependencySummary.IsOf (s : DependencySummary) (p : Patterns) (m : Manifest) : Prop where
  nodup : s.all.Nodup
  /-- The names of production in order, and behind them the other ones in order. -/
  all : ∃ production others, s.all = production ++ others
    ∧ Sorted production ∧ (∀ n, n ∈ production ↔ n ∈ m.productionNames)
    ∧ Sorted others ∧ ∀ n, n ∈ others ↔ n ∈ m.developmentNames ∧ n ∉ m.productionNames
  totalCount : s.totalCount = (m.productionNames.toFinset ∪ m.developmentNames.toFinset).card
  frameworks : m.IsCategory p.frameworks s.categories.frameworks
  uiLibraries : m.IsCategory p.uiLibraries s.categories.uiLibraries
  databases : m.IsCategory p.databases s.categories.databases

theorem Manifest.IsSorted.isOf_summary {m : Manifest} (h : m.IsSorted) (p : Patterns) :
    (m.summary p).IsOf p m where
  nodup := h.nodup_names
  all := ⟨m.productionNames, m.developmentOnly, rfl, h.production, fun _ => Iff.rfl,
    h.development.filter _, fun _ => mem_developmentOnly⟩
  totalCount := h.length_names
  frameworks := m.isCategory_namesMatching _
  uiLibraries := m.isCategory_namesMatching _
  databases := m.isCategory_namesMatching _

/-- A survey asks which names are declared, and not where or in which version. It
lists every name once, those of production first and both groups in order, and
counts them; its categories are the names that contain one of their texts. Of two
manifests that declare the same names the counts, categories, technologies and
architectures are equal, but for what the architecture looks for in one section. -/
theorem survey_of_declared (p : Patterns) (files : List ParsedFile) (skipped : List SkippedFile)
    (components : List ComponentRecord) (endpoints : List ApiEndpointRecord) (m m' : Manifest)
    (hm : m.IsSorted) (hm' : m'.IsSorted) (h : m.declared = m'.declared)
    (r r' : AnalysisResult)
    (hr : r = .ofParts p files skipped (some m) components endpoints)
    (hr' : r' = .ofParts p files skipped (some m') components endpoints) :
    r.dependencies.IsOf p m
      ∧ r'.dependencies.IsOf p m'
      ∧ r.dependencies.categories = r'.dependencies.categories
      ∧ r.dependencies.totalCount = r'.dependencies.totalCount
      ∧ r.technologies = r'.technologies
      ∧ r.architecture.kind = r'.architecture.kind
      ∧ r.architecture.framework = r'.architecture.framework
      ∧ r.architecture.language = r'.architecture.language
      ∧ r.architecture.database = r'.architecture.database
      ∧ r.architecture.styling = r'.architecture.styling := by
  subst hr hr'
  have hcount : (m.summary p).totalCount = (m'.summary p).totalCount := by
    show m.names.length = m'.names.length
    rw [hm.length_names, hm'.length_names, h]
  have hlabels := detectTechnologies_of_declared h p files
  have hlines : ∀ m, (AnalysisResult.ofParts p files skipped (some m) components
      endpoints).architecture = .ofManifest m (detectTechnologies p m files) := fun _ => rfl
  have hsame := architecture_of_declared h (detectTechnologies p m' files)
  simp only [Architecture.mk.injEq] at hsame
  obtain ⟨hkind, hframework, hlanguage, hdatabase, -, hstyling, -⟩ := hsame
  refine ⟨hm.isOf_summary p, hm'.isOf_summary p, categories_of_declared h p, hcount, hlabels, ?_⟩
  rw [hlines m, hlines m', hlabels]
  exact ⟨hkind, hframework, hlanguage, hdatabase, hstyling⟩

/-- One name in both sections, and its like with the sections exchanged. -/
def twiceDeclared : Manifest :=
  ⟨[("React", "18"), ("next", "14")], [("React", "17"), ("jest", "29"), ("pg", "8")]⟩

def differentlyDeclared : Manifest :=
  ⟨[("jest", "*"), ("pg", "*")], [("React", "*"), ("next", "*"), ("pg", "1")]⟩

theorem survey_of_twiceDeclared :
    twiceDeclared.IsSorted ∧ differentlyDeclared.IsSorted
      ∧ twiceDeclared.declared = differentlyDeclared.declared
      ∧ (AnalysisResult.ofParts .standard [] [] (some twiceDeclared) [] []).dependencies.totalCount
        = (AnalysisResult.ofParts .standard [] [] (some differentlyDeclared) []
          []).dependencies.totalCount := by
  have hsorted : twiceDeclared.IsSorted := ⟨by decide, by decide⟩
  have hsorted' : differentlyDeclared.IsSorted := ⟨by decide, by decide⟩
  have hdeclared : twiceDeclared.declared = differentlyDeclared.declared := by decide
  obtain ⟨-, -, -, hcount, -⟩ := survey_of_declared .standard [] [] [] [] twiceDeclared
    differentlyDeclared hsorted hsorted' hdeclared _ _ rfl rfl
  exact ⟨hsorted, hsorted', hdeclared, hcount⟩

end CodeSurvey
