import CodeSurvey.Endpoint.Detection
import CodeSurvey.Proofs.Batch
import CodeSurvey.Proofs.Extraction
import Mathlib.Data.List.Flatten

/-!
# Whose exports a file lists

What a module makes public are the exports of its own statements, the children
of the root of its tree. But a namespace or a block can hold export statements
as well, and the walk over the tree hands every one of them on. So the exports
of a file are those of the module and the nested ones, each in its place
(`perm_exports`), and nothing of the module is lost (`sublist_exports`).

The list is that of the module for certain only if no nested statement has a
record, and the endpoints are those of the module if no nested record is named
like a method (`exports_of_module_iff`). In `namespaceModule` both conditions
fail.
-/

namespace CodeSurvey

/-! ## The children of the root in a walk -/

namespace Cursor

/-- The node is a child of the root. -/
def isTopLevel (c : Cursor) : Bool := c.above.length == 1

theorem filter_isTopLevel_preorderFrom (frame : Frame) (t : Tree) :
    (preorderFrom [frame] t).filter isTopLevel = [⟨t, [frame]⟩] := by
  obtain ⟨l, f, s, cs⟩ := t
  have hbelow : (preorderAmong l f s [frame] [] cs).filter isTopLevel = [] := by
    refine List.filter_eq_nil_iff.mpr fun c hc => ?_
    obtain ⟨i, p, hp, -⟩ := at?_of_mem_preorderAmong l f s [frame] [] cs hc
    have hdeep := congrArg List.length hp
    simp only [position, List.length_reverse, List.length_map, List.length_append,
      List.length_cons, List.length_nil] at hdeep
    simp only [isTopLevel, beq_iff_eq]
    omega
  rw [preorderFrom, List.filter_cons, hbelow]
  rfl

/-- Of all cursors of a walk, those at the children of the root. -/
theorem map_tree_filter_isTopLevel (t : Tree) :
    ((ofTree t).walk.filter isTopLevel).map (·.tree) = t.children := by
  have hamong : ∀ (l : Label) (f : Option Field) (s : Span) (cs before : List Tree),
      ((preorderAmong l f s [] before cs).filter isTopLevel).map (·.tree) = cs := by
    intro l f s cs
    induction cs with
    | nil => exact fun _ => rfl
    | cons child cs ih =>
        intro before
        rw [preorderAmong, List.filter_append, filter_isTopLevel_preorderFrom, List.map_append, ih]
        rfl
  obtain ⟨l, f, s, cs⟩ := t
  rw [walk_ofTree, preorderFrom, List.filter_cons]
  exact hamong l f s cs []

end Cursor

/-! ## Exports of the module and nested ones -/

namespace Tree

variable (src : Source) (t : Tree)

/-- The records of the export statements among the children of the root. -/
def moduleExports : List ExportRecord :=
  (t.children.filter (·.isKind .exportStatement)).flatMap (·.exportRecords src)

/-- The records of the export statements within other statements. -/
def nestedExports : List ExportRecord :=
  ((Cursor.ofTree t).walk.filter fun c => !c.isTopLevel).flatMap (·.exportRecordsAt src)

theorem flatMap_filter_isTopLevel :
    ((Cursor.ofTree t).walk.filter Cursor.isTopLevel).flatMap (·.exportRecordsAt src)
      = t.moduleExports src := by
  have hat : ∀ c : Cursor, c.exportRecordsAt src
      = if c.tree.isKind .exportStatement then c.tree.exportRecords src else [] := fun _ => rfl
  have hfilter : ∀ ts : List Tree, (ts.filter (·.isKind .exportStatement)).flatMap
      (·.exportRecords src)
      = ts.flatMap fun t => if t.isKind .exportStatement then t.exportRecords src else [] := by
    intro ts
    induction ts with
    | nil => rfl
    | cons t ts ih =>
        cases h : t.isKind .exportStatement <;> simp [h, ih]
  rw [moduleExports, hfilter, ← Cursor.map_tree_filter_isTopLevel t, List.flatMap_map]
  simp only [hat]

/-- The exports that are listed are those of the module and the nested ones. -/
theorem perm_exports :
    (Extraction.ofTree src t).exports.Perm (t.moduleExports src ++ t.nestedExports src) := by
  have hsplit := (List.filter_append_perm Cursor.isTopLevel (Cursor.ofTree t).walk).flatMap_right
    (·.exportRecordsAt src)
  rw [List.flatMap_append, flatMap_filter_isTopLevel] at hsplit
  exact hsplit.symm

/-- None of the module is lost, and they keep their order. -/
theorem sublist_exports : (t.moduleExports src).Sublist (Extraction.ofTree src t).exports := by
  rw [← flatMap_filter_isTopLevel]
  exact List.filter_sublist.flatMap _

end Tree

/-! ## Endpoints of the module -/

/-- The endpoint that an export of a file stands for. -/
def ExportRecord.endpoint? (route path : String) (e : ExportRecord) : Option ApiEndpointRecord :=
  if e.kind = .named then (HttpMethod.ofWord? e.name).map fun m => ⟨m, route, path, e.line⟩ else none

/-- A record that an endpoint is made for in every file with a route. -/
def ExportRecord.IsHandler (e : ExportRecord) : Prop :=
  e.kind = .named ∧ (HttpMethod.ofWord? e.name).isSome

theorem ExportRecord.endpoint?_eq_none_iff {route path : String} {e : ExportRecord} :
    e.endpoint? route path = none ↔ ¬e.IsHandler := by
  unfold ExportRecord.endpoint? ExportRecord.IsHandler
  by_cases hkind : e.kind = .named <;> simp [hkind]

namespace ParsedFile

/-- The file with other exports. -/
def withExports (exports : List ExportRecord) (f : ParsedFile) : ParsedFile :=
  { f with exports := exports }

theorem endpoints_eq_filterMap {c : RouteConfig} {f : ParsedFile} {route : String}
    (h : c.route? f.path = some route) :
    f.endpoints c = f.exports.filterMap (·.endpoint? route f.path) := by
  rw [endpoints, h]
  rfl

theorem endpoints_of_no_route {c : RouteConfig} {f : ParsedFile} (h : c.route? f.path = none) :
    f.endpoints c = [] := by
  rw [endpoints, h]

end ParsedFile

/-- A list is what is left of a longer one if nothing else is in that. -/
theorem eq_iff_of_perm_append {α : Type} {xs ys zs : List α} (hperm : xs.Perm (ys ++ zs))
    (hsub : ys.Sublist xs) : xs = ys ↔ zs = [] := by
  have hlength := hperm.length_eq
  rw [List.length_append] at hlength
  constructor
  · intro heq
    rw [heq] at hlength
    exact List.length_eq_zero_iff.mp (by omega)
  · rintro rfl
    exact (hsub.eq_of_length (by simpa using hlength.symm)).symm

/-- What a file lists beside some of its exports makes no endpoint if and only
if no handler is among it, unless there is no route at all. -/
theorem ParsedFile.endpoints_withExports_iff (c : RouteConfig) {f : ParsedFile}
    {exports others : List ExportRecord} (hperm : f.exports.Perm (exports ++ others))
    (hsub : exports.Sublist f.exports) :
    f.endpoints c = (f.withExports exports).endpoints c
      ↔ c.route? f.path = none ∨ ∀ e ∈ others, ¬e.IsHandler := by
  have hpath : (f.withExports exports).path = f.path := rfl
  cases hroute : c.route? f.path with
  | none =>
      rw [endpoints_of_no_route hroute, endpoints_of_no_route (hpath ▸ hroute)]
      simp
  | some route =>
      have hendpoints := hperm.filterMap (·.endpoint? route f.path)
      rw [List.filterMap_append] at hendpoints
      have hkept := hsub.filterMap (·.endpoint? route f.path)
      rw [endpoints_eq_filterMap hroute, endpoints_eq_filterMap (hpath ▸ hroute), hpath, withExports,
        eq_iff_of_perm_append hendpoints hkept, List.filterMap_eq_nil_iff]
      simp only [ExportRecord.endpoint?_eq_none_iff, reduceCtorEq, false_or]

/-- The exports that a file lists are those of the module with the nested ones
put in. So it lists the exports of the module, and nothing else, if and only if
no nested export statement has a record; and its endpoints stand for exports of
the module, and for nothing else, if and only if it serves no route or no nested
record is named like a method. -/
theorem exports_of_module_iff (src : Source) (t : Tree) :
    (Extraction.ofTree src t).exports.Perm (t.moduleExports src ++ t.nestedExports src)
      ∧ (t.moduleExports src).Sublist (Extraction.ofTree src t).exports
      ∧ ((Extraction.ofTree src t).exports = t.moduleExports src ↔ t.nestedExports src = [])
      ∧ ∀ (path : String) (l : Language) (c : RouteConfig),
        (ParsedFile.ofTree path l src t).endpoints c
            = ((ParsedFile.ofTree path l src t).withExports (t.moduleExports src)).endpoints c
          ↔ c.route? path = none ∨ ∀ e ∈ t.nestedExports src, ¬e.IsHandler :=
  ⟨t.perm_exports src, t.sublist_exports src,
    eq_iff_of_perm_append (t.perm_exports src) (t.sublist_exports src),
    fun _ _ c => ParsedFile.endpoints_withExports_iff c (t.perm_exports src) (t.sublist_exports src)⟩

/-- The tree of `namespace N { export function GET() {} }`: a namespace that makes
a function public under the name of a method. -/
def namespaceModule : Tree :=
  .node (.named .program) none ⟨0, 40⟩
    [.node (.named .internalModule) none ⟨0, 40⟩
      [Tree.ofToken "namespace" 0 9,
        .node (.named .identifier) (some .name) ⟨10, 11⟩ [],
        .node (.named .statementBlock) (some .body) ⟨12, 40⟩
          [Tree.ofToken "\x7b" 12 13,
            .node (.named .exportStatement) none ⟨14, 38⟩
              [Tree.ofToken "export" 14 20,
                .node (.named .functionDeclaration) (some .declaration) ⟨21, 38⟩
                  [Tree.ofToken "function" 21 29,
                    .node (.named .identifier) (some .name) ⟨30, 33⟩ [],
                    .node (.named .formalParameters) (some .parameters) ⟨33, 35⟩
                      [Tree.ofToken "(" 33 34, Tree.ofToken ")" 34 35],
                    .node (.named .statementBlock) (some .body) ⟨36, 38⟩
                      [Tree.ofToken "\x7b" 36 37, Tree.ofToken "\x7d" 37 38]]],
            Tree.ofToken "\x7d" 39 40]]]

def namespaceText : Source := .ofString "namespace N { export function GET() {} }"

/-- Its function is listed as an export and makes an endpoint, though the module
has no export at all. -/
theorem exports_namespaceModule :
    namespaceModule.moduleExports namespaceText = []
      ∧ (Extraction.ofTree namespaceText namespaceModule).exports = [⟨"GET", .named, 1⟩]
      ∧ (ParsedFile.ofTree "app/api/x/route.ts" .typescript namespaceText namespaceModule).endpoints
          .standard = [⟨.get, "/api/x", "app/api/x/route.ts", 1⟩] := by
  have hexports : (Extraction.ofTree namespaceText namespaceModule).exports
      = [⟨"GET", .named, 1⟩] := by
    rw [Extraction.ofTree_eq_below]
    rfl
  refine ⟨rfl, hexports, ?_⟩
  have hroute : RouteConfig.standard.route? (ParsedFile.ofTree "app/api/x/route.ts" .typescript
      namespaceText namespaceModule).path = some "/api/x" := by rfl
  rw [ParsedFile.endpoints_eq_filterMap hroute]
  show ((Extraction.ofTree namespaceText namespaceModule).exports.filterMap _) = _
  rw [hexports]
  rfl

end CodeSurvey
