import CodeSurvey.Proofs.Batch
import CodeSurvey.Proofs.ModuleExports
import CodeSurvey.Proofs.TiledReading

/-!
# The lines of records

The records of a file give the lines of the nodes that they stem from, and they come in
the order of the walk. So what `Proofs/Layout` says of the nodes of a tree in pre-order
becomes a statement on the lines of the records (`ParsedFile.LinesInOrder`): they are
lines of the file, they go up, and of two functions the later one lies in the earlier
one or begins where that has ended. Endpoints have the lines of the exports that they
stand for. The tree of a file is laid out by `Proofs/TiledReading`, so all of this holds
of every file that has a record (`ParsedFile.linesInOrder_of_analyze`).
-/

namespace CodeSurvey

namespace Cursor

variable {src : Source} {c : Cursor}

/-! ## Whose lines a record has -/

theorem lines_of_functionRecord {r : FunctionRecord} (h : c.functionRecord? src = some r) :
    r.lineStart = c.tree.startLine src ∧ r.lineEnd = c.tree.endLine src := by
  rw [functionRecord?] at h
  split at h
  · obtain rfl := Option.some.inj h
    exact ⟨rfl, rfl⟩
  · cases h

theorem lines_of_classRecord {r : ClassRecord} (h : c.classRecordAt? src = some r) :
    r.lineStart = c.tree.startLine src ∧ r.lineEnd = c.tree.endLine src := by
  rw [classRecordAt?] at h
  split at h
  · rw [classRecord?] at h
    split at h
    · cases h
    · obtain ⟨body, -, rfl⟩ := Option.map_eq_some_iff.mp h
      exact ⟨rfl, rfl⟩
  · cases h

theorem line_of_exportRecord {e : ExportRecord} (h : e ∈ c.exportRecordsAt src) :
    e.line = c.tree.startLine src := by
  rw [exportRecordsAt] at h
  split at h
  · obtain ⟨x, -, rfl⟩ := List.mem_map.mp h
    rfl
  · cases h

end Cursor

namespace Tree

variable {src : Source} {t u v : Tree}

/-! ## Lines of nodes -/

theorem startLine_le_of_follows (h : u.Follows v) : u.startLine src ≤ v.startLine src :=
  Source.line_le_line h.1

theorem lines_of_follows (h : u.Follows v) :
    (u.startLine src ≤ v.startLine src ∧ v.endLine src ≤ u.endLine src)
      ∨ u.endLine src ≤ v.startLine src := by
  rcases h.2 with hin | hbehind
  · exact .inl ⟨startLine_le_of_follows h, Source.line_le_line hin⟩
  · exact .inr (Source.line_le_line hbehind)

theorem mem_preorder_of_mem_walk {c : Cursor} (h : c ∈ (Cursor.ofTree t).walk) :
    c.tree ∈ t.preorder := by
  rw [← Cursor.map_tree_preorderFrom [] t, ← Cursor.walk_ofTree]
  exact List.mem_map_of_mem h

/-- Every node of a tree is on lines of the text. -/
theorem lines_of_mem_walk (h : t.IsTreeOf src) {c : Cursor} (hc : c ∈ (Cursor.ofTree t).walk) :
    1 ≤ c.tree.startLine src ∧ c.tree.startLine src ≤ c.tree.endLine src
      ∧ c.tree.endLine src ≤ src.lineCount := by
  have hin := standsIn_of_mem_preorder t h.isLaidOut (mem_preorder_of_mem_walk hc)
  exact ⟨src.one_le_line _, Source.line_le_line hin.ordered,
    Source.line_le_lineCount (Nat.le_trans hin.le_stop h.stop_le)⟩

/-- The walk comes from a node to those in it, and then to those behind it. -/
theorem pairwise_walk (h : t.IsTreeOf src) :
    (Cursor.ofTree t).walk.Pairwise fun c d => c.tree.Follows d.tree := by
  rw [← List.pairwise_map, Cursor.walk_ofTree, Cursor.map_tree_preorderFrom]
  exact pairwise_follows t h.isLaidOut

end Tree

/-! ## Lines of records -/

/-- The lines that the record of a file gives are lines of the file, and in order. -/
structure ParsedFile.LinesInOrder (f : ParsedFile) : Prop where
  functions_within : ∀ r ∈ f.functions,
    1 ≤ r.lineStart ∧ r.lineStart ≤ r.lineEnd ∧ r.lineEnd ≤ f.linesOfCode
  classes_within : ∀ r ∈ f.classes,
    1 ≤ r.lineStart ∧ r.lineStart ≤ r.lineEnd ∧ r.lineEnd ≤ f.linesOfCode
  exports_within : ∀ e ∈ f.exports, 1 ≤ e.line ∧ e.line ≤ f.linesOfCode
  functions_sorted : f.functions.Pairwise fun r later => r.lineStart ≤ later.lineStart
  classes_sorted : f.classes.Pairwise fun r later => r.lineStart ≤ later.lineStart
  exports_sorted : f.exports.Pairwise fun e later => e.line ≤ later.line
  /-- A function lies in an earlier one, or begins on its last line at the earliest. -/
  functions_nested : f.functions.Pairwise fun r later =>
    (r.lineStart ≤ later.lineStart ∧ later.lineEnd ≤ r.lineEnd) ∨ r.lineEnd ≤ later.lineStart
  endpoints_sorted : ∀ c : RouteConfig,
    (f.endpoints c).Pairwise fun e later => e.lineNumber ≤ later.lineNumber

namespace ParsedFile

/-- An endpoint has the line of its export, so endpoints are sorted if exports are. -/
theorem pairwise_endpoints {f : ParsedFile} (h : f.exports.Pairwise fun e later => e.line ≤ later.line)
    (c : RouteConfig) : (f.endpoints c).Pairwise fun e later => e.lineNumber ≤ later.lineNumber := by
  cases hroute : c.route? f.path with
  | none =>
      rw [endpoints_of_no_route hroute]
      exact .nil
  | some route =>
      have hline : ∀ {e : ExportRecord} {p : ApiEndpointRecord},
          e.endpoint? route f.path = some p → p.lineNumber = e.line := by
        intro e p hp
        rw [ExportRecord.endpoint?] at hp
        split at hp
        · obtain ⟨m, -, rfl⟩ := Option.map_eq_some_iff.mp hp
          rfl
        · cases hp
      rw [endpoints_eq_filterMap hroute]
      refine h.filterMap _ fun e later hle p hp q hq => ?_
      rw [hline hp, hline hq]
      exact hle

variable {src : Source} {t : Tree} (path : String) (l : Language)

theorem functions_pairwise (h : t.IsTreeOf src) {R : Nat × Nat → Nat × Nat → Prop}
    (hR : ∀ u v : Tree, u.Follows v →
      R (u.startLine src, u.endLine src) (v.startLine src, v.endLine src)) :
    (ofTree path l src t).functions.Pairwise fun r later =>
      R (r.lineStart, r.lineEnd) (later.lineStart, later.lineEnd) := by
  refine (Tree.pairwise_walk h).filterMap _ fun c d hfollows r hr later hlater => ?_
  obtain ⟨hstart, hend⟩ := Cursor.lines_of_functionRecord hr
  obtain ⟨hstart', hend'⟩ := Cursor.lines_of_functionRecord hlater
  rw [hstart, hend, hstart', hend']
  exact hR _ _ hfollows

theorem exports_pairwise (h : t.IsTreeOf src) :
    (ofTree path l src t).exports.Pairwise fun e later => e.line ≤ later.line := by
  refine List.pairwise_flatMap.mpr ⟨fun c _ => ?_, (Tree.pairwise_walk h).imp ?_⟩
  · -- The records of one statement are all on the line on which it begins.
    refine List.pairwise_iff_forall_sublist.mpr fun {e later} hsub => ?_
    have he : e ∈ c.exportRecordsAt src := hsub.subset List.mem_cons_self
    have hlater : later ∈ c.exportRecordsAt src :=
      hsub.subset (List.mem_cons_of_mem _ List.mem_cons_self)
    exact Nat.le_of_eq
      ((Cursor.line_of_exportRecord he).trans (Cursor.line_of_exportRecord hlater).symm)
  · intro c d hfollows e he later hlater
    rw [Cursor.line_of_exportRecord he, Cursor.line_of_exportRecord hlater]
    exact Tree.startLine_le_of_follows hfollows

theorem linesInOrder_of_isTreeOf (h : t.IsTreeOf src) : (ofTree path l src t).LinesInOrder := by
  refine ⟨?_, ?_, ?_, ?_, ?_, ?_, ?_, ?_⟩
  · intro r hr
    obtain ⟨c, hc, hrecord⟩ := List.mem_filterMap.mp hr
    obtain ⟨hstart, hend⟩ := Cursor.lines_of_functionRecord hrecord
    rw [hstart, hend]
    exact Tree.lines_of_mem_walk h hc
  · intro r hr
    obtain ⟨c, hc, hrecord⟩ := List.mem_filterMap.mp hr
    obtain ⟨hstart, hend⟩ := Cursor.lines_of_classRecord hrecord
    rw [hstart, hend]
    exact Tree.lines_of_mem_walk h hc
  · intro e he
    obtain ⟨c, hc, hrecord⟩ := List.mem_flatMap.mp he
    obtain ⟨hone, hle, hlast⟩ := Tree.lines_of_mem_walk h hc
    rw [Cursor.line_of_exportRecord hrecord]
    exact ⟨hone, Nat.le_trans hle hlast⟩
  · exact functions_pairwise path l h (R := fun r later => r.1 ≤ later.1)
      fun u v => Tree.startLine_le_of_follows
  · refine (Tree.pairwise_walk h).filterMap _ fun c d hfollows r hr later hlater => ?_
    rw [(Cursor.lines_of_classRecord hr).1, (Cursor.lines_of_classRecord hlater).1]
    exact Tree.startLine_le_of_follows hfollows
  · exact exports_pairwise path l h
  · exact functions_pairwise path l h
      (R := fun r later => (r.1 ≤ later.1 ∧ later.2 ≤ r.2) ∨ r.2 ≤ later.1)
      fun u v => Tree.lines_of_follows
  · exact pairwise_endpoints (exports_pairwise path l h)

/-- The lines of the records of every file that has them are in order. -/
theorem linesInOrder_of_analyze {c : ParserConfig} {f : SourceFile} {r : ParsedFile}
    (h : f.analyze c = .ok r) : r.LinesInOrder := by
  obtain ⟨d, -, herror, rfl⟩ := SourceFile.exists_tree_of_analyze h
  exact linesInOrder_of_isTreeOf _ _ (isTreeOf_parse herror)

end ParsedFile

/-- The lines of all records of a tree of a text are lines of the text, and in order;
and the lines of the text are the parts between its line feeds. -/
theorem linesInOrder_ofTree {src : Source} {t : Tree} (h : t.IsTreeOf src) (path : String)
    (l : Language) :
    (ParsedFile.ofTree path l src t).LinesInOrder
      ∧ (ParsedFile.ofTree path l src t).linesOfCode
        = (partsAt '\n' src.chars.toList).length :=
  ⟨ParsedFile.linesInOrder_of_isTreeOf path l h, src.lineCount_eq⟩

/-- A handler over three lines that returns a function on the second of them. -/
def handlerText : Source := .ofString "export function GET() \x7b\n  return () => 1\n\x7d\n"

def handlerTree : Tree :=
  .node (.named .program) none ⟨0, 43⟩ [
    .node (.named .exportStatement) none ⟨0, 42⟩ [
      .ofToken "export" 0 6,
      .node (.named .functionDeclaration) (some .declaration) ⟨7, 42⟩ [
        .ofToken "function" 7 15,
        (Tree.leaf .identifier 16 19).withField .name,
        .node (.named .formalParameters) (some .parameters) ⟨19, 21⟩ [
          .ofToken "(" 19 20, .ofToken ")" 20 21],
        .node (.named .statementBlock) (some .body) ⟨22, 42⟩ [
          .ofToken "\x7b" 22 23,
          .node (.named .returnStatement) none ⟨26, 40⟩ [
            .ofToken "return" 26 32,
            .node (.named .arrowFunction) none ⟨33, 40⟩ [
              .node (.named .formalParameters) (some .parameters) ⟨33, 35⟩ [
                .ofToken "(" 33 34, .ofToken ")" 34 35],
              .ofToken "=>" 36 38,
              (Tree.leaf .number 39 40).withField .body]],
          .ofToken "\x7d" 41 42]]]]

theorem isTreeOf_handlerTree : handlerTree.IsTreeOf handlerText :=
  ⟨by simp [handlerTree, Tree.IsLaidOut, Tree.AreLaidOut, Tree.ofToken, Tree.leaf,
    Tree.withField, Tree.span], by decide⟩

/-- The line feed at the end of the text opens a fourth line, on which nothing stands. -/
theorem linesInOrder_handlerTree :
    handlerTree.IsTreeOf handlerText
      ∧ (ParsedFile.ofTree "api/route.ts" .typescript handlerText handlerTree).LinesInOrder
      ∧ (ParsedFile.ofTree "api/route.ts" .typescript handlerText handlerTree).linesOfCode = 4
      ∧ (ParsedFile.ofTree "api/route.ts" .typescript handlerText handlerTree).functions.map
        (fun r => (r.lineStart, r.lineEnd)) = [(1, 3), (2, 2)] := by
  obtain ⟨hlines, hcount⟩ := linesInOrder_ofTree isTreeOf_handlerTree "api/route.ts" .typescript
  refine ⟨isTreeOf_handlerTree, hlines, hcount.trans (by decide), ?_⟩
  show ((Cursor.ofTree handlerTree).walk.filterMap (·.functionRecord? handlerText)).map _ = _
  rw [Cursor.walk_ofTree]
  decide +kernel

end CodeSurvey
