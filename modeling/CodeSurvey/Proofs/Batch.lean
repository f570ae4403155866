import CodeSurvey.Repository.Batch

/-!
# Batches without an interruption

What a batch comes to if nothing asks it to stop is a plain map over its files
(`BatchResult.ofFiles`), each of them analysed on its own. The way there:

- `flatten_chunksOf` and `getElem?_chunksOf`: chunks lose, repeat and reorder
  nothing, so a file stays where it was - in the chunk that its place divided
  by the size of a chunk gives;
- `runBatch_eq_steps`: handing a batch out in chunks comes to the same as one
  pass over it, stopped or not;
- `result_runBatch`: one pass that nobody stops is the map.

The laws of `BatchResult.ofOutcomes` are shared with the batches that are worked
through side by side.
-/

namespace CodeSurvey

/-! ## Chunks -/

section Chunks

variable {α : Type} {size : Nat}

theorem chunksOf_cons (hs : 0 < size) {items : List α} (h : items ≠ []) :
    chunksOf size items = items.take size :: chunksOf size (items.drop size) := by
  rw [chunksOf, dif_neg (by simp [h, Nat.ne_of_gt hs])]

@[simp] theorem chunksOf_nil : chunksOf size ([] : List α) = [] := by
  rw [chunksOf, dif_pos (Or.inr rfl)]

theorem flatten_chunksOf (hs : 0 < size) (items : List α) :
    (chunksOf size items).flatten = items := by
  fun_induction chunksOf size items with
  | case1 items h =>
      rcases h with h | rfl
      · omega
      · rfl
  | case2 items h ih => rw [List.flatten_cons, ih, List.take_append_drop]

/-- No chunk is empty, and none is larger than asked for. -/
theorem length_of_mem_chunksOf {items chunk : List α} (h : chunk ∈ chunksOf size items) :
    0 < chunk.length ∧ chunk.length ≤ size := by
  fun_induction chunksOf size items with
  | case1 items _ => cases h
  | case2 items hne ih =>
      rcases List.mem_cons.mp h with rfl | h
      · have : items.length ≠ 0 := fun e => hne (Or.inr (List.length_eq_zero_iff.mp e))
        rw [List.length_take]
        omega
      · exact ih h

/-- The entry at place `i` is in chunk `i / size`. -/
theorem getElem?_chunksOf (hs : 0 < size) (items : List α) (i : Nat) :
    (chunksOf size items)[i / size]?.bind (fun chunk => chunk[i % size]?) = items[i]? := by
  induction i using Nat.strongRecOn generalizing items with
  | ind i ih =>
      by_cases hnil : items = []
      · subst hnil; simp
      rw [chunksOf_cons hs hnil]
      by_cases hi : i < size
      · rw [Nat.div_eq_of_lt hi, Nat.mod_eq_of_lt hi, List.getElem?_cons_zero, Option.bind_some,
          List.getElem?_take_of_lt hi]
      · have hle : size ≤ i := Nat.le_of_not_lt hi
        have hdiv : i / size = (i - size) / size + 1 := Nat.div_eq_sub_div hs hle
        rw [hdiv, Nat.mod_eq_sub_mod hle, List.getElem?_cons_succ, ih (i - size) (by omega),
          List.getElem?_drop, Nat.add_sub_cancel' hle]

end Chunks

/-! ## What the outcomes of a batch add up to -/

namespace BatchResult

/-- Every file that was finished has one record, of one of the two kinds. -/
theorem length_ofOutcomes (os : List (Option FileOutcome)) :
    (ofOutcomes os).parsed.length + (ofOutcomes os).skipped.length = os.countP (·.isSome) := by
  induction os with
  | nil => rfl
  | cons o os ih =>
      simp only [ofOutcomes] at ih
      rcases o with - | (s | r) <;> simp [ofOutcomes, ← ih] <;> omega

theorem interrupted_ofOutcomes (os : List (Option FileOutcome)) :
    (ofOutcomes os).interrupted = true ↔ os.countP (·.isSome) < os.length := by
  have hsplit := List.length_eq_countP_add_countP (·.isSome) (l := os)
  have hany : (ofOutcomes os).interrupted = true
      ↔ 0 < os.countP fun o => decide ¬o.isSome = true := by
    simp [ofOutcomes, List.countP_pos_iff]
  rw [hany]
  omega

/-- The files that were left out have no part in the records. -/
theorem ofOutcomes_some_filterMap (os : List (Option FileOutcome)) :
    (ofOutcomes os).parsed = (ofOutcomes ((os.filterMap id).map some)).parsed
      ∧ (ofOutcomes os).skipped = (ofOutcomes ((os.filterMap id).map some)).skipped := by
  simp only [ofOutcomes, List.filterMap_map, List.filterMap_filterMap]
  constructor <;> congr 1 <;> funext o <;> cases o <;> rfl

end BatchResult

/-! ## Files on their own -/

namespace SourceFile

/-- Whether a file gets a record. -/
def parses (c : ParserConfig) (f : SourceFile) : Bool := (f.analyze c).isOk

/-- A record is made from the tree of a text within the grammar of its language. -/
theorem exists_tree_of_analyze {c : ParserConfig} {f : SourceFile} {r : ParsedFile}
    (h : f.analyze c = .ok r) : ∃ d, f.language.dialect? = some d
      ∧ ((Source.ofString f.content).parse d).hasError = false
      ∧ r = .ofTree f.path f.language (Source.ofString f.content)
        ((Source.ofString f.content).parse d) := by
  unfold analyze at h
  split at h
  · cases h
  · rename_i d hd
    split at h
    · cases h
    · cases herror : ((Source.ofString f.content).parse d).hasError with
      | true => simp [Source.parse?, Tree.faultPosition?, Tree.firstFault?, herror, Except.map] at h
      | false =>
          simp only [Source.parse?, Tree.faultPosition?, Tree.firstFault?, herror, Bool.false_eq_true,
            if_false, Option.map_none, Except.map, Except.ok.injEq] at h
          exact ⟨d, hd, herror, h.symm⟩

theorem path_of_analyze {c : ParserConfig} {f : SourceFile} {r : ParsedFile}
    (h : f.analyze c = .ok r) : r.path = f.path := by
  obtain ⟨d, -, -, rfl⟩ := exists_tree_of_analyze h
  rfl

/-- A record carries the language of its path, and only languages that can be
analysed have records. -/
theorem language_of_analyze {c : ParserConfig} {f : SourceFile} {r : ParsedFile}
    (h : f.analyze c = .ok r) :
    r.language = Language.classify r.path ∧ r.language.isAnalyzable = true := by
  obtain ⟨d, hd, -, rfl⟩ := exists_tree_of_analyze h
  exact ⟨rfl, by simp [ParsedFile.ofTree, Language.isAnalyzable, hd]⟩

end SourceFile

namespace BatchResult

/-- What files come to if each is analysed on its own, in their order. -/
def ofFiles (c : ParserConfig) (files : List SourceFile) : BatchResult where
  parsed := files.filterMap fun f =>
    match f.analyze c with
    | .ok record => some record
    | .error _ => none
  skipped := files.filterMap fun f =>
    match f.analyze c with
    | .ok _ => none
    | .error e => some ⟨f.path, e.skipReason, e.detail?⟩
  interrupted := false

theorem ofOutcomes_map (c : ParserConfig) (files : List SourceFile) :
    ofOutcomes (files.map fun f => some (f.outcome c)) = ofFiles c files := by
  simp only [ofOutcomes, ofFiles, List.filterMap_map, mk.injEq]
  refine ⟨?_, ?_, by simp⟩
  · congr 1
    funext f
    simp only [Function.comp_apply, SourceFile.outcome]
    cases f.analyze c <;> rfl
  · congr 1
    funext f
    simp only [Function.comp_apply, SourceFile.outcome]
    cases f.analyze c <;> rfl

theorem ofFiles_append (c : ParserConfig) (xs ys : List SourceFile) :
    (ofFiles c (xs ++ ys)).parsed = (ofFiles c xs).parsed ++ (ofFiles c ys).parsed
      ∧ (ofFiles c (xs ++ ys)).skipped = (ofFiles c xs).skipped ++ (ofFiles c ys).skipped :=
  ⟨List.filterMap_append, List.filterMap_append⟩

/-- A record stands for its file, so records come in the order of the files. -/
theorem map_path_filterMap {β : Type} {record? : SourceFile → Option β} {path : β → String}
    {has : SourceFile → Bool}
    (hrecord : ∀ f, (record? f).map path = if has f then some f.path else none)
    (files : List SourceFile) :
    (files.filterMap record?).map path = (files.filter has).map (·.path) := by
  induction files with
  | nil => rfl
  | cons f files ih =>
      have hf := hrecord f
      cases h : record? f with
      | none =>
          have hhas : has f = false := by simpa [h] using hf
          rw [List.filterMap_cons_none h, List.filter_cons_of_neg (by simp [hhas]), ih]
      | some r =>
          obtain ⟨hhas, hpath⟩ : has f = true ∧ path r = f.path := by simpa [h] using hf
          rw [List.filterMap_cons_some h, List.filter_cons_of_pos hhas, List.map_cons, List.map_cons,
            ih, hpath]

/-- The files with a record, in their order. -/
theorem paths_parsed_ofFiles (c : ParserConfig) (files : List SourceFile) :
    (ofFiles c files).parsed.map (·.path) = (files.filter (·.parses c)).map (·.path) := by
  refine map_path_filterMap (fun f => ?_) files
  cases h : f.analyze c with
  | ok r => simp [SourceFile.parses, h, Except.isOk, Except.toBool, SourceFile.path_of_analyze h]
  | error e => simp [SourceFile.parses, h, Except.isOk, Except.toBool]

/-- The files without one, in their order. -/
theorem paths_skipped_ofFiles (c : ParserConfig) (files : List SourceFile) :
    (ofFiles c files).skipped.map (·.path) = (files.filter (!·.parses c)).map (·.path) := by
  refine map_path_filterMap (fun f => ?_) files
  cases h : f.analyze c with
  | ok r => simp [SourceFile.parses, h, Except.isOk, Except.toBool]
  | error e => simp [SourceFile.parses, h, Except.isOk, Except.toBool]

end BatchResult

/-! ## One pass over the files -/

section Pass

variable (c : ParserConfig) (p : ParallelConfig)

/-- However a batch is handed out, it is worked through from the first file to
the last. -/
theorem runBatch_eq_steps (stopped : Bool) (stopAt : Nat → Bool) (files : List SourceFile) :
    runBatch c p stopped stopAt files = (Batch.start stopped).steps c stopAt files := by
  unfold runBatch
  split
  · rfl
  split
  · rfl
  · calc (chunksOf p.effectiveBatchSize files).foldl (fun b chunk => b.steps c stopAt chunk)
          (Batch.start stopped)
        = (chunksOf p.effectiveBatchSize files).flatten.foldl (Batch.step c stopAt)
            (Batch.start stopped) := List.foldl_flatten.symm
      _ = (Batch.start stopped).steps c stopAt files := by
          rw [flatten_chunksOf p.effectiveBatchSize_pos, Batch.steps]

theorem outcomes_steps_of_never {b : Batch} (hb : b.stopped = false) (files : List SourceFile) :
    (b.steps c (fun _ => false) files).outcomes
      = b.outcomes ++ files.map fun f => some (f.outcome c) := by
  induction files generalizing b with
  | nil => simp [Batch.steps]
  | cons f files ih =>
      have hstep : b.step c (fun _ => false) f
          = ⟨false, b.counts ++ [b.counts.length + 1], b.outcomes ++ [some (f.outcome c)]⟩ := by
        simp [Batch.step, hb]
      have := ih (b := b.step c (fun _ => false) f) (by rw [hstep])
      rw [Batch.steps, List.foldl_cons, ← Batch.steps, this, hstep]
      simp

theorem outcomes_steps_of_stopped (stopAt : Nat → Bool) {b : Batch} (hb : b.stopped = true)
    (files : List SourceFile) :
    (b.steps c stopAt files).outcomes = b.outcomes ++ files.map fun _ => none := by
  induction files generalizing b with
  | nil => simp [Batch.steps]
  | cons f files ih =>
      have hstep : b.step c stopAt f = { b with outcomes := b.outcomes ++ [none] } := by
        simp [Batch.step, hb]
      have := ih (b := b.step c stopAt f) (by rw [hstep]; exact hb)
      rw [Batch.steps, List.foldl_cons, ← Batch.steps, this, hstep]
      simp

/-- A batch that nobody stops comes to what its files come to on their own. -/
theorem result_runBatch (files : List SourceFile) :
    (runBatch c p false (fun _ => false) files).result = BatchResult.ofFiles c files := by
  rw [runBatch_eq_steps, Batch.result, outcomes_steps_of_never c rfl, Batch.start, List.nil_append,
    BatchResult.ofOutcomes_map]

end Pass

end CodeSurvey
