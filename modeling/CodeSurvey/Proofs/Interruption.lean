import CodeSurvey.Proofs.Batch

/-!
# Batches that are stopped at a count

Whoever watches a batch may ask it to stop when a count is told, and a batch that is
worked through file by file stops there exactly: the files up to that count are finished,
and all behind them are left out. If the batch is asked before it begins, the count is zero.

`StopsAt` says at which count a batch is first asked. What holds when some of the files
have been taken is `IsAfter`: the three parts of the batch - whether it has been asked, the
counts that were told, and what became of the files - are given by that count and the files
alone. One file keeps it (`IsAfter.step`), so a whole pass does (`IsAfter.steps`), and the
batch comes to what the files in front of the stop come to in a batch that nobody stops
(`runBatch_stopped`).
-/

namespace CodeSurvey

namespace Batch

/-- The batch is first asked to stop at the count `k`, which is zero if it is asked before
it begins. -/
structure StopsAt (stopped : Bool) (stopAt : Nat → Bool) (k : Nat) : Prop where
  before : stopped = decide (k = 0)
  first : ∀ n, 0 < n → n ≤ k → stopAt n = decide (n = k)

/-- A watcher that waits for one count. -/
theorem stopsAt_count (k : Nat) : StopsAt (k == 0) (· == k) k where
  before := rfl
  first _ _ _ := rfl

/-- What has become of the files, if those behind the count `k` are left out. -/
def outcomesUpTo (c : ParserConfig) (k : Nat) (files : List SourceFile) :
    List (Option FileOutcome) :=
  (files.take k).map (fun f => some (f.outcome c)) ++ (files.drop k).map fun _ => none

theorem outcomesUpTo_of_le {c : ParserConfig} {k : Nat} {files : List SourceFile}
    (h : files.length ≤ k) :
    outcomesUpTo c k files = files.map fun f => some (f.outcome c) := by
  rw [outcomesUpTo, List.take_of_length_le h, List.drop_of_length_le h, List.map_nil,
    List.append_nil]

theorem outcomesUpTo_append_of_le {c : ParserConfig} {k : Nat} {files : List SourceFile}
    (h : k ≤ files.length) (f : SourceFile) :
    outcomesUpTo c k (files ++ [f]) = outcomesUpTo c k files ++ [none] := by
  simp only [outcomesUpTo, List.take_append_of_le_length h, List.drop_append_of_le_length h,
    List.map_append, List.map_singleton, List.append_assoc]

/-- The batch after some files, if it is first asked to stop at the count `k`. -/
structure IsAfter (c : ParserConfig) (k : Nat) (files : List SourceFile) (b : Batch) : Prop where
  stopped : b.stopped = decide (k ≤ files.length)
  counts : b.counts = List.range' 1 (min k files.length)
  outcomes : b.outcomes = outcomesUpTo c k files

variable {c : ParserConfig} {stopped : Bool} {stopAt : Nat → Bool} {k : Nat}

theorem isAfter_start (h : StopsAt stopped stopAt k) : IsAfter c k [] (start stopped) where
  stopped := h.before.trans (decide_eq_decide.mpr Nat.le_zero.symm)
  counts := by rw [start, List.length_nil, Nat.min_zero, List.range'_zero]
  outcomes := by rw [start, outcomesUpTo, List.take_nil, List.drop_nil, List.map_nil, List.map_nil,
    List.append_nil]

/-- A file that is taken is finished if the batch has not been asked to stop yet, and
left out otherwise. -/
theorem IsAfter.step (h : StopsAt stopped stopAt k) {done : List SourceFile} {b : Batch}
    (hb : IsAfter c k done b) (f : SourceFile) :
    IsAfter c k (done ++ [f]) (b.step c stopAt f) := by
  have hlength : (done ++ [f]).length = done.length + 1 := List.length_append
  by_cases hk : k ≤ done.length
  · have hup : b.stopped = true := by rw [hb.stopped, decide_eq_true hk]
    have hcounts : min k (done.length + 1) = min k done.length := by omega
    rw [Batch.step, if_pos hup]
    refine ⟨?_, ?_, ?_⟩
    · rw [hlength, hup, decide_eq_true (Nat.le_succ_of_le hk)]
    · rw [hlength, hcounts, hb.counts]
    · rw [outcomesUpTo_append_of_le hk, hb.outcomes]
  · have hlt : done.length < k := Nat.lt_of_not_le hk
    have hdown : b.stopped ≠ true := by
      rw [hb.stopped, decide_eq_false hk]
      exact Bool.false_ne_true
    have hcounts : b.counts = List.range' 1 done.length := by
      rw [hb.counts, Nat.min_eq_right (Nat.le_of_lt hlt)]
    have hdone : b.counts.length + 1 = done.length + 1 := by rw [hcounts, List.length_range']
    rw [Batch.step, if_neg hdown]
    refine ⟨?_, ?_, ?_⟩
    · dsimp only
      rw [hlength, hdone, h.first _ (Nat.succ_pos _) hlt]
      exact decide_eq_decide.mpr (by omega)
    · dsimp only
      rw [hlength, hdone, hcounts, Nat.min_eq_right hlt, List.range'_1_concat, Nat.add_comm 1]
    · dsimp only
      rw [hb.outcomes, outcomesUpTo_of_le (Nat.le_of_lt hlt), outcomesUpTo_of_le (hlength ▸ hlt),
        List.map_append, List.map_singleton]

theorem IsAfter.steps (h : StopsAt stopped stopAt k) {done : List SourceFile} {b : Batch}
    (hb : IsAfter c k done b) (files : List SourceFile) :
    IsAfter c k (done ++ files) (b.steps c stopAt files) := by
  induction files generalizing done b with
  | nil => simpa [Batch.steps] using hb
  | cons f files ih =>
      have hrest := ih (hb.step h f)
      rwa [List.append_assoc, List.singleton_append] at hrest

end Batch

/-! ## What the batch comes to -/

namespace BatchResult

/-- A batch over files of which some are left out tells of the others, and that there are
some. -/
theorem ofOutcomes_append_none (os : List (Option FileOutcome)) (left : List SourceFile) :
    ofOutcomes (os ++ left.map fun _ => none)
      = { ofOutcomes os with interrupted := (ofOutcomes os).interrupted || !left.isEmpty } := by
  have hnone : ofOutcomes (left.map fun _ => none) = ⟨[], [], !left.isEmpty⟩ := by
    cases left with
    | nil => rfl
    | cons f left => simp [ofOutcomes]
  simp only [ofOutcomes, mk.injEq] at hnone ⊢
  rw [List.filterMap_append, List.filterMap_append, List.any_append, hnone.1, hnone.2.1, hnone.2.2,
    List.append_nil, List.append_nil]
  exact ⟨rfl, rfl, rfl⟩

theorem ofOutcomes_outcomesUpTo (c : ParserConfig) (k : Nat) (files : List SourceFile) :
    ofOutcomes (Batch.outcomesUpTo c k files)
      = { ofFiles c (files.take k) with interrupted := decide (k < files.length) } := by
  have hempty : (!(files.drop k).isEmpty) = decide (k < files.length) := by
    rw [Bool.eq_iff_iff]
    simp
  rw [Batch.outcomesUpTo, ofOutcomes_append_none, ofOutcomes_map, hempty]
  rfl

end BatchResult

/-- A batch that is first asked to stop at the count `k` comes to what its first `k` files
come to on their own, and counts as interrupted exactly if there are more. -/
theorem runBatch_stopped (c : ParserConfig) (p : ParallelConfig) (files : List SourceFile)
    {stopped : Bool} {stopAt : Nat → Bool} {k : Nat} (h : Batch.StopsAt stopped stopAt k) :
    (runBatch c p stopped stopAt files).counts = List.range' 1 (min k files.length)
      ∧ (runBatch c p stopped stopAt files).result
        = { BatchResult.ofFiles c (files.take k) with
            interrupted := decide (k < files.length) } := by
  have hrun : Batch.IsAfter c k files (runBatch c p stopped stopAt files) := by
    rw [runBatch_eq_steps]
    exact (Batch.isAfter_start h).steps h files
  refine ⟨hrun.counts, ?_⟩
  rw [Batch.result, hrun.outcomes, BatchResult.ofOutcomes_outcomesUpTo]

/-- A batch that is worked through file by file, and asked to stop when the count `k` is told
- before it begins, if that is zero - tells the counts up to `k` in their order, or all if
there are fewer. It comes to what as many of its first files come to in a batch that nobody
stops, but counts as interrupted exactly if there are more. -/
theorem runBatch_stopped_at_count (c : ParserConfig) (p q : ParallelConfig)
    (files : List SourceFile) (k : Nat) :
    (runBatch c { p with enabled := false } (k == 0) (· == k) files).counts
        = List.range' 1 (min k files.length)
      ∧ (runBatch c { p with enabled := false } (k == 0) (· == k) files).result
        = { (runBatch c q false (fun _ => false) (files.take (min k files.length))).result with
            interrupted := decide (k < files.length) } := by
  obtain ⟨hcounts, hresult⟩ := runBatch_stopped c { p with enabled := false } files
    (Batch.stopsAt_count k)
  refine ⟨hcounts, ?_⟩
  rw [hresult, result_runBatch, ← List.take_eq_take_min]

end CodeSurvey
