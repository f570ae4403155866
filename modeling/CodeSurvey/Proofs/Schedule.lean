import CodeSurvey.Proofs.Batch
import Mathlib

/-!
# Batches whose files are worked on side by side

Within a chunk several workers take files at the same time, and what they do
to a file falls apart into steps that mix freely with the steps on other files:
read the stop flag, analyse, add one to the counter, tell the new count.
`FileStep` has one constructor for each, `Workers.Step` mixes them, and
`Workers.Run` collects the states that a batch can get into, in any order of
the steps. The flag may go up between any two of them - nothing says who raises
it - and never goes down again.

`Workers.Inv` is what holds in every such state. The counts are the core of it:
those that were told, together with those that are still held by a worker, are
`1` up to the counter, each once (`Inv.counts`); so the order in which they are
told does not matter. The barrier between chunks is the other half: a file that
was left out has seen the flag up, and a later chunk begins only after that
(`Inv.later`).

`exists_run_eq_runBatch` finds the pass of `runBatch` among the runs.
-/

namespace CodeSurvey

/-- The size of the chunks of a batch of `n` files. If nothing runs in parallel,
a file begins when the one in front of it is finished. -/
def ParallelConfig.chunkSize (p : ParallelConfig) (n : Nat) : Nat :=
  if !p.enabled || n ≤ 1 then 1 else p.effectiveBatchSize

theorem ParallelConfig.chunkSize_pos (p : ParallelConfig) (n : Nat) : 0 < p.chunkSize n := by
  unfold chunkSize
  split
  · exact Nat.one_pos
  · exact p.effectiveBatchSize_pos

/-! ## Stages of a file -/

/-- How far the work on a file has come. -/
inductive Stage where
  | waiting
  /-- The stop flag was not up when it was read. -/
  | begun
  | analyzed (o : FileOutcome)
  /-- The counter is `n` with this file, which has not been told yet. -/
  | counted (n : Nat) (o : FileOutcome)
  | finished (o : FileOutcome)
  /-- The stop flag was up when it was read. -/
  | leftOut

namespace Stage

/-- Nothing remains to be done. -/
def isOver : Stage → Bool
  | finished _ | leftOut => true
  | _ => false

/-- The counter has been increased for this file. -/
def isCounted : Stage → Bool
  | counted _ _ | finished _ => true
  | _ => false

/-- What the file came to, as far as that is known. -/
def outcome? : Stage → Option FileOutcome
  | analyzed o | counted _ o | finished o => some o
  | _ => none

/-- The count that has not been told yet. -/
def untold : Stage → List Nat
  | counted n _ => [n]
  | _ => []

/-- How many steps remain. -/
def remaining : Stage → Nat
  | waiting => 4
  | begun => 3
  | analyzed _ => 2
  | counted _ _ => 1
  | finished _ | leftOut => 0

end Stage

/-- What the workers of a batch have in common. -/
structure Shared where
  /-- Nothing if the batch has no stop flag. -/
  flag : Option Bool
  completed : Nat
  /-- The counts that were told, in the order in which this was done. -/
  told : List Nat

/-- One step of a worker on the file `f`. -/
inductive FileStep (c : ParserConfig) (f : SourceFile) : Shared → Stage → Shared → Stage → Prop
  | leave {s : Shared} : s.flag = some true → FileStep c f s .waiting s .leftOut
  | enter {s : Shared} : s.flag ≠ some true → FileStep c f s .waiting s .begun
  | analyze {s : Shared} : FileStep c f s .begun s (.analyzed (f.outcome c))
  | count {s : Shared} {o : FileOutcome} :
      FileStep c f s (.analyzed o) { s with completed := s.completed + 1 }
        (.counted (s.completed + 1) o)
  | tell {s : Shared} {n : Nat} {o : FileOutcome} :
      FileStep c f s (.counted n o) { s with told := s.told ++ [n] } (.finished o)

namespace FileStep

variable {c : ParserConfig} {f : SourceFile} {s s' : Shared} {t t' : Stage}

theorem flag_eq (h : FileStep c f s t s' t') : s'.flag = s.flag := by
  cases h <;> rfl

theorem not_isOver (h : FileStep c f s t s' t') : t.isOver = false := by
  cases h <;> rfl

theorem of_leftOut (h : FileStep c f s t s' .leftOut) : t = .waiting ∧ s.flag = some true := by
  cases h with
  | leave hup => exact ⟨rfl, hup⟩

theorem leftOut_of_waiting (h : FileStep c f s .waiting s' t') (hup : s.flag = some true) :
    t' = .leftOut := by
  cases h with
  | leave _ => rfl
  | enter hdown => exact absurd hup hdown

theorem outcome (h : FileStep c f s t s' t') (ht : ∀ o, t.outcome? = some o → o = f.outcome c) :
    ∀ o, t'.outcome? = some o → o = f.outcome c := by
  cases h with
  | leave _ => nofun
  | enter _ => nofun
  | analyze => exact fun o ho => (Option.some.inj ho).symm
  | count => exact ht
  | tell => exact ht

/-- The counter goes up exactly when a file comes to be counted. -/
theorem completed_eq (h : FileStep c f s t s' t') :
    s'.completed + t.isCounted.toNat = s.completed + t'.isCounted.toNat := by
  cases h <;> rfl

/-- A count that a worker draws is the next one, and a count that is told was
held by the worker before. -/
theorem counts (h : FileStep c f s t s' t') {rest : List Nat}
    (hs : (s.told ++ (rest ++ t.untold)).Perm (List.range' 1 s.completed)) :
    (s'.told ++ (rest ++ t'.untold)).Perm (List.range' 1 s'.completed) := by
  cases h with
  | leave _ => exact hs
  | enter _ => exact hs
  | analyze => exact hs
  | count =>
      have hnext : List.range' 1 (s.completed + 1)
          = List.range' 1 s.completed ++ [s.completed + 1] := by
        rw [List.range'_1_concat, Nat.add_comm 1]
      simp only [Stage.untold, List.append_nil] at hs ⊢
      rw [hnext, ← List.append_assoc]
      exact hs.append_right _
  | @tell n o =>
      simp only [Stage.untold, List.append_nil] at hs ⊢
      refine List.Perm.trans ?_ hs
      rw [List.append_assoc]
      exact List.perm_append_comm.append_left s.told

theorem remaining_lt (h : FileStep c f s t s' t') : t'.remaining < t.remaining := by
  cases h <;> simp [Stage.remaining]

/-- Whatever is not over can go on. -/
theorem exists_of_not_isOver (c : ParserConfig) (f : SourceFile) (s : Shared)
    (ht : t.isOver = false) : ∃ s' t', FileStep c f s t s' t' := by
  cases t with
  | waiting =>
      by_cases hup : s.flag = some true
      · exact ⟨_, _, leave hup⟩
      · exact ⟨_, _, enter hup⟩
  | begun => exact ⟨_, _, analyze⟩
  | analyzed o => exact ⟨_, _, count⟩
  | counted n o => exact ⟨_, _, tell⟩
  | finished o => cases ht
  | leftOut => cases ht

end FileStep

/-! ## Runs -/

/-- A batch in the hands of its workers. -/
structure Workers where
  shared : Shared
  /-- One stage per file, in the order of the files. -/
  stages : List Stage

namespace Workers

def start (flag : Option Bool) (n : Nat) : Workers := ⟨⟨flag, 0, []⟩, List.replicate n .waiting⟩

/-- The chunks in front of the file at place `k` are finished, if `pre` are the
stages in front of it. -/
def Ready (size k : Nat) (pre : List Stage) : Prop :=
  ∀ i t, pre[i]? = some t → i / size < k / size → t.isOver = true

/-- A step of one worker, or the flag goes up. Only the first step on a file
waits for the chunks in front of it. -/
inductive Step (c : ParserConfig) (size : Nat) (files : List SourceFile) : Workers → Workers → Prop
  | file {s s' : Shared} {pre post : List Stage} {t t' : Stage} {f : SourceFile} :
      files[pre.length]? = some f → (t = .waiting → Ready size pre.length pre) →
      FileStep c f s t s' t' → Step c size files ⟨s, pre ++ t :: post⟩ ⟨s', pre ++ t' :: post⟩
  | raise {s : Shared} {stages : List Stage} : s.flag = some false →
      Step c size files ⟨s, stages⟩ ⟨{ s with flag := some true }, stages⟩

/-- The states that the batch of `files` can get into, if its flag is `flag`
when it begins. -/
def Run (c : ParserConfig) (p : ParallelConfig) (files : List SourceFile) (flag : Option Bool)
    (w : Workers) : Prop :=
  Relation.ReflTransGen (Step c (p.chunkSize files.length) files) (start flag files.length) w

/-- The batch is over: every file is finished or left out. -/
def Over (w : Workers) : Prop := ∀ t ∈ w.stages, t.isOver = true

def outcomes (w : Workers) : List (Option FileOutcome) := w.stages.map (·.outcome?)

def result (w : Workers) : BatchResult := .ofOutcomes w.outcomes

/-- The files that were not left out, in their order. -/
def finishedFiles (files : List SourceFile) (w : Workers) : List SourceFile :=
  ((files.zip w.stages).filter fun (_, t) => t.outcome?.isSome).map (·.1)

/-! ## What holds in every state of a run -/

section Place

variable {pre post : List Stage} {t t' : Stage}

theorem getElem?_place : (pre ++ t :: post)[pre.length]? = some t := by
  simp

theorem getElem?_elsewhere {i : Nat} (hi : i ≠ pre.length) :
    (pre ++ t' :: post)[i]? = (pre ++ t :: post)[i]? := by
  rcases Nat.lt_or_gt_of_ne hi with h | h
  · rw [List.getElem?_append_left h, List.getElem?_append_left h]
  · obtain ⟨k, hk⟩ : ∃ k, i - pre.length = k + 1 := ⟨i - pre.length - 1, by omega⟩
    rw [List.getElem?_append_right (Nat.le_of_lt h), List.getElem?_append_right (Nat.le_of_lt h),
      hk, List.getElem?_cons_succ, List.getElem?_cons_succ]

theorem countP_place : (pre ++ t :: post).countP (·.isCounted)
    = pre.countP (·.isCounted) + post.countP (·.isCounted) + t.isCounted.toNat := by
  rw [List.countP_append, List.countP_cons, Nat.add_assoc]
  cases t.isCounted <;> rfl

end Place

structure Inv (c : ParserConfig) (size : Nat) (files : List SourceFile) (w : Workers) : Prop where
  length : w.stages.length = files.length
  outcome : ∀ {i : Nat} {f : SourceFile} {t : Stage}, files[i]? = some f → w.stages[i]? = some t →
    ∀ o, t.outcome? = some o → o = f.outcome c
  completed : w.shared.completed = w.stages.countP (·.isCounted)
  counts : (w.shared.told ++ w.stages.flatMap (·.untold)).Perm (List.range' 1 w.shared.completed)
  flag : .leftOut ∈ w.stages → w.shared.flag = some true
  barrier : ∀ {i j : Nat} {t u : Stage}, w.stages[i]? = some t → w.stages[j]? = some u →
    i / size < j / size → u ≠ .waiting → t.isOver = true
  later : ∀ {i j : Nat} {u : Stage}, w.stages[i]? = some .leftOut → w.stages[j]? = some u →
    i / size < j / size → u = .waiting ∨ u = .leftOut

theorem inv_start (c : ParserConfig) (size : Nat) (files : List SourceFile) (flag : Option Bool) :
    Inv c size files (start flag files.length) := by
  have hstage : ∀ {i : Nat} {t : Stage},
      (List.replicate files.length Stage.waiting)[i]? = some t → t = .waiting := fun h =>
    List.eq_of_mem_replicate (List.mem_of_getElem? h)
  refine ⟨List.length_replicate, ?_, ?_, ?_, ?_, ?_, ?_⟩
  · intro i f t _ ht o ho
    rw [hstage ht] at ho
    cases ho
  · simp [start, List.countP_replicate, Stage.isCounted]
  · simp [start, List.flatMap_replicate, Stage.untold]
  · intro hmem
    cases List.eq_of_mem_replicate hmem
  · intro i j t u _ hu _ hne
    exact absurd (hstage hu) hne
  · intro i j u hi _ _
    cases hstage hi

section File

variable {c : ParserConfig} {size : Nat} {files : List SourceFile} {s s' : Shared}
  {pre post : List Stage} {t t' : Stage} {f : SourceFile}

/-- A step on a file of a chunk finds the chunks in front of it finished, and
leaves the barrier as it is. -/
theorem barrier_file (hinv : Inv c size files ⟨s, pre ++ t :: post⟩)
    (hready : t = .waiting → Ready size pre.length pre) (h : FileStep c f s t s' t')
    {i j : Nat} {u v : Stage} (hi : (pre ++ t' :: post)[i]? = some u)
    (hj : (pre ++ t' :: post)[j]? = some v) (hij : i / size < j / size) (hv : v ≠ .waiting) :
    u.isOver = true := by
  by_cases hip : i = pre.length
  · -- no file of a later chunk can have begun, because this one was not over
    subst hip
    have hjp : j ≠ pre.length := Nat.ne_of_gt (Nat.lt_of_div_lt_div hij)
    rw [getElem?_elsewhere (t := t) hjp] at hj
    have := hinv.barrier getElem?_place hj hij hv
    rw [h.not_isOver] at this
    cases this
  · rw [getElem?_elsewhere (t := t) hip] at hi
    by_cases hjp : j = pre.length
    · subst hjp
      by_cases hw : t = .waiting
      · have hlt : i < pre.length := Nat.lt_of_div_lt_div hij
        rw [List.getElem?_append_left hlt] at hi
        exact hready hw i u hi hij
      · exact hinv.barrier hi getElem?_place hij hw
    · rw [getElem?_elsewhere (t := t) hjp] at hj
      exact hinv.barrier hi hj hij hv

/-- Once a file was left out the flag is up, so the files that begin in later
chunks are left out as well. -/
theorem later_file (hinv : Inv c size files ⟨s, pre ++ t :: post⟩) (h : FileStep c f s t s' t')
    {i j : Nat} {u : Stage} (hi : (pre ++ t' :: post)[i]? = some .leftOut)
    (hj : (pre ++ t' :: post)[j]? = some u) (hij : i / size < j / size) :
    u = .waiting ∨ u = .leftOut := by
  by_cases hip : i = pre.length
  · subst hip
    have hjp : j ≠ pre.length := Nat.ne_of_gt (Nat.lt_of_div_lt_div hij)
    rw [getElem?_elsewhere (t := t) hjp] at hj
    by_cases hu : u = .waiting
    · exact Or.inl hu
    · have := hinv.barrier getElem?_place hj hij hu
      rw [h.not_isOver] at this
      cases this
  · rw [getElem?_elsewhere (t := t) hip] at hi
    by_cases hjp : j = pre.length
    · subst hjp
      obtain rfl : t' = u := Option.some.inj (getElem?_place.symm.trans hj)
      have hup : s.flag = some true := hinv.flag (List.mem_of_getElem? hi)
      rcases hinv.later hi getElem?_place hij with rfl | rfl
      · exact Or.inr (h.leftOut_of_waiting hup)
      · cases h.not_isOver
    · rw [getElem?_elsewhere (t := t) hjp] at hj
      exact hinv.later hi hj hij

theorem inv_file (hinv : Inv c size files ⟨s, pre ++ t :: post⟩) (hf : files[pre.length]? = some f)
    (hready : t = .waiting → Ready size pre.length pre) (h : FileStep c f s t s' t') :
    Inv c size files ⟨s', pre ++ t' :: post⟩ where
  length := by simpa using hinv.length
  outcome := by
    intro i g u hg hu
    by_cases hip : i = pre.length
    · subst hip
      obtain rfl : f = g := Option.some.inj (hf.symm.trans hg)
      obtain rfl : t' = u := Option.some.inj (getElem?_place.symm.trans hu)
      exact h.outcome (hinv.outcome hf getElem?_place)
    · exact hinv.outcome hg ((getElem?_elsewhere hip).symm.trans hu)
  completed := by
    have hold := hinv.completed
    have hnew := h.completed_eq
    simp only [countP_place] at hold ⊢
    omega
  counts := by
    have hold := hinv.counts
    simp only [List.flatMap_append, List.flatMap_cons] at hold ⊢
    have hmove : ∀ u : Stage, (pre.flatMap (·.untold) ++ (u.untold ++ post.flatMap (·.untold))).Perm
        ((pre.flatMap (·.untold) ++ post.flatMap (·.untold)) ++ u.untold) := fun u => by
      rw [List.append_assoc]
      exact List.perm_append_comm.append_left _
    refine ((hmove t').append_left _).trans (h.counts ?_)
    exact ((hmove t).append_left _).symm.trans hold
  flag := by
    intro hmem
    show s'.flag = some true
    rw [h.flag_eq]
    rcases List.mem_append.mp hmem with hmem | hmem
    · exact hinv.flag (List.mem_append_left _ hmem)
    · rcases List.mem_cons.mp hmem with rfl | hmem
      · exact h.of_leftOut.2
      · exact hinv.flag (List.mem_append_right _ (List.mem_cons_of_mem _ hmem))
  barrier := barrier_file hinv hready h
  later := later_file hinv h

end File

theorem inv_step {c : ParserConfig} {size : Nat} {files : List SourceFile} {w w' : Workers}
    (hinv : Inv c size files w) (h : Step c size files w w') : Inv c size files w' := by
  cases h with
  | file hf hready hstep => exact inv_file hinv hf hready hstep
  | raise _ =>
      exact ⟨hinv.length, hinv.outcome, hinv.completed, hinv.counts, fun _ => rfl, hinv.barrier,
        hinv.later⟩

theorem Run.inv {c : ParserConfig} {p : ParallelConfig} {files : List SourceFile}
    {flag : Option Bool} {w : Workers} (h : Run c p files flag w) :
    Inv c (p.chunkSize files.length) files w := by
  induction h with
  | refl => exact inv_start ..
  | tail _ hstep ih => exact inv_step ih hstep

/-! ## How a run ends -/

section Over

variable {c : ParserConfig} {size : Nat} {files : List SourceFile} {w : Workers}

theorem untold_of_over (hover : w.Over) : w.stages.flatMap (·.untold) = [] := by
  rw [List.flatMap_eq_nil_iff]
  intro t ht
  have := hover t ht
  cases t <;> first | rfl | cases this

theorem countP_of_over (hover : w.Over) :
    w.stages.countP (·.isCounted) = w.outcomes.countP (·.isSome) := by
  rw [outcomes, List.countP_map]
  refine List.countP_congr fun t ht => ?_
  have := hover t ht
  cases t <;> first | rfl | cases this

/-- The counter ends at the number of files that have a record. -/
theorem Inv.completed_of_over (hinv : Inv c size files w) (hover : w.Over) :
    w.result.parsed.length + w.result.skipped.length = w.shared.completed := by
  rw [result, BatchResult.length_ofOutcomes, hinv.completed, countP_of_over hover]

theorem Inv.told_of_over (hinv : Inv c size files w) (hover : w.Over) :
    w.shared.told.Perm
      (List.range' 1 (w.result.parsed.length + w.result.skipped.length)) := by
  have h := hinv.counts
  rwa [untold_of_over hover, List.append_nil, ← hinv.completed_of_over hover] at h

theorem Inv.interrupted_iff (hinv : Inv c size files w) :
    w.result.interrupted = true
      ↔ w.result.parsed.length + w.result.skipped.length < files.length := by
  rw [result, BatchResult.interrupted_ofOutcomes, BatchResult.length_ofOutcomes, outcomes,
    List.length_map, hinv.length]

theorem Inv.leftOut_of_over (hinv : Inv c size files w) (hover : w.Over) {i j : Nat}
    (hij : i / size < j / size) (hj : j < files.length) (hi : w.stages[i]? = some .leftOut) :
    w.stages[j]? = some .leftOut := by
  obtain ⟨u, hu⟩ : ∃ u, w.stages[j]? = some u :=
    ⟨_, List.getElem?_eq_getElem (hinv.length ▸ hj)⟩
  rcases hinv.later hi hu hij with rfl | rfl
  · cases hover _ (List.mem_of_getElem? hu)
  · exact hu

theorem Inv.finishedFiles_sublist (hinv : Inv c size files w) :
    (w.finishedFiles files).Sublist files := by
  have hall : (files.zip w.stages).map (·.1) = files :=
    List.map_fst_zip (Nat.le_of_eq hinv.length.symm)
  have h : (w.finishedFiles files).Sublist ((files.zip w.stages).map (·.1)) := by
    unfold finishedFiles
    exact List.filter_sublist.map Prod.fst
  rwa [hall] at h

theorem outcomes_finishedFiles {stages : List Stage}
    (h : List.Forall₂ (fun f t => ∀ o, t.outcome? = some o → o = SourceFile.outcome c f)
      files stages) (s : Shared) :
    (outcomes ⟨s, stages⟩).filterMap id
      = (finishedFiles files ⟨s, stages⟩).map (·.outcome c) := by
  induction h with
  | nil => rfl
  | @cons f t files stages hft _ ih =>
      simp only [outcomes, finishedFiles] at ih
      cases ho : t.outcome? with
      | none => simpa [outcomes, finishedFiles, ho] using ih
      | some o => simpa [outcomes, finishedFiles, ho, hft o ho] using ih

/-- The records are those of the finished files, each analysed on its own. -/
theorem Inv.records (hinv : Inv c size files w) :
    w.result.parsed = (BatchResult.ofFiles c (w.finishedFiles files)).parsed
      ∧ w.result.skipped = (BatchResult.ofFiles c (w.finishedFiles files)).skipped := by
  have hall : List.Forall₂ (fun f t => ∀ o, t.outcome? = some o → o = SourceFile.outcome c f)
      files w.stages := List.forall₂_iff_get.mpr ⟨hinv.length.symm, fun i hi hi' =>
    hinv.outcome (List.getElem?_eq_getElem hi) (List.getElem?_eq_getElem hi')⟩
  have hmap := outcomes_finishedFiles hall w.shared
  have hfiles : (w.outcomes.filterMap id).map some
      = (w.finishedFiles files).map fun f => some (f.outcome c) := by
    rw [show w.outcomes.filterMap id = _ from hmap, List.map_map]
    rfl
  have h := BatchResult.ofOutcomes_some_filterMap w.outcomes
  rwa [hfiles, BatchResult.ofOutcomes_map] at h

end Over

/-! ## Every run can be brought to its end -/

section Progress

variable {c : ParserConfig} {size : Nat} {files : List SourceFile} {w w' : Workers}

/-- How many steps remain at most, that of the flag included. -/
def remaining (w : Workers) : Nat :=
  totalOf (·.remaining) w.stages + if w.shared.flag = some false then 1 else 0

theorem remaining_step (h : Step c size files w w') : w'.remaining < w.remaining := by
  cases h with
  | file _ _ hstep =>
      have := hstep.remaining_lt
      simp only [remaining, totalOf_append, totalOf, hstep.flag_eq]
      omega
  | raise hdown => simp [remaining, hdown]

/-- The first file that is not over can always go on: no chunk in front of it is
waited for. -/
theorem exists_step (hinv : Inv c size files w) (hover : ¬w.Over) :
    ∃ w', Step c size files w w' := by
  obtain ⟨s, stages⟩ := w
  obtain ⟨t, hfind⟩ : ∃ t, stages.find? (!·.isOver) = some t := by
    rw [← Option.isSome_iff_exists, List.find?_isSome]
    simpa [Over] using hover
  obtain ⟨ht, pre, post, rfl, hpre⟩ := List.find?_eq_some_iff_append.mp hfind
  obtain ⟨f, hf⟩ : ∃ f, files[pre.length]? = some f := by
    have hlen := hinv.length
    simp only [List.length_append, List.length_cons] at hlen
    exact ⟨_, List.getElem?_eq_getElem (by omega)⟩
  obtain ⟨s', t', hstep⟩ := FileStep.exists_of_not_isOver c f s (by simpa using ht)
  refine ⟨_, Step.file hf (fun _ i u hi _ => ?_) hstep⟩
  simpa using hpre u (List.mem_of_getElem? hi)

theorem exists_over (hinv : Inv c size files w) :
    ∃ w', Relation.ReflTransGen (Step c size files) w w' ∧ w'.Over := by
  induction hn : w.remaining using Nat.strongRecOn generalizing w with
  | ind n ih =>
      by_cases hover : w.Over
      · exact ⟨w, .refl, hover⟩
      · obtain ⟨w', hstep⟩ := exists_step hinv hover
        obtain ⟨w'', hsteps, hover'⟩ :=
          ih w'.remaining (hn ▸ remaining_step hstep) (inv_step hinv hstep) rfl
        exact ⟨w'', .head hstep hsteps, hover'⟩

end Progress

end Workers

/-! ## The pass of a single worker -/

/-- The stage of a file that is over. -/
def Stage.ofOutcome : Option FileOutcome → Stage
  | some o => .finished o
  | none => .leftOut

@[simp] theorem Stage.outcome?_ofOutcome (o : Option FileOutcome) :
    (Stage.ofOutcome o).outcome? = o := by
  cases o <;> rfl

theorem Stage.isOver_ofOutcome (o : Option FileOutcome) : (Stage.ofOutcome o).isOver = true := by
  cases o <;> rfl

namespace Batch

open Workers

/-- A batch at work as its single worker sees it, with `n` files to come. -/
def toWorkers (b : Batch) (n : Nat) : Workers :=
  ⟨⟨some b.stopped, b.counts.length, b.counts⟩,
    b.outcomes.map Stage.ofOutcome ++ List.replicate n .waiting⟩

section Single

variable {c : ParserConfig} {size : Nat} {files : List SourceFile}

/-- A file that is taken while the flag is up takes one step, any other four,
and one more if the flag goes up behind it. -/
theorem toWorkers_step (stopAt : Nat → Bool) (b : Batch) (n : Nat) {f : SourceFile}
    (hf : files[b.outcomes.length]? = some f) :
    Relation.ReflTransGen (Step c size files) (b.toWorkers (n + 1))
      ((b.step c stopAt f).toWorkers n) := by
  obtain ⟨stopped, counts, outcomes⟩ := b
  have hf' : files[(outcomes.map Stage.ofOutcome).length]? = some f := by simpa using hf
  have hready : Ready size (outcomes.map Stage.ofOutcome).length (outcomes.map Stage.ofOutcome) := by
    intro i t hi _
    obtain ⟨o, -, rfl⟩ := List.mem_map.mp (List.mem_of_getElem? hi)
    exact Stage.isOver_ofOutcome o
  have hstep : ∀ {s s' : Shared} {t t' : Stage}, FileStep c f s t s' t' →
      Step c size files ⟨s, outcomes.map Stage.ofOutcome ++ t :: List.replicate n .waiting⟩
        ⟨s', outcomes.map Stage.ofOutcome ++ t' :: List.replicate n .waiting⟩ :=
    fun h => Step.file hf' (fun _ => hready) h
  cases stopped with
  | true =>
      refine .head (hstep (FileStep.leave rfl)) ?_
      simp [Batch.step, toWorkers, Stage.ofOutcome, Relation.ReflTransGen.refl]
  | false =>
      have hdown : some false ≠ some true := by decide
      refine .head (hstep (FileStep.enter hdown)) (.head (hstep .analyze) (.head (hstep .count)
        (.head (hstep .tell) ?_)))
      cases hstop : stopAt (counts.length + 1) with
      | false =>
          simp [Batch.step, toWorkers, Stage.ofOutcome, hstop, Relation.ReflTransGen.refl]
      | true =>
          refine .head (Step.raise rfl) ?_
          simp [Batch.step, toWorkers, Stage.ofOutcome, hstop, Relation.ReflTransGen.refl]

theorem toWorkers_steps (stopAt : Nat → Bool) {done rest : List SourceFile}
    (hfiles : files = done ++ rest) {b : Batch} (hb : b.outcomes.length = done.length) :
    Relation.ReflTransGen (Step c size files) (b.toWorkers rest.length)
      ((b.steps c stopAt rest).toWorkers 0) := by
  induction rest generalizing done b with
  | nil => exact .refl
  | cons f rest ih =>
      have hf : files[b.outcomes.length]? = some f := by simp [hfiles, hb]
      have hlen : (b.step c stopAt f).outcomes.length = (done ++ [f]).length := by
        rw [List.length_append, List.length_singleton, ← hb]
        unfold Batch.step
        split <;> simp
      have hfiles' : files = (done ++ [f]) ++ rest := by rw [hfiles, List.append_assoc]; rfl
      exact (toWorkers_step stopAt b rest.length hf).trans (ih hfiles' hlen)

end Single

/-- The pass of `runBatch` is one of the runs. -/
theorem exists_run_eq_runBatch (c : ParserConfig) (p : ParallelConfig) (stopped : Bool)
    (stopAt : Nat → Bool) (files : List SourceFile) :
    ∃ w, Run c p files (some stopped) w ∧ w.Over
      ∧ w.outcomes = (runBatch c p stopped stopAt files).outcomes
      ∧ w.shared.told = (runBatch c p stopped stopAt files).counts := by
  have hrun : Run c p files (some stopped)
      (((Batch.start stopped).steps c stopAt files).toWorkers 0) :=
    toWorkers_steps stopAt (b := Batch.start stopped) (List.nil_append files).symm rfl
  rw [runBatch_eq_steps]
  refine ⟨_, hrun, ?_, ?_, rfl⟩
  · intro t ht
    simp only [toWorkers, List.replicate_zero, List.append_nil] at ht
    obtain ⟨o, -, rfl⟩ := List.mem_map.mp ht
    exact Stage.isOver_ofOutcome o
  · simp [Workers.outcomes, toWorkers, Function.comp_def]

end Batch

/-! ## What a batch accounts for -/

namespace Workers

section Unstopped

variable {c : ParserConfig} {size : Nat} {files : List SourceFile} {w w' : Workers}

theorem flag_of_step (h : Step c size files w w') (hflag : w.shared.flag = none) :
    w'.shared.flag = none := by
  cases h with
  | file _ _ hstep => exact hstep.flag_eq.trans hflag
  | raise hdown => exact absurd (hflag.symm.trans hdown) nofun

theorem Run.flag_none {p : ParallelConfig} (h : Run c p files none w) : w.shared.flag = none := by
  induction h with
  | refl => rfl
  | tail _ hstep ih => exact flag_of_step hstep ih

/-- Without a stop flag no file is left out. -/
theorem Inv.result_of_flag_none (hinv : Inv c size files w) (hflag : w.shared.flag = none)
    (hover : w.Over) : w.result = BatchResult.ofFiles c files := by
  have hknown : ∀ t ∈ w.stages, t.outcome?.isSome = true := by
    intro t ht
    have hend := hover t ht
    cases t with
    | finished o => rfl
    | leftOut => exact absurd (hflag.symm.trans (hinv.flag ht)) nofun
    | waiting | begun | analyzed | counted => cases hend
  have hfinished : w.finishedFiles files = files := by
    have hall : (files.zip w.stages).filter (fun x => x.2.outcome?.isSome)
        = files.zip w.stages := List.filter_eq_self.mpr fun x hx =>
      hknown x.2 (List.of_mem_zip hx).2
    rw [finishedFiles, hall]
    exact List.map_fst_zip (Nat.le_of_eq hinv.length.symm)
  have hnone : w.result.interrupted = false := by
    simpa [result, BatchResult.ofOutcomes, outcomes] using fun t ht =>
      Option.isSome_iff_ne_none.mp (hknown t ht)
  obtain ⟨hparsed, hskipped⟩ := hinv.records
  rw [hfinished] at hparsed hskipped
  calc w.result = ⟨w.result.parsed, w.result.skipped, w.result.interrupted⟩ := rfl
    _ = BatchResult.ofFiles c files := by rw [hparsed, hskipped, hnone]; rfl

end Unstopped

/-- How a batch is spread does not matter if nobody can stop it: in any order of
the steps it comes to what its files come to on their own, and so does the pass
of `runBatch` under any other setting. The chunks are the files in their order,
cut into parts that are neither empty nor too large, and every file has one
record, among those that were parsed or those that were skipped. -/
theorem batch_result_of_unstopped (c : ParserConfig) (p q : ParallelConfig)
    (files : List SourceFile) :
    (runBatch c p false (fun _ => false) files).result
        = (runBatch c q false (fun _ => false) files).result
      ∧ (runBatch c p false (fun _ => false) files).result = BatchResult.ofFiles c files
      ∧ (∀ w, Run c p files none w → w.Over → w.result = BatchResult.ofFiles c files)
      ∧ (∃ w, Run c p files none w ∧ w.Over)
      ∧ 0 < p.effectiveBatchSize
      ∧ (chunksOf p.effectiveBatchSize files).flatten = files
      ∧ (∀ chunk ∈ chunksOf p.effectiveBatchSize files,
        0 < chunk.length ∧ chunk.length ≤ p.effectiveBatchSize)
      ∧ (BatchResult.ofFiles c files).parsed.map (·.path)
        = (files.filter (·.parses c)).map (·.path)
      ∧ (BatchResult.ofFiles c files).skipped.map (·.path)
        = (files.filter (!·.parses c)).map (·.path)
      ∧ (BatchResult.ofFiles c files).parsed.length + (BatchResult.ofFiles c files).skipped.length
        = files.length
      ∧ (BatchResult.ofFiles c files).interrupted = false := by
  refine ⟨?_, result_runBatch c p files, fun w hrun hover => ?_, ?_, p.effectiveBatchSize_pos,
    flatten_chunksOf p.effectiveBatchSize_pos files, fun _ => length_of_mem_chunksOf,
    BatchResult.paths_parsed_ofFiles c files, BatchResult.paths_skipped_ofFiles c files, ?_, rfl⟩
  · rw [result_runBatch, result_runBatch]
  · exact hrun.inv.result_of_flag_none hrun.flag_none hover
  · exact exists_over (inv_start c _ files none)
  · rw [← BatchResult.ofOutcomes_map, BatchResult.length_ofOutcomes]
    simp

/-- Whatever the order of the steps, at the end of a batch the counts that were
told are `1` to the number of files with a record, each once; the batch counts
as interrupted exactly if that is not all files; the records are those of the
finished files on their own, in their order; and behind a chunk of which a file
was left out all files are, where the file at place `i` is in chunk `i / size`.
No run is stuck before its end, and the pass of `runBatch` is a run. -/
theorem run_accounts_for_files (c : ParserConfig) (p : ParallelConfig) (files : List SourceFile) :
    (∀ flag w, Run c p files flag w → w.Over →
      w.shared.told.Perm (List.range' 1 (w.result.parsed.length + w.result.skipped.length))
        ∧ (w.result.interrupted = true
          ↔ w.result.parsed.length + w.result.skipped.length < files.length)
        ∧ (w.finishedFiles files).Sublist files
        ∧ w.result.parsed = (BatchResult.ofFiles c (w.finishedFiles files)).parsed
        ∧ w.result.skipped = (BatchResult.ofFiles c (w.finishedFiles files)).skipped
        ∧ ∀ i j, i / p.chunkSize files.length < j / p.chunkSize files.length → j < files.length →
          w.stages[i]? = some .leftOut → w.stages[j]? = some .leftOut)
      ∧ (∀ flag w, Run c p files flag w → ∃ w', Run c p files flag w' ∧ w'.Over
        ∧ Relation.ReflTransGen (Step c (p.chunkSize files.length) files) w w')
      ∧ (∀ i, (chunksOf (p.chunkSize files.length) files)[i / p.chunkSize files.length]?.bind
        (fun chunk => chunk[i % p.chunkSize files.length]?) = files[i]?)
      ∧ ∀ stopped stopAt, ∃ w, Run c p files (some stopped) w ∧ w.Over
        ∧ w.outcomes = (runBatch c p stopped stopAt files).outcomes
        ∧ w.shared.told = (runBatch c p stopped stopAt files).counts := by
  refine ⟨fun flag w hrun hover => ?_, fun flag w hrun => ?_,
    getElem?_chunksOf (p.chunkSize_pos files.length) files, fun stopped stopAt => ?_⟩
  · have hinv := hrun.inv
    obtain ⟨hparsed, hskipped⟩ := hinv.records
    exact ⟨hinv.told_of_over hover, hinv.interrupted_iff, hinv.finishedFiles_sublist, hparsed,
      hskipped, fun i j hij hj hi => hinv.leftOut_of_over hover hij hj hi⟩
  · obtain ⟨w', hsteps, hover⟩ := exists_over hrun.inv
    exact ⟨w', hrun.trans hsteps, hover, hsteps⟩
  · exact Batch.exists_run_eq_runBatch c p stopped stopAt files

end Workers

end CodeSurvey
