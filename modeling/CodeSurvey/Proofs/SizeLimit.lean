import CodeSurvey.Proofs.Batch
import CodeSurvey.Proofs.IgnoreFaults

/-!
# The limit on the size of a file

The limit is applied twice: a walk lists a file that is too large without
reading it, and the analysis refuses it. Both go by the size on disk, so for the
batch it makes no difference whether the walk knows the limit: file by file the
outcome is the same (`FoundFile.map_outcome_source?`), and a batch depends on
nothing but the outcomes of its files (`steps_eq_foldl`). Where the walk fails, it
fails before it looks at a file, so there the limit makes no difference either.
-/

namespace CodeSurvey

namespace FoundFile

variable {c : ParserConfig} {f : FoundFile}

theorem utf8ByteSize_of_fromUTF8? {content : ByteArray} {s : String}
    (h : String.fromUTF8? content = some s) : s.utf8ByteSize = content.size := by
  unfold String.fromUTF8? at h
  split at h
  · obtain rfl := Option.some.inj h
    rfl
  · cases h

/-- A file that is listed without its content. -/
theorem source?_of_lt {limit : Nat} (hpos : 0 < limit) (hlt : limit < f.content.size) :
    f.source? limit = some ⟨f.path, "", f.content.size⟩ := by
  simp [source?, hpos, hlt]

theorem source?_of_not_lt {limit : Nat} (h : ¬(0 < limit ∧ limit < f.content.size)) {s : String}
    (hs : String.fromUTF8? f.content = some s) :
    f.source? limit = some ⟨f.path, s, f.content.size⟩ := by
  simp [source?, h, hs]

/-- The reason that is listed for a file above the limit. -/
def tooLarge (c : ParserConfig) (f : FoundFile) : SkippedFile :=
  if f.language.isAnalyzable then
    ⟨f.path, .tooLarge, some ("file is " ++ toString f.content.size ++ " bytes, limit is "
      ++ toString c.maxFileBytes)⟩
  else ⟨f.path, .unsupportedLanguage, none⟩

/-- Above the limit the size alone decides, read or not. -/
theorem outcome_of_lt (hpos : 0 < c.maxFileBytes) (hlt : c.maxFileBytes < f.content.size)
    {s : String} (hs : s.utf8ByteSize ≤ f.content.size) :
    (SourceFile.mk f.path s f.content.size).outcome c = .error (f.tooLarge c) := by
  have hbytes : (SourceFile.mk f.path s f.content.size).bytes = f.content.size :=
    Nat.max_eq_left hs
  have hlanguage : (SourceFile.mk f.path s f.content.size).language = f.language := rfl
  have hanalyze : (SourceFile.mk f.path s f.content.size).analyze c
      = .error (if f.language.isAnalyzable then .tooLarge f.content.size c.maxFileBytes
        else .unsupportedLanguage) := by
    rw [SourceFile.analyze, hlanguage, hbytes, Language.isAnalyzable]
    cases f.language.dialect? with
    | none => rfl
    | some d => exact if_pos ⟨hpos, hlt⟩
  rw [SourceFile.outcome, hanalyze, tooLarge]
  cases f.language.isAnalyzable <;> rfl

theorem outcome_unread (hpos : 0 < c.maxFileBytes) (hlt : c.maxFileBytes < f.content.size) :
    (SourceFile.mk f.path "" f.content.size).outcome c = .error (f.tooLarge c) :=
  have hempty : "".utf8ByteSize ≤ f.content.size := Nat.zero_le _
  outcome_of_lt hpos hlt hempty

/-- A text comes to the same whether the walk knows the limit or not. -/
theorem map_outcome_source? (htext : (String.fromUTF8? f.content).isSome = true) :
    (f.source? c.maxFileBytes).map (·.outcome c) = (f.source? 0).map (·.outcome c) := by
  obtain ⟨s, hs⟩ := Option.isSome_iff_exists.mp htext
  have hoff : ¬(0 < 0 ∧ 0 < f.content.size) := fun h => Nat.lt_irrefl 0 h.1
  rw [source?_of_not_lt hoff hs]
  by_cases hlarge : 0 < c.maxFileBytes ∧ c.maxFileBytes < f.content.size
  · rw [source?_of_lt hlarge.1 hlarge.2, Option.map_some, Option.map_some,
      outcome_unread hlarge.1 hlarge.2,
      outcome_of_lt hlarge.1 hlarge.2 (Nat.le_of_eq (utf8ByteSize_of_fromUTF8? hs))]
  · rw [source?_of_not_lt hlarge hs]

end FoundFile

/-! ## Batches with the same outcomes -/

/-- A batch looks at its files only through their outcomes. -/
theorem steps_eq_foldl (c : ParserConfig) (stopAt : Nat → Bool) (b : Batch)
    (files : List SourceFile) :
    b.steps c stopAt files = (files.map (·.outcome c)).foldl (fun b o =>
      if b.stopped then { b with outcomes := b.outcomes ++ [none] }
      else ⟨stopAt (b.counts.length + 1), b.counts ++ [b.counts.length + 1],
        b.outcomes ++ [some o]⟩) b := by
  rw [List.foldl_map]
  rfl

theorem runBatch_congr (c : ParserConfig) (p : ParallelConfig) (stopped : Bool)
    (stopAt : Nat → Bool) {xs ys : List SourceFile}
    (h : xs.map (·.outcome c) = ys.map (·.outcome c)) :
    runBatch c p stopped stopAt xs = runBatch c p stopped stopAt ys := by
  rw [runBatch_eq_steps, runBatch_eq_steps, steps_eq_foldl, steps_eq_foldl, h]

/-! ## Directories of texts -/

/-- Every file in a tree is a text. -/
def Entries.IsText (entries : Entries) : Prop :=
  ∀ names content, Entries.Reaches entries names (.file content) →
    (String.fromUTF8? content).isSome = true

section Collected

variable (c : ParserConfig) {found : List FoundFile}

theorem map_outcome_collected (htext : ∀ f ∈ found, (String.fromUTF8? f.content).isSome = true) :
    (found.filterMap (·.source? c.maxFileBytes)).map (·.outcome c)
      = (found.filterMap (·.source? 0)).map (·.outcome c) := by
  rw [List.map_filterMap, List.map_filterMap]
  exact List.filterMap_congr fun f hf => FoundFile.map_outcome_source? (htext f hf)

/-- What has a record was read, and was not above the limit. -/
theorem exists_text_of_mem_parsed {r : ParsedFile}
    (h : r ∈ (BatchResult.ofFiles c (found.filterMap (·.source? c.maxFileBytes))).parsed) :
    ∃ f ∈ found, ∃ s, String.fromUTF8? f.content = some s
      ∧ (c.maxFileBytes = 0 ∨ f.content.size ≤ c.maxFileBytes)
      ∧ (SourceFile.mk f.path s f.content.size).analyze c = .ok r := by
  obtain ⟨src, hsrc, hr⟩ := List.mem_filterMap.mp h
  obtain ⟨f, hf, hsource⟩ := List.mem_filterMap.mp hsrc
  have hok : src.analyze c = .ok r := by
    cases ha : src.analyze c with
    | error e => simp [ha] at hr
    | ok r' => simpa [ha] using hr
  by_cases hlarge : 0 < c.maxFileBytes ∧ c.maxFileBytes < f.content.size
  · have hout := FoundFile.outcome_unread hlarge.1 hlarge.2
    rw [FoundFile.source?_of_lt hlarge.1 hlarge.2] at hsource
    obtain rfl := Option.some.inj hsource
    rw [SourceFile.outcome, hok] at hout
    cases hout
  · cases hs : String.fromUTF8? f.content with
    | none => simp [FoundFile.source?, hlarge, hs] at hsource
    | some s =>
        rw [FoundFile.source?_of_not_lt hlarge hs] at hsource
        obtain rfl := Option.some.inj hsource
        exact ⟨f, hf, s, hs, by omega, hok⟩

/-- What is above the limit is listed with the reason. -/
theorem tooLarge_mem_skipped {f : FoundFile} (hf : f ∈ found) (hpos : 0 < c.maxFileBytes)
    (hlt : c.maxFileBytes < f.content.size) : f.tooLarge c
      ∈ (BatchResult.ofFiles c (found.filterMap (·.source? c.maxFileBytes))).skipped := by
  have hout := FoundFile.outcome_unread hpos hlt
  refine List.mem_filterMap.mpr ⟨⟨f.path, "", f.content.size⟩,
    List.mem_filterMap.mpr ⟨f, hf, FoundFile.source?_of_lt hpos hlt⟩, ?_⟩
  rw [SourceFile.outcome] at hout
  cases ha : (SourceFile.mk f.path "" f.content.size).analyze c with
  | ok r => rw [ha] at hout; cases hout
  | error e =>
      rw [ha] at hout
      exact congrArg some (Except.error.inj hout)

end Collected

/-- A batch comes to the same whether the walk that collects its files knows the
limit on their size, and leaves the larger ones unread, or reads them all. If the
walk fails, because it does not begin at a directory or because of the ignore files
around that, both collections fail with what the walk says. Otherwise both succeed,
and in either case a file above the limit is listed with its size as the reason, if
it could be analysed at all, and every record is that of the text of a file within
the limit. -/
theorem runBatch_collect_eq (w : WalkerConfig) (p : ParallelConfig) (c : ParserConfig)
    (t : FileTree) (path : String)
    (htext : ∀ entries above, t.locate? path = some (.directory entries, above) →
      Entries.IsText entries) :
    (¬((∃ entries above, t.locate? path = some (.directory entries, above))
        ∧ t.IsSoundAround w.respectGitignore path)
      ∧ ∃ e, t.walk w path = .error e ∧ t.collect w c.maxFileBytes path = .error e
        ∧ t.collect w 0 path = .error e)
    ∨ ((∃ entries above, t.locate? path = some (.directory entries, above))
      ∧ t.IsSoundAround w.respectGitignore path
      ∧ ∃ found listed read, t.walk w path = .ok found
        ∧ t.collect w c.maxFileBytes path = .ok listed ∧ t.collect w 0 path = .ok read
        ∧ (∀ stopped stopAt, runBatch c p stopped stopAt listed = runBatch c p stopped stopAt read)
        ∧ (∀ f ∈ found, 0 < c.maxFileBytes → c.maxFileBytes < f.content.size →
          f.tooLarge c ∈ (runBatch c p false (fun _ => false) listed).result.skipped)
        ∧ ∀ r ∈ (runBatch c p false (fun _ => false) listed).result.parsed,
          ∃ f ∈ found, ∃ s, String.fromUTF8? f.content = some s
            ∧ (c.maxFileBytes = 0 ∨ f.content.size ≤ c.maxFileBytes)
            ∧ (SourceFile.mk f.path s f.content.size).analyze c = .ok r) := by
  cases hwalk : t.walk w path with
  | error e =>
      have hcollect : ∀ limit, t.collect w limit path = .error e := by
        intro limit
        rw [FileTree.collect, hwalk]
        rfl
      refine .inl ⟨?_, e, rfl, hcollect _, hcollect _⟩
      rw [← FileTree.exists_walk_iff, hwalk]
      exact nofun
  | ok found =>
      have hcollect : ∀ limit, t.collect w limit path
          = .ok (found.filterMap (·.source? limit)) := by
        intro limit
        rw [FileTree.collect, hwalk]
        rfl
      obtain ⟨hdir, hsound⟩ := FileTree.exists_walk_iff.mp ⟨found, hwalk⟩
      have hfound : ∀ f ∈ found, (String.fromUTF8? f.content).isSome = true := by
        intro f hf
        obtain ⟨entries, above, hlocate, hreaches⟩ := FileTree.reaches_of_mem_walk hwalk hf
        exact htext entries above hlocate _ _ hreaches
      refine .inr ⟨hdir, hsound, found, _, _, rfl, hcollect _, hcollect _,
        fun stopped stopAt => ?_, fun f hf hpos hlt => ?_, fun r hr => ?_⟩
      · exact runBatch_congr c p stopped stopAt (map_outcome_collected c hfound)
      · rw [result_runBatch]
        exact tooLarge_mem_skipped c hf hpos hlt
      · rw [result_runBatch] at hr
        exact exists_text_of_mem_parsed c hr

/-- A file above a limit of ten bytes beside one within it. -/
def sampleTexts : Entries := [
  ("large.js", .file "let large = true;".toUTF8), ("small.js", .file "small()".toUTF8)]

def textsRoot : FileTree := ⟨[("repo", .directory sampleTexts)], []⟩

theorem runBatch_collect_sampleTexts :
    (∀ entries above, textsRoot.locate? "repo" = some (.directory entries, above) →
      Entries.IsText entries)
    ∧ ∃ found listed read, textsRoot.walk .standard "repo" = .ok found
        ∧ textsRoot.collect .standard 10 "repo" = .ok listed
        ∧ textsRoot.collect .standard 0 "repo" = .ok read
        ∧ runBatch ⟨5000, 10⟩ .standard false (fun _ => false) listed
          = runBatch ⟨5000, 10⟩ .standard false (fun _ => false) read := by
  have hdir : textsRoot.locate? "repo"
      = some (.directory sampleTexts, [("repo", textsRoot.root)]) := by
    rfl
  have htext : ∀ entries above, textsRoot.locate? "repo" = some (.directory entries, above) →
      Entries.IsText entries := by
    intro entries above h
    obtain ⟨heq, -⟩ := Prod.mk.inj (Option.some.inj (hdir.symm.trans h))
    obtain rfl := Entry.directory.inj heq
    intro names content hreaches
    rcases Entries.reaches_cons.mp hreaches with h | h
    · cases (Entries.reaches_file.mp h).2
      exact Option.isSome_iff_exists.mpr ⟨_, fromUTF8?_toUTF8 _⟩
    · cases (Entries.reaches_file.mp h).2
      exact Option.isSome_iff_exists.mpr ⟨_, fromUTF8?_toUTF8 _⟩
  have hsound : textsRoot.IsSoundAround WalkerConfig.standard.respectGitignore "repo" := by
    rw [FileTree.isSoundAround_iff hdir]
    exact .inr (by cbv)
  refine ⟨htext, ?_⟩
  rcases runBatch_collect_eq .standard .standard ⟨5000, 10⟩ textsRoot "repo" htext with
    ⟨hfails, -⟩ | ⟨-, -, found, listed, read, hwalk, hlisted, hread, heq, -⟩
  · exact absurd ⟨⟨_, _, hdir⟩, hsound⟩ hfails
  · exact ⟨found, listed, read, hwalk, hlisted, hread, heq false _⟩

end CodeSurvey
