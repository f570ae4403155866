import CodeSurvey.Proofs.Place
import CodeSurvey.Proofs.Walk

/-!
# When a walk fails

A line of an ignore file with a fault does no harm at the directory that is walked
or below it. In a directory around it the same line ends the walk before a file is
found, and all that is reported of the ignore files there is the reason.

`IgnoreFile.StatesPatterns` is what a file has to be for nothing to be reported of
it, said of its lines one by one. `mem_faults_ofLines_iff` is the induction over the
lines that ties it to what reading the file leaves; from there it goes up, to
directories (`Entries.StatesPatterns`) and to those around a path
(`FileTree.IsSoundAround`). A walk succeeds if it begins at a directory and the
ignore files around that are sound, and only then (`FileTree.exists_walk_iff`).
-/

namespace CodeSurvey

/-! ## Lines -/

/-- What is wrong with a line is never that its characters are none. -/
theorem IgnoreRule.ofLine_ne_notText (line : List Char) : ofLine line ≠ .error .notText := by
  unfold ofLine
  intro h
  dsimp only at h
  split at h
  · cases h
  · split at h <;> cases h

namespace IgnoreFile

/-- `Reads first lines number line`: of some lines, of which the first has the number
`first`, a line is read, because all lines in front of it are texts. -/
inductive Reads : Nat → List (List UInt8) → Nat → List UInt8 → Prop where
  | here {first : Nat} {line : List UInt8} {lines : List (List UInt8)} :
    Reads first (line :: lines) first line
  | behind {first number : Nat} {front line : List UInt8} {lines : List (List UInt8)}
    (htext : (lineText? front).isSome = true) (h : Reads (first + 1) lines number line) :
    Reads first (front :: lines) number line

/-- A line with a number has a fault. -/
def HasFault (number : Nat) (line : List UInt8) (fault : LineFault) : Prop :=
  (lineText? line = none ∧ fault = .notText)
    ∨ ∃ s, lineText? line = some s ∧ IgnoreRule.ofLine (lineChars number s) = .error fault

/-- The faults of a file are those of the lines that are read, with their numbers. -/
theorem mem_faults_ofLines_iff {first number : Nat} {lines : List (List UInt8)}
    {fault : LineFault} : (number, fault) ∈ (ofLines first lines).faults
      ↔ ∃ line, Reads first lines number line ∧ HasFault number line fault := by
  induction lines generalizing first with
  | nil =>
      constructor
      · intro h
        cases h
      · rintro ⟨line, hreads, -⟩
        cases hreads
  | cons line lines ih =>
      have hsplit : (∃ l, Reads first (line :: lines) number l ∧ HasFault number l fault)
          ↔ (number = first ∧ HasFault first line fault) ∨ ((lineText? line).isSome = true
            ∧ (number, fault) ∈ (ofLines (first + 1) lines).faults) := by
        rw [ih]
        constructor
        · rintro ⟨l, hreads, hfault⟩
          cases hreads with
          | here => exact .inl ⟨rfl, hfault⟩
          | behind htext h => exact .inr ⟨htext, l, h, hfault⟩
        · rintro (⟨rfl, hfault⟩ | ⟨htext, l, h, hfault⟩)
          · exact ⟨line, .here, hfault⟩
          · exact ⟨l, .behind htext h, hfault⟩
      rw [hsplit, ofLines]
      cases hline : lineText? line with
      | none => simp [HasFault, hline]
      | some s =>
          cases hrule : IgnoreRule.ofLine (lineChars first s) with
          | ok rule => simp [HasFault, hline, hrule]
          | error e => simp [HasFault, hline, hrule, eq_comm]

/-- Every line of a file that is read and is a text states a rule or none. -/
def StatesPatterns (content : ByteArray) : Prop :=
  ∀ number line s, Reads 1 (byteLines content.toList) number line → lineText? line = some s →
    ∃ rule, IgnoreRule.ofLine (lineChars number s) = .ok rule

theorem reported_eq_nil_iff {content : ByteArray} :
    (ofBytes content).reported = [] ↔ StatesPatterns content := by
  have hreported : (ofBytes content).reported = []
      ↔ ∀ number fault, (number, fault) ∈ (ofBytes content).faults → fault = .notText := by
    unfold reported
    split
    · rename_i hall
      simpa using hall
    · rename_i hall
      simp only [List.all_eq_true, decide_eq_true_eq, not_forall] at hall
      obtain ⟨⟨number, fault⟩, hmem, hfault⟩ := hall
      refine ⟨fun hnil => ?_, fun h => absurd (h number fault hmem) hfault⟩
      rw [hnil] at hmem
      cases hmem
  rw [hreported]
  constructor
  · intro h number line s hreads hline
    cases hrule : IgnoreRule.ofLine (lineChars number s) with
    | ok rule => exact ⟨rule, rfl⟩
    | error fault =>
        have hfault := mem_faults_ofLines_iff.mpr ⟨line, hreads, .inr ⟨s, hline, hrule⟩⟩
        rw [h number fault hfault] at hrule
        exact absurd hrule (IgnoreRule.ofLine_ne_notText _)
  · intro h number fault hmem
    obtain ⟨line, hreads, ⟨-, hfault⟩ | ⟨s, hline, hrule⟩⟩ := mem_faults_ofLines_iff.mp hmem
    · exact hfault
    · obtain ⟨rule, hok⟩ := h number line s hreads hline
      rw [hok] at hrule
      cases hrule

end IgnoreFile

/-! ## Directories -/

namespace IgnoreLevel

variable {place : List String}

/-- An ignore file is read if there is a file at its place. -/
theorem fileAt_cases (hup : ".." ∉ place) (entries : Entries) :
    (∃ content, entries.at? place = some (.file content) ∧ fileAt place entries = .ofBytes content)
      ∨ (∀ content, entries.at? place ≠ some (.file content))
        ∧ fileAt place entries = .missing := by
  rw [← Entries.map_follow hup entries [], fileAt]
  cases entries.follow [] place with
  | none => exact .inr ⟨nofun, rfl⟩
  | some found =>
      obtain ⟨e, above⟩ := found
      cases e with
      | file content => exact .inl ⟨content, rfl, rfl⟩
      | directory inner => exact .inr ⟨nofun, rfl⟩

theorem up_notMem_placesAsked {respect : Bool} (h : place ∈ placesAsked respect) : ".." ∉ place :=
  up_notMem_places place (placesAsked_subset respect h)

end IgnoreLevel

/-- The ignore files of a directory that are asked state patterns only. -/
def Entries.StatesPatterns (respectGitignore : Bool) (entries : Entries) : Prop :=
  ∀ place ∈ IgnoreLevel.placesAsked respectGitignore, ∀ content,
    entries.at? place = some (.file content) → IgnoreFile.StatesPatterns content

namespace IgnoreFault

variable {respect : Bool} {names : List String} {entries : Entries}

theorem ofDirectory_eq_nil_iff :
    ofDirectory respect names entries = [] ↔ entries.StatesPatterns respect := by
  rw [ofDirectory, List.flatMap_eq_nil_iff]
  apply forall₂_congr
  intro place hplace
  rw [List.map_eq_nil_iff]
  rcases IgnoreLevel.fileAt_cases (IgnoreLevel.up_notMem_placesAsked hplace) entries with
    ⟨content, hat, hfile⟩ | ⟨hnone, hfile⟩
  · rw [hfile, IgnoreFile.reported_eq_nil_iff, hat]
    simp
  · rw [hfile]
    exact ⟨fun _ content hat => absurd hat (hnone content), fun _ => rfl⟩

/-- A fault names the file and the line that it is about. -/
structure IsIn (root : Entries) (f : IgnoreFault) (content : ByteArray) (line : List UInt8) :
    Prop where
  file : root.at? f.file = some (.file content)
  reads : IgnoreFile.Reads 1 (IgnoreFile.byteLines content.toList) f.line line
  fault : IgnoreFile.HasFault f.line line f.fault

theorem exists_isIn_of_mem_ofDirectory {root : Entries}
    (hat : root.at? names = some (.directory entries)) {f : IgnoreFault}
    (hf : f ∈ ofDirectory respect names entries) : ∃ content line, f.IsIn root content line := by
  obtain ⟨place, hplace, hf⟩ := List.mem_flatMap.mp hf
  obtain ⟨⟨number, fault⟩, hreported, rfl⟩ := List.mem_map.mp hf
  have hmem : (number, fault) ∈ (IgnoreLevel.fileAt place entries).faults := by
    rw [IgnoreFile.reported] at hreported
    split at hreported
    · cases hreported
    · exact hreported
  rcases IgnoreLevel.fileAt_cases (IgnoreLevel.up_notMem_placesAsked hplace) entries with
    ⟨content, hcontent, hfile⟩ | ⟨-, hfile⟩
  · rw [hfile] at hmem
    obtain ⟨line, hreads, hfault⟩ := IgnoreFile.mem_faults_ofLines_iff.mp hmem
    exact ⟨content, line, (Entries.at?_append hat place).trans hcontent, hreads, hfault⟩
  · rw [hfile] at hmem
    cases hmem

end IgnoreFault

namespace Entries

variable {c : WalkerConfig} {above : List (String × Entries)}

theorem faultsAround_eq_nil_iff :
    faultsAround c above = [] ↔ ∀ d ∈ above, d.2.StatesPatterns c.respectGitignore := by
  induction above with
  | nil => simp [faultsAround]
  | cons d rest ih =>
      rw [faultsAround, List.append_eq_nil_iff, ih, IgnoreFault.ofDirectory_eq_nil_iff,
        List.forall_mem_cons, and_comm]

theorem StandsAt.exists_isIn {root entries : Entries} {place : List String}
    (h : StandsAt root entries above place) {f : IgnoreFault} (hf : f ∈ faultsAround c above) :
    ∃ content line, f.IsIn root content line := by
  induction h with
  | root => cases hf
  | enter houter _ ih =>
      rw [faultsAround, houter.names, List.mem_append] at hf
      rcases hf with hf | hf
      · exact ih hf
      · exact IgnoreFault.exists_isIn_of_mem_ofDirectory houter.at? hf

end Entries

/-! ## Walks -/

namespace FileTree

/-- The ignore files that are asked in the directories around the one at a path
state patterns only. From the standard input no directory is asked. -/
def IsSoundAround (respectGitignore : Bool) (path : String) (t : FileTree) : Prop :=
  isStandardInput path = true
    ∨ ∀ entries above, t.locate? path = some (.directory entries, above) →
      ∀ d ∈ above, d.2.StatesPatterns respectGitignore

variable {c : WalkerConfig} {path : String} {t : FileTree} {entries : Entries}
  {above : List (String × Entries)}

theorem walk_of_forall_ne (h : ∀ entries above, t.locate? path ≠ some (.directory entries, above)) :
    t.walk c path = .error .notADirectory := by
  unfold walk
  split
  · rename_i hlocate
    exact absurd hlocate (h _ _)
  · rfl

theorem walk_of_directory (hdir : t.locate? path = some (.directory entries, above)) :
    t.walk c path = if isStandardInput path then .ok []
      else if Entries.faultsAround c above = [] then .ok (Entries.foundFiles c entries above)
      else .error (.badIgnoreFiles (Entries.faultsAround c above)) := by
  rw [walk, hdir]

theorem isSoundAround_iff (hdir : t.locate? path = some (.directory entries, above)) :
    t.IsSoundAround c.respectGitignore path
      ↔ isStandardInput path = true ∨ Entries.faultsAround c above = [] := by
  rw [Entries.faultsAround_eq_nil_iff]
  refine or_congr_right ⟨fun h => h entries above hdir, ?_⟩
  intro h entries' above' hdir'
  obtain ⟨-, rfl⟩ := Prod.mk.inj (Option.some.inj (hdir.symm.trans hdir'))
  exact h

theorem isSoundAround_of_forall_ne (hdir : t.locate? path = some (.directory entries, above))
    (h : ∀ d ∈ above, ∀ place ∈ IgnoreLevel.places, ∀ content,
      Entries.at? d.2 place ≠ some (.file content)) (respect : Bool) :
    t.IsSoundAround respect path := by
  right
  intro entries' above' hdir' d hd place hplace content hat
  obtain ⟨-, rfl⟩ := Prod.mk.inj (Option.some.inj (hdir.symm.trans hdir'))
  exact absurd hat (h d hd place (IgnoreLevel.placesAsked_subset respect hplace) content)

theorem walk_of_not_isSoundAround (hdir : t.locate? path = some (.directory entries, above))
    (h : ¬t.IsSoundAround c.respectGitignore path) :
    Entries.faultsAround c above ≠ []
      ∧ t.walk c path = .error (.badIgnoreFiles (Entries.faultsAround c above)) := by
  rw [isSoundAround_iff hdir, not_or] at h
  exact ⟨h.2, by rw [walk_of_directory hdir, if_neg h.1, if_neg h.2]⟩

/-- A walk succeeds if it begins at a directory and the ignore files around that are
sound, and only then. -/
theorem exists_walk_iff : (∃ files, t.walk c path = .ok files)
    ↔ (∃ entries above, t.locate? path = some (.directory entries, above))
      ∧ t.IsSoundAround c.respectGitignore path := by
  by_cases hlocate : ∃ entries above, t.locate? path = some (.directory entries, above)
  · obtain ⟨entries, above, hdir⟩ := hlocate
    rw [and_iff_right ⟨entries, above, hdir⟩, isSoundAround_iff hdir, walk_of_directory hdir]
    split
    · rename_i hinput
      simp [hinput]
    · rename_i hinput
      split <;> simp_all
  · have hnone : ∀ entries above, t.locate? path ≠ some (.directory entries, above) :=
      fun entries above hdir => hlocate ⟨entries, above, hdir⟩
    rw [walk_of_forall_ne hnone]
    exact ⟨nofun, fun h => absurd h.1 hlocate⟩

/-- Whatever ignore files say, what a walk finds is in the tree. -/
theorem reaches_of_mem_walk {files : List FoundFile} (hwalk : t.walk c path = .ok files)
    {f : FoundFile} (hf : f ∈ files) :
    ∃ entries above, t.locate? path = some (.directory entries, above)
      ∧ Entries.Reaches entries f.names (.file f.content) := by
  obtain ⟨⟨entries, above, hdir⟩, -⟩ := exists_walk_iff.mp ⟨files, hwalk⟩
  refine ⟨entries, above, hdir, ?_⟩
  rw [walk_of_directory hdir] at hwalk
  split at hwalk
  · cases hwalk
    cases hf
  · split at hwalk
    · cases hwalk
      exact Entries.reaches_of_mem_foundFiles hf
    · cases hwalk

theorem exists_collect_iff {maxFileBytes : Nat} :
    (∃ files, t.collect c maxFileBytes path = .ok files) ↔ ∃ files, t.walk c path = .ok files := by
  unfold collect
  cases t.walk c path <;> simp [Except.map]

/-- Without ignore files a walk does not fail. -/
theorem walk_of_noneAt (hdir : t.locate? path = some (.directory entries, above))
    (hpath : isStandardInput path = false) (hnone : ∀ d ∈ above, IgnoreLevel.NoneAt d.2) :
    t.walk c path = .ok (Entries.foundFiles c entries above) := by
  have hsound : t.IsSoundAround c.respectGitignore path := by
    refine isSoundAround_of_forall_ne hdir ?_ _
    intro d hd place hplace content hat
    have hup := IgnoreLevel.up_notMem_places place hplace
    rw [← Entries.map_follow hup d.2 [], Option.map_eq_some_iff] at hat
    obtain ⟨⟨e, around⟩, hfollow, rfl⟩ := hat
    exact hnone d hd place hplace content (IgnoreLevel.reaches_of_follow hup hfollow)
  rw [isSoundAround_iff hdir, hpath] at hsound
  rw [walk_of_directory hdir, hpath, if_neg Bool.false_ne_true, if_pos (hsound.resolve_left nofun)]

end FileTree

end CodeSurvey
