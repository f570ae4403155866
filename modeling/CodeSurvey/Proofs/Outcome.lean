import CodeSurvey.Command.Run
import CodeSurvey.Proofs.SourceContents
import Mathlib

/-!
# When a survey succeeds

`SurveyRequest.CanBeServed` lists what a survey needs of a file tree: settings
that can be used if they are named, a directory, sound ignore files in the
directories around it, a manifest that describes a package if there is one, and a
place for the report if one is named. Nothing else can go wrong, and what goes wrong
leaves no trace.

So of two trees with the same layout, that is the same names and the same kinds
of entries, one serves a request as the other does, unless they differ in the
settings that the request names, in the manifest, or in whether the ignore files
around the directory are sound (`CanBeServed.of_sameLayout`): the texts of the
sources play no part.

That ignore files have a part in it is not what one expects of a command that fails
for want of a directory or of settings: a line that makes it fail from above the
directory is passed over in the directory itself (`badRuleAbove`, `badRuleWithin`).
Which of them are asked is a setting, so settings that are only looked for decide as
well.
-/

namespace CodeSurvey

/-! ## Places for a report -/

namespace FileTree

/-- A file can be created at a path, or overwritten: the path ends in a name, the
directory that is to hold the file is there, and in it the name is not that of a
directory. -/
structure CanCreateIn (path : String) (t : FileTree) (names : List String) (name : String)
    (entries : Entries) (above : List (String × Entries)) : Prop where
  not_idle : endsIdle path = false
  fullNames : t.fullNames path = names ++ [name]
  not_up : name ≠ ".."
  follow : t.root.follow [] names = some (.directory entries, above)
  not_directory : ∀ inner, entries.lookup name ≠ some (.directory inner)

def CanCreate (path : String) (t : FileTree) : Prop :=
  ∃ names name entries above, t.CanCreateIn path names name entries above

variable {t u : FileTree} {path : String}

theorem CanCreateIn.write? {names : List String} {name : String} {entries : Entries}
    {above : List (String × Entries)} (h : t.CanCreateIn path names name entries above)
    (text : String) :
    t.write? path text
      = some ⟨t.root.put (.file text.toUTF8) (Path.settled names ++ [name]), t.here⟩ := by
  have hpath : path ≠ "" := by
    rintro rfl
    cases h.not_idle
  have hnames := ((Entries.StandsAt.root.follow h.follow).2 entries rfl).names
  rw [FileTree.write?, h.fullNames, List.reverse_append, List.reverse_singleton,
    List.singleton_append]
  simp only [hpath, h.not_idle, h.not_up, List.reverse_reverse, h.follow, Path.settled, hnames]
  cases hl : entries.lookup name with
  | none => rfl
  | some e =>
      cases e with
      | file content => rfl
      | directory inner => exact absurd hl (h.not_directory inner)

theorem canCreate_of_write? {text : String} {t' : FileTree} (h : t.write? path text = some t') :
    t.CanCreate path := by
  rw [FileTree.write?] at h
  split at h
  · cases h
  · rename_i name around hnames
    split at h
    · cases h
    · rename_i hgood
      obtain ⟨⟨hpath, hidle⟩, hup⟩ : (path ≠ "" ∧ endsIdle path = false) ∧ name ≠ ".." := by
        simpa using hgood
      split at h
      · rename_i entries above hfollow
        refine ⟨around.reverse, name, entries, above, hidle, ?_, hup, hfollow, fun inner hl => ?_⟩
        · rw [← List.reverse_reverse (t.fullNames path), hnames, List.reverse_cons]
        · simp [hl] at h
      · cases h

theorem exists_write?_iff {text : String} :
    (∃ t', t.write? path text = some t') ↔ t.CanCreate path :=
  ⟨fun ⟨_, h⟩ => canCreate_of_write? h, fun ⟨_, _, _, _, h⟩ => ⟨_, h.write? text⟩⟩

/-- What is written can be read at the same path, and no other file is touched. -/
theorem CanCreateIn.readText?_write {names : List String} {name : String} {entries : Entries}
    {above : List (String × Entries)} (h : t.CanCreateIn path names name entries above)
    (text : String) {t' : FileTree} (hwrite : t.write? path text = some t') :
    t'.readText? path = some text
      ∧ ∀ place content, place ≠ Path.settled (t.fullNames path) →
        (t'.root.at? place = some (.file content) ↔ t.root.at? place = some (.file content)) := by
  obtain rfl := Option.some.inj ((h.write? text).symm.trans hwrite)
  have hplace := ((Entries.StandsAt.root.follow h.follow).2 entries rfl).at?
  have hsettled : Path.settled (t.fullNames path) = Path.settled names ++ [name] := by
    rw [h.fullNames, Path.settled, Path.settledFrom_append, Path.settledFrom_down h.not_up]
    rfl
  refine ⟨?_, fun place content hne =>
    Entries.at?_put_file_iff hplace h.not_directory _ (hsettled ▸ hne)⟩
  -- the way to the directory is still open
  have hway : ∃ inner above', (t.root.put (.file text.toUTF8) (Path.settled names ++ [name])).follow
      [] names = some (.directory inner, above') :=
    Entries.StandsAt.root.exists_follow fun front hfront => by
      obtain ⟨next, around, hnext⟩ := Entries.exists_follow_prefix h.follow hfront
      exact Entries.exists_at?_put hplace h.not_directory _
        (Entries.StandsAt.root.follow hnext).1
  obtain ⟨inner, above', hfollow⟩ := hway
  have hinner := (Entries.StandsAt.root.follow hfollow).1
  have hlookup : inner.lookup name = some (.file text.toUTF8) := by
    rw [← Entries.at?_singleton, ← Entries.at?_append hinner]
    exact Entries.at?_put_self hplace _
  have hnames : (FileTree.mk (t.root.put (.file text.toUTF8) (Path.settled names ++ [name]))
      t.here).fullNames path = names ++ [name] := h.fullNames
  rw [readText?, find?, locate?_of_not_idle _ h.not_idle, hnames,
    Entries.follow_append _ _ _ (List.cons_ne_nil _ _), hfollow]
  show ((Entries.follow inner above' [name]).map (·.1)).bind _ = _
  rw [Entries.map_follow_singleton _ _ h.not_up, hlookup]
  exact fromUTF8?_toUTF8 text

theorem SameLayout.canCreate (h : t.SameLayout u) (ht : t.CanCreate path) : u.CanCreate path := by
  obtain ⟨names, name, entries, above, hidle, hnames, hup, hfollow, hdir⟩ := ht
  obtain ⟨entries', above', hu, hlayout⟩ := h.follow hfollow
  refine ⟨names, name, entries', above', hidle, h.fullNames path ▸ hnames, hup, hu,
    fun inner hl => ?_⟩
  have hlookup :=
    (lookup_layoutOf name entries').symm.trans (hlayout ▸ lookup_layoutOf name entries)
  rw [hl] at hlookup
  obtain ⟨e, he, hlayout'⟩ := Option.map_eq_some_iff.mp hlookup.symm
  obtain ⟨within, rfl, -⟩ := Entry.layout_eq_directory_iff.mp hlayout'
  exact hdir within he

end FileTree

/-! ## What a survey needs -/

/-- The bytes are the text of a JSON object. -/
def DescribesPackage (content : ByteArray) : Prop :=
  ∃ text fields, String.fromUTF8? content = some text ∧ Json.parse text = .ok (.object fields)

/-- The text states a configuration that a run can work with. -/
def StatesSettings (text : String) : Prop :=
  ∃ c : Config, (TomlText.document? text).bind (fun fields =>
    Config.ofToml? (.table .header fields)) = some c ∧ c.validate = .ok ()

/-- The ignore files around the directory are sound, as far as the settings have them
asked. -/
def SurveyRequest.IsSoundAround (q : SurveyRequest) (t : FileTree) : Prop :=
  ∀ c, q.loadConfig t = .ok c → t.IsSoundAround c.walker.respectGitignore q.path

structure SurveyRequest.CanBeServed (q : SurveyRequest) (t : FileTree) : Prop where
  config : ∀ path, q.config = some path →
    ∃ text, t.readText? path = some text ∧ StatesSettings text
  directory : ∃ entries above, t.locate? q.path = some (.directory entries, above)
    ∧ ∀ content, entries.lookup manifestFileName = some (.file content) → DescribesPackage content
  around : q.IsSoundAround t
  output : ∀ path, q.output = some path → t.CanCreate path

theorem Config.exists_parse_iff {text : String} :
    (∃ c, Config.parse text = .ok c) ↔ StatesSettings text := by
  unfold Config.parse StatesSettings
  cases (TomlText.document? text).bind fun fields => Config.ofToml? (.table .header fields) with
  | none => simp
  | some c => cases h : c.validate <;> simp [h]

theorem FileTree.exists_loadConfig_iff {path : String} {t : FileTree} :
    (∃ c, t.loadConfig path = .ok c)
      ↔ ∃ text, t.readText? path = some text ∧ StatesSettings text := by
  unfold FileTree.loadConfig
  cases t.readText? path with
  | none => simp
  | some text =>
      simp only [Option.some.injEq, exists_eq_left', ← Config.exists_parse_iff]
      cases Config.parse text <;> simp

theorem Manifest.exists_parse_iff {text : String} :
    (∃ m, Manifest.parse text = .ok m) ↔ ∃ fields, Json.parse text = .ok (.object fields) := by
  unfold Manifest.parse
  cases Json.parse text with
  | error e => simp
  | ok v => cases v <;> simp

namespace SurveyRequest

variable {q : SurveyRequest} {t u : FileTree}

theorem exists_loadConfig_iff :
    (∃ c, q.loadConfig t = .ok c) ↔ ∀ path, q.config = some path →
      ∃ text, t.readText? path = some text ∧ StatesSettings text := by
  unfold SurveyRequest.loadConfig
  cases q.config with
  | none => simp
  | some path =>
      simp only [Option.some.injEq, forall_eq', ← FileTree.exists_loadConfig_iff]
      cases t.loadConfig path <;> simp

theorem exists_loadManifest_iff {path : String} {entries : Entries}
    {above : List (String × Entries)} (hdir : t.locate? path = some (.directory entries, above)) :
    (∃ m, t.loadManifest path = .ok m)
      ↔ ∀ content, entries.lookup manifestFileName = some (.file content) →
        DescribesPackage content := by
  have hname : Path.IsName manifestFileName.toList := ⟨by decide, by decide⟩
  have hfind : t.find? (FileTree.manifestPath path) = entries.lookup manifestFileName :=
    FileTree.find?_join t hdir hname (by decide)
  rw [FileTree.loadManifest, hfind]
  cases entries.lookup manifestFileName with
  | none => simp
  | some e =>
      cases e with
      | directory inner => simp
      | file content =>
          simp only [Option.some.injEq, Entry.file.injEq, forall_eq', DescribesPackage]
          cases String.fromUTF8? content with
          | none => simp
          | some text =>
              simp only [Option.some.injEq, exists_eq_left', exists_and_left,
                ← Manifest.exists_parse_iff]
              cases Manifest.parse text <;> simp

theorem exists_survey_iff :
    (∃ r, q.survey t = .ok r) ↔ ∃ c, q.loadConfig t = .ok c
      ∧ (∃ files, t.walk (q.override c).walker q.path = .ok files)
      ∧ ∃ m, t.loadManifest q.path = .ok m := by
  unfold SurveyRequest.survey
  cases q.loadConfig t with
  | error e => simp [bind, Except.bind]
  | ok c =>
      have hcollect : (∃ files, t.collect (q.override c).walker (q.override c).parser.maxFileBytes
          q.path = .ok files) ↔ ∃ files, t.walk (q.override c).walker q.path = .ok files :=
        FileTree.exists_collect_iff
      simp only [Except.ok.injEq, exists_eq_left', ← hcollect]
      cases hfiles : t.collect (q.override c).walker (q.override c).parser.maxFileBytes q.path <;>
        cases t.loadManifest q.path <;>
          simp [hfiles, bind, Except.bind, Except.mapError, pure, Except.pure]

theorem canBeServed_iff :
    q.CanBeServed t
      ↔ (∃ r, q.survey t = .ok r) ∧ ∀ path, q.output = some path → t.CanCreate path := by
  have hwalk : ∀ c, (∃ files, t.walk (q.override c).walker q.path = .ok files)
      ↔ (∃ entries above, t.locate? q.path = some (.directory entries, above))
        ∧ t.IsSoundAround c.walker.respectGitignore q.path := fun _ => FileTree.exists_walk_iff
  rw [exists_survey_iff]
  constructor
  · rintro ⟨hconfig, ⟨entries, above, hdir, hmanifest⟩, haround, houtput⟩
    obtain ⟨c, hc⟩ := exists_loadConfig_iff.mpr hconfig
    exact ⟨⟨c, hc, (hwalk c).mpr ⟨⟨entries, above, hdir⟩, haround c hc⟩,
      (exists_loadManifest_iff hdir).mpr hmanifest⟩, houtput⟩
  · rintro ⟨⟨c, hc, hfound, hmanifest⟩, houtput⟩
    obtain ⟨⟨entries, above, hdir⟩, hsound⟩ := (hwalk c).mp hfound
    refine ⟨exists_loadConfig_iff.mp ⟨c, hc⟩,
      ⟨entries, above, hdir, (exists_loadManifest_iff hdir).mp hmanifest⟩, ?_, houtput⟩
    intro c' hc'
    obtain rfl := Except.ok.inj (hc.symm.trans hc')
    exact hsound

/-- The sources do not matter, and settings that are only looked for matter for the
ignore files alone. -/
theorem CanBeServed.of_sameLayout (h : q.CanBeServed t) (hlayout : t.SameLayout u)
    (hconfig : ∀ path, q.config = some path → u.find? path = t.find? path)
    (hmanifest : u.find? (FileTree.manifestPath q.path) = t.find? (FileTree.manifestPath q.path))
    (haround : q.IsSoundAround u) : q.CanBeServed u := by
  obtain ⟨entries, above, ht, hpackage⟩ := h.directory
  obtain ⟨entries', above', hu⟩ := hlayout.locate? ht
  have hname : Path.IsName manifestFileName.toList := ⟨by decide, by decide⟩
  have hup : manifestFileName ≠ ".." := by decide
  refine ⟨fun path hpath => ?_, ⟨entries', above', hu, fun content hcontent => ?_⟩, haround,
    fun path hpath => hlayout.canCreate (h.output path hpath)⟩
  · rw [FileTree.readText?, hconfig path hpath]
    exact h.config path hpath
  · refine hpackage content ?_
    rw [← FileTree.find?_join t ht hname hup, ← hcontent, ← FileTree.find?_join u hu hname hup]
    exact hmanifest.symm

theorem loadConfig_eq_of_differsInSources (h : t.DiffersInSources u)
    (hconfig : ∀ path, q.config = some path → u.readText? path = t.readText? path) :
    q.loadConfig u = q.loadConfig t := by
  unfold SurveyRequest.loadConfig
  cases hnamed : q.config with
  | none => simp only [h.discoverConfig_eq]
  | some path => simp only [FileTree.loadConfig, hconfig path hnamed]

theorem CanBeServed.of_differsInSources (h : q.CanBeServed t) (hsources : t.DiffersInSources u)
    (hconfig : ∀ path, q.config = some path → u.readText? path = t.readText? path) :
    q.CanBeServed u := by
  have hload := loadConfig_eq_of_differsInSources hsources hconfig
  obtain ⟨entries, above, ht, hpackage⟩ := h.directory
  obtain ⟨entries', above', hu⟩ := hsources.locate? ht
  refine ⟨fun path hpath => ?_, ⟨entries', above', hu, fun content hcontent => hpackage content ?_⟩,
    fun c hc => hsources.isSoundAround (h.around c (hload ▸ hc)),
    fun path hpath => hsources.canCreate (h.output path hpath)⟩
  · rw [hconfig path hpath]
    exact h.config path hpath
  · have hunknown : Language.classify manifestFileName = .unknown := by decide
    have hfiles := hsources.files (Path.settled (t.fullNames q.path) ++ [manifestFileName]) content
      (by rw [classify_intercalate_concat, hunknown])
    rw [Entries.at?_append (t.standsAt_of_locate? ht).at?, Entries.at?_singleton,
      hsources.fullNames, Entries.at?_append (u.standsAt_of_locate? hu).at?,
      Entries.at?_singleton] at hfiles
    exact hfiles.mpr hcontent

theorem survey_of_walk_error {c : Config} {e : WalkFailure} (hc : q.loadConfig t = .ok c)
    (hwalk : t.walk (q.override c).walker q.path = .error e) :
    q.survey t = .error (.walk q.path e) := by
  simp [survey, hc, FileTree.collect, hwalk, bind, Except.bind, Except.map, Except.mapError]

/-- If the ignore files around the directory are not sound, their faults are what a
survey fails for, each with the file and the line that it is in. -/
theorem survey_of_not_isSoundAround (h : ¬q.IsSoundAround t) : ∃ faults, faults ≠ []
    ∧ (∀ f ∈ faults, ∃ content line, f.IsIn t.root content line)
    ∧ q.survey t = .error (.walk q.path (.badIgnoreFiles faults)) := by
  unfold IsSoundAround at h
  push Not at h
  obtain ⟨c, hc, hsound⟩ := h
  obtain ⟨entries, above, hdir⟩ : ∃ entries above,
      t.locate? q.path = some (.directory entries, above) := by
    by_contra hnone
    apply hsound
    right
    intro entries above hdir
    exact absurd ⟨entries, above, hdir⟩ hnone
  obtain ⟨hfaults, hwalk⟩ := FileTree.walk_of_not_isSoundAround (c := (q.override c).walker)
    hdir hsound
  exact ⟨_, hfaults, fun f hf => (t.standsAt_of_locate? hdir).exists_isIn hf,
    survey_of_walk_error hc hwalk⟩

end SurveyRequest

/-! ## What a run does -/

namespace Command

variable {q : SurveyRequest} {t : FileTree}

/-- A request that cannot be served ends in a failure, any other one in a report
that is printed or written. -/
theorem carryOut_cases (q : SurveyRequest) (t : FileTree) :
    (¬q.CanBeServed t ∧ ∃ e, carryOut q t = .failed e)
      ∨ (q.CanBeServed t ∧ ∃ text, q.output = none ∧ carryOut q t = .succeeded text)
      ∨ (q.CanBeServed t ∧ ∃ path text t', q.output = some path ∧ t.write? path text = some t'
        ∧ carryOut q t = ⟨0, "", "", some (path, text)⟩) := by
  rw [SurveyRequest.canBeServed_iff]
  unfold carryOut
  cases hsurvey : q.survey t with
  | error e => exact .inl ⟨by simp, e, rfl⟩
  | ok r =>
      cases houtput : q.output with
      | none => exact .inr (.inl ⟨⟨⟨r, rfl⟩, nofun⟩, _, rfl, rfl⟩)
      | some path =>
          cases hwrite : t.write? path (r.render q.format false) with
          | none =>
              refine .inl ⟨fun h => ?_, .output path, by simp only [hwrite]⟩
              obtain ⟨t', ht'⟩ := FileTree.exists_write?_iff.mpr (h.2 path rfl)
              rw [hwrite] at ht'
              cases ht'
          | some t' =>
              have hcreate : t.CanCreate path := FileTree.exists_write?_iff.mp ⟨t', hwrite⟩
              refine .inr (.inr ⟨⟨⟨r, rfl⟩, fun p hp => ?_⟩, path, _, t', rfl, hwrite, ?_⟩)
              · exact Option.some.inj hp ▸ hcreate
              · simp only [hwrite]

theorem exitCode_carryOut (q : SurveyRequest) (t : FileTree) :
    ((carryOut q t).exitCode = 0 ↔ q.CanBeServed t)
      ∧ ((carryOut q t).exitCode ≠ 0 → (carryOut q t).exitCode = 1) := by
  rcases carryOut_cases q t with ⟨hnot, e, h⟩ | ⟨hok, text, -, h⟩ | ⟨hok, path, text, t', -, -, h⟩
  · simp [h, hnot, Outcome.failed]
  · simp [h, hok, Outcome.succeeded]
  · simp [h, hok]

theorem carryOut_of_failure (hfail : (carryOut q t).exitCode ≠ 0) :
    (carryOut q t).exitCode = 1 ∧ (carryOut q t).printed = "" ∧ (carryOut q t).treeAfter t = t := by
  refine ⟨(exitCode_carryOut q t).2 hfail, ?_⟩
  rcases carryOut_cases q t with ⟨-, e, h⟩ | ⟨hok, -⟩ | ⟨hok, -⟩
  · rw [h]
    exact ⟨rfl, rfl⟩
  · exact absurd ((exitCode_carryOut q t).1.mpr hok) hfail
  · exact absurd ((exitCode_carryOut q t).1.mpr hok) hfail

theorem carryOut_of_printed (hok : (carryOut q t).exitCode = 0) (houtput : q.output = none) :
    (carryOut q t).treeAfter t = t := by
  rcases carryOut_cases q t with ⟨hnot, -⟩ | ⟨-, text, -, h⟩ | ⟨-, path, text, t', hpath, -⟩
  · exact absurd ((exitCode_carryOut q t).1.mp hok) hnot
  · rw [h]
    rfl
  · rw [houtput] at hpath
    cases hpath

/-- A report that goes to a file is there then, and the other files are as before. -/
theorem carryOut_of_written {path : String} (hok : (carryOut q t).exitCode = 0)
    (houtput : q.output = some path) :
    (carryOut q t).printed = ""
      ∧ ∃ text, (carryOut q t).written = some (path, text)
        ∧ ((carryOut q t).treeAfter t).readText? path = some text
        ∧ ∀ place content, place ≠ Path.settled (t.fullNames path) →
          (((carryOut q t).treeAfter t).root.at? place = some (.file content)
            ↔ t.root.at? place = some (.file content)) := by
  rcases carryOut_cases q t with ⟨hnot, -⟩ | ⟨-, text, hnone, -⟩ | ⟨-, p, text, t', hp, hwrite, h⟩
  · exact absurd ((exitCode_carryOut q t).1.mp hok) hnot
  · rw [houtput] at hnone
    cases hnone
  · obtain rfl := Option.some.inj (houtput.symm.trans hp)
    obtain ⟨names, name, entries, above, hcreate⟩ := FileTree.canCreate_of_write? hwrite
    have htree : Outcome.treeAfter ⟨0, "", "", some (path, text)⟩ t = t' := by
      show (t.write? path text).getD t = t'
      rw [hwrite]
      rfl
    rw [h, htree]
    exact ⟨rfl, text, rfl, hcreate.readText?_write text hwrite⟩

theorem exitCode_congr {u : FileTree} (h : q.CanBeServed u ↔ q.CanBeServed t) :
    (carryOut q u).exitCode = (carryOut q t).exitCode := by
  rw [← (exitCode_carryOut q u).1, ← (exitCode_carryOut q t).1] at h
  by_cases ht : (carryOut q t).exitCode = 0
  · rw [ht, h.mpr ht]
  · rw [(exitCode_carryOut q t).2 ht, (exitCode_carryOut q u).2 fun hu => ht (h.mp hu)]

theorem exitCode_of_sameLayout {u : FileTree} (hlayout : t.SameLayout u)
    (hconfig : ∀ path, q.config = some path → u.find? path = t.find? path)
    (hmanifest : u.find? (FileTree.manifestPath q.path) = t.find? (FileTree.manifestPath q.path))
    (haround : q.IsSoundAround u ↔ q.IsSoundAround t) :
    (carryOut q u).exitCode = (carryOut q t).exitCode :=
  exitCode_congr
    ⟨fun h => h.of_sameLayout hlayout.symm (fun p hp => (hconfig p hp).symm) hmanifest.symm
        (haround.mp h.around),
      fun h => h.of_sameLayout hlayout hconfig hmanifest (haround.mpr h.around)⟩

theorem exitCode_of_differsInSources {u : FileTree} (h : t.DiffersInSources u)
    (hconfig : ∀ path, q.config = some path → u.readText? path = t.readText? path) :
    (carryOut q u).exitCode = (carryOut q t).exitCode :=
  exitCode_congr
    ⟨fun hu => hu.of_differsInSources h.symm fun p hp => (hconfig p hp).symm,
      fun ht => ht.of_differsInSources h hconfig⟩

theorem carryOut_of_not_isSoundAround (h : ¬q.IsSoundAround t) : ∃ faults, faults ≠ []
    ∧ (∀ f ∈ faults, ∃ content line, f.IsIn t.root content line)
    ∧ carryOut q t = .failed (.walk q.path (.badIgnoreFiles faults)) := by
  obtain ⟨faults, hne, hin, hsurvey⟩ := SurveyRequest.survey_of_not_isSoundAround h
  exact ⟨faults, hne, hin, by rw [carryOut, hsurvey]⟩

/-- A survey that the words of a command line ask for succeeds in the trees that
can serve it, and in these only. A failure prints nothing and leaves the tree as
it was. A success prints the report, or writes it to the file that is named and
touches no other. If the ignore files around the directory have faults, the failure
says which. Whether a survey succeeds does not depend on what the files hold, the
named settings, the manifest and the soundness of those ignore files apart; so it
does not depend on the sources. -/
theorem run_succeeds_iff_canBeServed (words : List String) (q : SurveyRequest)
    (hwords : CommandLine.parse words = .ok q) (t : FileTree) :
    ((run words t).exitCode = 0 ↔ q.CanBeServed t)
      ∧ ((run words t).exitCode ≠ 0 →
        (run words t).exitCode = 1 ∧ (run words t).printed = "" ∧ (run words t).treeAfter t = t)
      ∧ ((run words t).exitCode = 0 → q.output = none → (run words t).treeAfter t = t)
      ∧ (∀ path, (run words t).exitCode = 0 → q.output = some path →
        (run words t).printed = ""
          ∧ ∃ text, (run words t).written = some (path, text)
            ∧ ((run words t).treeAfter t).readText? path = some text
            ∧ ∀ place content, place ≠ Path.settled (t.fullNames path) →
              (((run words t).treeAfter t).root.at? place = some (.file content)
                ↔ t.root.at? place = some (.file content)))
      ∧ (¬q.IsSoundAround t → ∃ faults, faults ≠ []
        ∧ (∀ f ∈ faults, ∃ content line, f.IsIn t.root content line)
        ∧ run words t = .failed (.walk q.path (.badIgnoreFiles faults)))
      ∧ (∀ u, t.SameLayout u →
        (∀ path, q.config = some path → u.find? path = t.find? path) →
        u.find? (FileTree.manifestPath q.path) = t.find? (FileTree.manifestPath q.path) →
        (q.IsSoundAround u ↔ q.IsSoundAround t) →
        (run words u).exitCode = (run words t).exitCode)
      ∧ ∀ u, t.DiffersInSources u →
        (∀ path, q.config = some path → u.readText? path = t.readText? path) →
        (run words u).exitCode = (run words t).exitCode := by
  have hrun : ∀ u, run words u = carryOut q u := fun u => by rw [run, hwords]
  simp only [hrun]
  exact ⟨(exitCode_carryOut q t).1, carryOut_of_failure, carryOut_of_printed,
    fun path => carryOut_of_written, carryOut_of_not_isSoundAround,
    fun u => exitCode_of_sameLayout, fun u => exitCode_of_differsInSources⟩

/-- A directory with a package, a source that is no program, and settings beside it. -/
def sampleTree : FileTree := ⟨[
  ("repo", .directory [
    ("package.json", .file "{}".toUTF8), ("broken.js", .file "function (".toUTF8)]),
  ("settings.toml", .file "[walker]\nmax_files = 7\n".toUTF8)], []⟩

theorem run_succeeds_sampleTree :
    CommandLine.parse ["analyze", "repo", "-c", "settings.toml", "-o", "repo/out.json"]
        = .ok ⟨"repo", .terminal, some "repo/out.json", some "settings.toml", none, false, none, 0⟩
      ∧ (run ["analyze", "repo", "-c", "settings.toml", "-o", "repo/out.json"]
        sampleTree).exitCode = 0
      ∧ (run ["analyze", "repo", "-c", "settings.toml", "-o", "repo/out.json"]
        ⟨sampleTree.root.drop 1, []⟩).treeAfter ⟨sampleTree.root.drop 1, []⟩
        = ⟨sampleTree.root.drop 1, []⟩ := by
  have hwords : CommandLine.parse ["analyze", "repo", "-c", "settings.toml", "-o", "repo/out.json"]
      = .ok ⟨"repo", .terminal, some "repo/out.json", some "settings.toml", none, false, none,
        0⟩ := by
    rfl
  have hserved : SurveyRequest.CanBeServed
      ⟨"repo", .terminal, some "repo/out.json", some "settings.toml", none, false, none, 0⟩
      sampleTree := by
    refine ⟨fun path hpath => ?_, ⟨_, _, rfl, fun content hcontent => ?_⟩, fun c _ => ?_,
      fun path hpath => ?_⟩
    · obtain rfl := Option.some.inj hpath
      exact ⟨"[walker]\nmax_files = 7\n", rfl, _, rfl, rfl⟩
    · obtain rfl := Entry.file.inj (Option.some.inj hcontent)
      exact ⟨"{}", [], rfl, by cbv⟩
    · refine FileTree.isSoundAround_of_forall_ne (by rfl) ?_ _
      simp only [List.forall_mem_singleton, IgnoreLevel.places, List.forall_mem_cons]
      refine ⟨fun content h => ?_, fun content h => ?_, fun content h => ?_⟩ <;> cases h
    · obtain rfl := Option.some.inj hpath
      exact ⟨["repo"], "out.json", _, _, rfl, rfl, by decide, rfl, by simp [List.lookup]⟩
  refine ⟨hwords, (run_succeeds_iff_canBeServed _ _ hwords sampleTree).1.mpr hserved, ?_⟩
  refine ((run_succeeds_iff_canBeServed _ _ hwords _).2.1 fun h => ?_).2.2
  obtain ⟨entries, above, hdir, -⟩ := ((run_succeeds_iff_canBeServed _ _ hwords _).1.mp h).directory
  cases hdir

/-- A directory with a source, in a directory with an ignore file of which the only
line states no pattern. -/
def badRuleAbove (settings : Entries) : FileTree := ⟨[
  (".gitignore", .file "\x7b\n".toUTF8),
  ("r", .directory (("a.js", .file "x".toUTF8) :: settings))], []⟩

/-- The same line in an ignore file of the directory itself. -/
def badRuleWithin : FileTree := ⟨[("r", .directory [
  (".gitignore", .file "\x7b\n".toUTF8), ("a.js", .file "x".toUTF8)])], []⟩

/-- A request that names a directory and nothing else. -/
def plainRequest (path : String) : SurveyRequest :=
  ⟨path, .terminal, none, none, none, false, none, 0⟩

theorem carryOut_badRuleAbove {settings : Entries}
    (hload : (plainRequest "r").loadConfig (badRuleAbove settings) = .ok .standard) :
    carryOut (plainRequest "r") (badRuleAbove settings) = .failed (.walk "r" (.badIgnoreFiles
      [⟨[".gitignore"], 1, .badPattern "\x7b" .unclosedGroup⟩])) := by
  have hdir : (badRuleAbove settings).locate? "r" = some (.directory (("a.js",
      .file "x".toUTF8) :: settings), [("r", (badRuleAbove settings).root)]) := by
    rfl
  have hfaults : Entries.faultsAround ((plainRequest "r").override .standard).walker
      [("r", (badRuleAbove settings).root)]
        = [⟨[".gitignore"], 1, .badPattern "\x7b" .unclosedGroup⟩] := by
    cbv
  have hwalk := FileTree.walk_of_directory
    (c := ((plainRequest "r").override .standard).walker) hdir
  rw [hfaults, if_neg (by decide), if_neg (List.cons_ne_nil _ _)] at hwalk
  rw [carryOut, SurveyRequest.survey_of_walk_error hload hwalk]
  rfl

/-- A line that states no pattern, in an ignore file above a directory that could be
surveyed, makes the survey fail, unless settings that are found say that the file is
not asked. In the directory itself the line is passed over. -/
theorem run_fails_badRuleAbove :
    CommandLine.parse ["analyze", "r"] = .ok (plainRequest "r")
      ∧ (∃ entries above, (badRuleAbove []).locate? "r" = some (.directory entries, above)
        ∧ entries.lookup manifestFileName = none)
      ∧ run ["analyze", "r"] (badRuleAbove []) = .failed (.walk "r" (.badIgnoreFiles
        [⟨[".gitignore"], 1, .badPattern "\x7b" .unclosedGroup⟩]))
      ∧ (run ["analyze", "r"] (badRuleAbove [])).exitCode = 1
      ∧ (run ["analyze", "r"] (badRuleAbove [(configFileName, .file "".toUTF8)])).exitCode = 1
      ∧ (run ["analyze", "r"] (badRuleAbove [(configFileName,
        .file "[walker]\nrespect_gitignore = false\n".toUTF8)])).exitCode = 0
      ∧ (run ["analyze", "r"] badRuleWithin).exitCode = 0 := by
  have hwords : CommandLine.parse ["analyze", "r"] = .ok (plainRequest "r") := by rfl
  have hrun : ∀ t, run ["analyze", "r"] t = carryOut (plainRequest "r") t :=
    fun t => by rw [run, hwords]
  have hserved : ∀ t, (∃ entries above, t.locate? "r" = some (.directory entries, above)
      ∧ entries.lookup manifestFileName = none) → (plainRequest "r").IsSoundAround t →
      (run ["analyze", "r"] t).exitCode = 0 := by
    rintro t ⟨entries, above, hdir, hmanifest⟩ hsound
    rw [hrun]
    refine (exitCode_carryOut _ t).1.mpr ⟨fun path h => ?_, ⟨entries, above, hdir,
      fun content h => ?_⟩, hsound, fun path h => ?_⟩
    · cases h
    · rw [hmanifest] at h
      cases h
    · cases h
  refine ⟨hwords, ⟨_, _, rfl, rfl⟩, ?_, ?_, ?_, hserved _ ⟨_, _, rfl, rfl⟩ fun c hc => ?_,
    hserved _ ⟨_, _, rfl, rfl⟩ fun c _ => ?_⟩
  · rw [hrun, carryOut_badRuleAbove (by rfl)]
  · rw [hrun, carryOut_badRuleAbove (by rfl)]
    rfl
  · rw [hrun, carryOut_badRuleAbove (by rfl)]
    rfl
  · have hasked : c.walker.respectGitignore = false := by
      obtain rfl := Except.ok.inj hc
      rfl
    rw [hasked]
    right
    intro entries above hdir d hd place hplace content hat
    obtain rfl := (Prod.mk.inj (Option.some.inj hdir)).2
    obtain rfl := List.mem_singleton.mp hd
    obtain rfl := List.mem_singleton.mp hplace
    cases hat
  · refine FileTree.isSoundAround_of_forall_ne (by rfl) ?_ _
    simp only [List.forall_mem_singleton, IgnoreLevel.places, List.forall_mem_cons]
    refine ⟨fun content h => ?_, fun content h => ?_, fun content h => ?_⟩ <;> cases h

end Command

end CodeSurvey
