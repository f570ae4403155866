import CodeSurvey.Config.Basic
import CodeSurvey.Grammar.Parse
import CodeSurvey.Record.Extraction
import CodeSurvey.Syntax.Fault

/-!
# The analysis of one file

`SourceFile.analyze` is the unit of work: one file in, its record or the reason
why there is none out. Nothing else is looked at, so the record of a file does
not depend on the files around it.

How long parsing takes is left out. A parser that is stopped after some time, and
one whose grammar does not load, depend on the machine, so `FileFailure` has no case
for either; nothing reads `ParserConfig.timeoutMs`, and no analysis comes to
`SkipReason.timeout`.
-/

namespace CodeSurvey

/-- Why a file has no record. -/
inductive FileFailure where
  | unsupportedLanguage
  | tooLarge (bytes limit : Nat)
  /-- The text leaves the grammar at a line and a column, both from one. -/
  | malformed (line column : Nat)
  deriving DecidableEq, Repr

namespace FileFailure

def message : FileFailure → String
  | unsupportedLanguage => "not a JavaScript/TypeScript file"
  | tooLarge bytes limit =>
    "file is " ++ toString bytes ++ " bytes, limit is " ++ toString limit
  | malformed line column =>
    "syntax error at " ++ toString line ++ ":" ++ toString column

end FileFailure

/-- The first place at which a tree shows that its text leaves the grammar. -/
def Tree.faultPosition? (src : Source) (t : Tree) : Option (Nat × Nat) :=
  t.firstFault?.map fun fault =>
    (src.line fault.span.start, src.column fault.span.start + 1)

/-- The tree of a text, if the text is within the grammar. -/
def Source.parse? (src : Source) (d : Dialect) : Except FileFailure Tree :=
  let tree := src.parse d
  match tree.faultPosition? src with
  | some (line, column) => .error (.malformed line column)
  | none => .ok tree

namespace ParsedFile

/-- The record of a file that was parsed. -/
def ofTree (path : String) (language : Language) (src : Source) (t : Tree) : ParsedFile :=
  let found := Extraction.ofTree src t
  { path := path
    language := language
    linesOfCode := src.lineCount
    functions := found.functions
    classes := found.classes
    imports := found.imports
    exports := found.exports
    totalComplexity := addComplexities (found.functions.map (·.complexity)) }

end ParsedFile

namespace SourceFile

def language (f : SourceFile) : Language := Language.classify f.path

/-- The size that counts against the limit: that on disk or that of the content,
whichever is larger. -/
def bytes (f : SourceFile) : Nat := max f.sizeBytes f.content.utf8ByteSize

/-- The record of a file. Its language is checked first, then its size. -/
def analyze (config : ParserConfig) (f : SourceFile) : Except FileFailure ParsedFile :=
  match f.language.dialect? with
  | none => .error .unsupportedLanguage
  | some d =>
    if 0 < config.maxFileBytes ∧ config.maxFileBytes < f.bytes then
      .error (.tooLarge f.bytes config.maxFileBytes)
    else
      let src := Source.ofString f.content
      (src.parse? d).map (ParsedFile.ofTree f.path f.language src)

end SourceFile

/-- The complexity of a whole module and of each of its functions. -/
def moduleComplexities (path content : String) : Except FileFailure (Nat × List Nat) :=
  match (Language.classify path).dialect? with
  | none => .error .unsupportedLanguage
  | some d =>
    let src := Source.ofString content
    (src.parse? d).map fun t =>
      (t.complexity src, (Extraction.ofTree src t).functions.map (·.complexity))

end CodeSurvey
