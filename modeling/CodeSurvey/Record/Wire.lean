import CodeSurvey.Json.Decode
import CodeSurvey.Record.Basic

/-!
# Records of a file as JSON

Each record is an object with one field per component; a component without a
value has no field. Encoders and decoders stand side by side, so that a field
that is added to one is missed in the other at once.
-/

namespace CodeSurvey

namespace Language

def toJson (l : Language) : Json := .string l.word

def ofJson? (v : Json) : Option Language := v.string?.bind ofWord?

end Language

namespace SourceFile

def toJson (f : SourceFile) : Json :=
  .object [
    ("path", .string f.path), ("content", .string f.content), ("sizeBytes", .natural f.sizeBytes)]

/-- A size that is not stated is that of the content. -/
def ofJson? (v : Json) : Option SourceFile := do
  let path ← v.required "path" Json.string?
  let content ← v.required "content" Json.string?
  let size ← v.optional "sizeBytes" Json.count?
  return ⟨path, content, size.getD content.utf8ByteSize⟩

end SourceFile

namespace FunctionRecord

def toJson (f : FunctionRecord) : Json :=
  .fieldsOf [
    ("name", some (.string f.name)),
    ("parameters", some (.strings f.parameters)),
    ("returnType", f.returnType.map .string),
    ("lineStart", some (.natural f.lineStart)),
    ("lineEnd", some (.natural f.lineEnd)),
    ("complexity", some (.natural f.complexity)),
    ("isAsync", some (.bool f.isAsync)),
    ("isExported", some (.bool f.isExported)),
    ("docComment", f.docComment.map .string)]

def ofJson? (v : Json) : Option FunctionRecord := do
  return {
    name := ← v.required "name" Json.string?
    parameters := ← v.required "parameters" (Json.list? Json.string?)
    returnType := ← v.optional "returnType" Json.string?
    lineStart := ← v.required "lineStart" Json.count?
    lineEnd := ← v.required "lineEnd" Json.count?
    complexity := ← v.required "complexity" (Json.natural? Json.maxHalfWord)
    isAsync := ← v.required "isAsync" Json.bool?
    isExported := ← v.required "isExported" Json.bool?
    docComment := ← v.optional "docComment" Json.string? }

end FunctionRecord

namespace ClassRecord

def toJson (c : ClassRecord) : Json :=
  .fieldsOf [
    ("name", some (.string c.name)),
    ("methodNames", some (.strings c.methodNames)),
    ("propertyNames", some (.strings c.propertyNames)),
    ("superclassName", c.superclassName.map .string),
    ("implementedInterfaceNames", c.implementedInterfaceNames.map .strings),
    ("lineStart", some (.natural c.lineStart)),
    ("lineEnd", some (.natural c.lineEnd)),
    ("isExported", some (.bool c.isExported)),
    ("docComment", c.docComment.map .string)]

def ofJson? (v : Json) : Option ClassRecord := do
  return {
    name := ← v.required "name" Json.string?
    methodNames := ← v.required "methodNames" (Json.list? Json.string?)
    propertyNames := ← v.required "propertyNames" (Json.list? Json.string?)
    superclassName := ← v.optional "superclassName" Json.string?
    implementedInterfaceNames :=
      ← v.optional "implementedInterfaceNames" (Json.list? Json.string?)
    lineStart := ← v.required "lineStart" Json.count?
    lineEnd := ← v.required "lineEnd" Json.count?
    isExported := ← v.required "isExported" Json.bool?
    docComment := ← v.optional "docComment" Json.string? }

end ClassRecord

namespace ImportKind

def word : ImportKind → String
  | static => "import"
  | require => "require"
  | dynamic => "dynamic"

def ofJson? (v : Json) : Option ImportKind :=
  v.string?.bind fun s => [static, require, dynamic].find? (·.word == s)

end ImportKind

namespace ImportRecord

def toJson (i : ImportRecord) : Json :=
  .object [
    ("sourceModule", .string i.sourceModule),
    ("boundNames", .strings i.boundNames),
    ("kind", .string i.kind.word)]

def ofJson? (v : Json) : Option ImportRecord := do
  return {
    sourceModule := ← v.required "sourceModule" Json.string?
    boundNames := ← v.required "boundNames" (Json.list? Json.string?)
    kind := ← v.required "kind" ImportKind.ofJson? }

end ImportRecord

namespace ExportKind

def word : ExportKind → String
  | named => "named"
  | default => "default"
  | wildcard => "wildcard"

def ofJson? (v : Json) : Option ExportKind :=
  v.string?.bind fun s => [named, default, wildcard].find? (·.word == s)

end ExportKind

namespace ExportRecord

def toJson (e : ExportRecord) : Json :=
  .object [
    ("name", .string e.name), ("kind", .string e.kind.word), ("line", .natural e.line)]

def ofJson? (v : Json) : Option ExportRecord := do
  return {
    name := ← v.required "name" Json.string?
    kind := ← v.required "kind" ExportKind.ofJson?
    line := ← v.required "line" Json.count? }

end ExportRecord

namespace ParsedFile

def toJson (p : ParsedFile) : Json :=
  .object [
    ("path", .string p.path),
    ("language", p.language.toJson),
    ("linesOfCode", .natural p.linesOfCode),
    ("functions", .array (p.functions.map (·.toJson))),
    ("classes", .array (p.classes.map (·.toJson))),
    ("imports", .array (p.imports.map (·.toJson))),
    ("exports", .array (p.exports.map (·.toJson))),
    ("totalComplexity", .natural p.totalComplexity)]

def ofJson? (v : Json) : Option ParsedFile := do
  return {
    path := ← v.required "path" Json.string?
    language := ← v.required "language" Language.ofJson?
    linesOfCode := ← v.required "linesOfCode" Json.count?
    functions := ← v.required "functions" (Json.list? FunctionRecord.ofJson?)
    classes := ← v.required "classes" (Json.list? ClassRecord.ofJson?)
    imports := ← v.required "imports" (Json.list? ImportRecord.ofJson?)
    exports := ← v.required "exports" (Json.list? ExportRecord.ofJson?)
    totalComplexity := ← v.required "totalComplexity" (Json.natural? Json.maxHalfWord) }

end ParsedFile

end CodeSurvey
