import CodeSurvey.Grammar.Dialect

/-!
# Languages of source files

The language of a file is read off the extension of its name. Four of the
languages can be analysed; the others are counted only.
-/

namespace CodeSurvey

/-- The order of the constructors is the order of a report. -/
inductive Language where
  | javascript
  | typescript
  | jsx
  | tsx
  | python
  | go
  | rust
  | java
  | ruby
  | php
  | unknown
  deriving DecidableEq, Repr

namespace Language

def all : List Language :=
  [javascript, typescript, jsx, tsx, python, go, rust, java, ruby, php, unknown]

/-- The word for a language in records. -/
def word : Language → String
  | javascript => "javascript"
  | typescript => "typescript"
  | jsx => "jsx"
  | tsx => "tsx"
  | python => "python"
  | go => "go"
  | rust => "rust"
  | java => "java"
  | ruby => "ruby"
  | php => "php"
  | unknown => "unknown"

def ofWord? (s : String) : Option Language := all.find? (·.word == s)

def displayName : Language → String
  | javascript => "JavaScript"
  | typescript => "TypeScript"
  | jsx => "JSX"
  | tsx => "TSX"
  | python => "Python"
  | go => "Go"
  | rust => "Rust"
  | java => "Java"
  | ruby => "Ruby"
  | php => "PHP"
  | unknown => "Unknown"

/-- The extensions of a language, without their dot and in small letters. -/
def extensions : Language → List String
  | javascript => ["js", "mjs", "cjs"]
  | typescript => ["ts", "mts", "cts"]
  | jsx => ["jsx"]
  | tsx => ["tsx"]
  | python => ["py"]
  | go => ["go"]
  | rust => ["rs"]
  | java => ["java"]
  | ruby => ["rb"]
  | php => ["php"]
  | unknown => []

/-- The language of an extension; the case of ASCII letters does not matter. -/
def ofExtension (ext : String) : Language :=
  let ext := String.ofList (ext.toList.map Char.toLower)
  (all.find? (·.extensions.contains ext)).getD unknown

def isPathSeparator (c : Char) : Bool := c = '/' || c = '\\'

/-- The part of `cs` behind the last character that satisfies `p`; all of `cs`
if there is none. -/
def behindLast (p : Char → Bool) (cs : List Char) : List Char :=
  (cs.reverse.takeWhile fun c => !p c).reverse

/-- The extension of a path: what stands behind the last dot of its last
segment. A name that begins with its only dot is all extension. -/
def extension? (path : String) : Option String :=
  let name := behindLast isPathSeparator path.toList
  if name.contains '.' then some (String.ofList (behindLast (· == '.') name)) else none

def classify (path : String) : Language :=
  match extension? path with
  | some ext => ofExtension ext
  | none => unknown

/-- The dialect that a file of this language is read in. The untyped grammar
covers JSX, so it serves both untyped languages. -/
def dialect? : Language → Option Dialect
  | javascript | jsx => some .javascript
  | typescript => some .typescript
  | tsx => some .tsx
  | _ => none

def isAnalyzable (l : Language) : Bool := l.dialect?.isSome

end Language

end CodeSurvey
