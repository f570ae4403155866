import CodeSurvey.Text.LetterCase

/-!
# Texts in small letters

Two letters need more than their own small letter: the capital I with a dot
becomes two characters, and the small sigma has another form at the end of a
word. Texts are compared without regard to case through `lowercase`.
-/

namespace CodeSurvey

/-- Whether, of the characters of a list that do not interrupt a word, the
first other one is a letter with a case. -/
def meetsLetter (cs : List Char) : Bool :=
  match cs.dropWhile LetterCase.isIgnorable with
  | c :: _ => LetterCase.isCased c
  | [] => false

/-- The small letters of a text; `before` holds the text before it in reverse. -/
def lowercaseFrom (before : List Char) : List Char → List Char
  | [] => []
  | c :: cs =>
    let small : List Char :=
      if c = 'Σ' then [if meetsLetter before && !meetsLetter cs then 'ς' else 'σ']
      else if c = 'İ' then ['i', '\u0307']
      else [LetterCase.small c]
    small ++ lowercaseFrom (c :: before) cs

/-- A text in small letters. -/
def lowercase (s : String) : String := String.ofList (lowercaseFrom [] s.toList)

/-- Whether a list occurs in another one without a gap. -/
def occursIn (needle : List Char) : List Char → Bool
  | [] => needle.isEmpty
  | c :: cs => needle.isPrefixOf (c :: cs) || occursIn needle cs

/-- Whether a text contains another one. -/
def textContains (s part : String) : Bool := occursIn part.toList s.toList

/-- Whether a text contains another one when case does not matter. -/
def containsIgnoringCase (s part : String) : Bool := textContains (lowercase s) (lowercase part)

end CodeSurvey
