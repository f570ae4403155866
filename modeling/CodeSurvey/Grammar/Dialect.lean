/-!
# Dialects

The three languages that the grammar covers. They share their statements and
expressions; the two typed ones add types, and JSX belongs to all but plain
TypeScript, where `<T>` in front of an operand is a cast.
-/

namespace CodeSurvey

inductive Dialect where
  | javascript
  | typescript
  | tsx
  deriving DecidableEq, Repr

namespace Dialect

def isTyped : Dialect → Bool
  | .javascript => false
  | _ => true

def hasMarkup : Dialect → Bool
  | .typescript => false
  | _ => true

end Dialect

end CodeSurvey
