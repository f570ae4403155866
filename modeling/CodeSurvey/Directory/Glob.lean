/-!
# Patterns of paths

Patterns with wildcards, as ignore files use them. A pattern is read into
tokens; a token is a step that takes bytes off the front of a path and leaves
the rest to the tokens behind it, so a pattern matches a path if its steps use
up all bytes. Wildcards for one byte and for a name never take a slash.
-/

namespace CodeSurvey

inductive GlobToken where
  | literal (c : Char)
  /-- One byte. -/
  | any
  /-- Bytes of one name. -/
  | star
  /-- All directories in front. -/
  | leadingPath
  /-- All that is behind a directory. -/
  | trailingPath
  /-- A slash, or directories between two slashes. -/
  | innerPath
  /-- One of the characters of some ranges, or none of them. -/
  | oneOf (negated : Bool) (ranges : List (Char × Char))
  /-- One of several patterns. -/
  | choice (branches : List (List GlobToken))
  deriving Repr

namespace GlobToken

/-! ## Matching -/

def slash : UInt8 := 47

/-- Whether `next` holds of a part behind a slash, for any slash. -/
def behindSlash (next : List UInt8 → Bool) : List UInt8 → Bool
  | [] => false
  | b :: bs => (b == slash && next bs) || behindSlash next bs

/-- Whether `next` holds of an end of the bytes. -/
def anyEnd (next : List UInt8 → Bool) : List UInt8 → Bool
  | [] => next []
  | b :: bs => next (b :: bs) || anyEnd next bs

/-- Whether `next` holds behind some bytes without a slash. -/
def behindName (next : List UInt8 → Bool) : List UInt8 → Bool
  | [] => next []
  | b :: bs => next (b :: bs) || (b != slash && behindName next bs)

/-- Take the bytes of a text off the front. -/
def behindBytes (next : List UInt8 → Bool) : List UInt8 → List UInt8 → Bool
  | [], bs => next bs
  | e :: es, b :: bs => e == b && behindBytes next es bs
  | _ :: _, [] => false

/-- One step of a match. The branches of a choice are told apart beforehand. -/
def step (t : GlobToken) (next : List UInt8 → Bool) (bs : List UInt8) : Bool :=
  match t with
  | literal c => behindBytes next (String.singleton c).toUTF8.toList bs
  | any =>
    match bs with
    | b :: bs => b != slash && next bs
    | [] => false
  | star => behindName next bs
  | leadingPath => next bs || behindSlash next bs
  | trailingPath =>
    match bs with
    | b :: bs => b == slash && anyEnd next bs
    | [] => false
  | innerPath =>
    match bs with
    | b :: bs => b == slash && (next bs || behindSlash next bs)
    | [] => false
  | oneOf negated ranges =>
    match bs with
    | b :: bs =>
      (ranges.any (fun (first, last) => first.toNat ≤ b.toNat && b.toNat ≤ last.toNat)) != negated
        && next bs
    | [] => false
  | choice _ => false

/-- Whether tokens without choices use up all bytes. -/
def matchesAll (tokens : List GlobToken) : List UInt8 → Bool := tokens.foldr step List.isEmpty

/-- All ways to continue each of some beginnings. -/
def continueWith (starts ends : List (List GlobToken)) : List (List GlobToken) :=
  starts.flatMap fun s => ends.map fun e => s ++ e

mutual

/-- The patterns without choices that a pattern stands for. -/
def expand : List GlobToken → List (List GlobToken)
  | [] => [[]]
  | t :: ts => continueWith (expandToken t) (expand ts)

def expandToken : GlobToken → List (List GlobToken)
  | choice branches => expandBranches branches
  | t => [[t]]

def expandBranches : List (List GlobToken) → List (List GlobToken)
  | [] => []
  | b :: bs => expand b ++ expandBranches bs

end

end GlobToken

/-- A pattern, as the patterns without choices that it stands for. -/
structure Glob where
  alternatives : List (List GlobToken)
  deriving Repr

namespace Glob

/-- Whether a pattern matches a whole path. Two stars alone match every path. -/
def isMatch (g : Glob) (path : List UInt8) : Bool :=
  g.alternatives.any fun tokens =>
    match tokens with
    | [.leadingPath] => true
    | _ => GlobToken.matchesAll tokens path

end Glob

/-! ## Reading -/

/-- Why a text is no pattern. -/
inductive GlobFault where
  /-- A range of characters that ends in front of its beginning. -/
  | invalidRange (first last : Char)
  | unopenedGroup
  | unclosedGroup
  /-- A backslash with nothing behind it. -/
  | danglingEscape
  deriving DecidableEq, Repr

namespace GlobFault

def message : GlobFault → String
  | invalidRange first last =>
    "invalid range; " ++ String.singleton first ++ " > " ++ String.singleton last
  | unopenedGroup =>
    "unopened alternate group; missing '\x7b' (maybe escape '\x7d' with '[\x7d]'?)"
  | unclosedGroup =>
    "unclosed alternate group; missing '\x7d' (maybe escape '\x7b' with '[\x7b]'?)"
  | danglingEscape => "dangling '\\'"

end GlobFault

namespace Glob

/-- A pattern that has been read in part. -/
structure Partial where
  /-- The tokens of the branch at hand, the last one first. -/
  branch : List GlobToken
  /-- The groups around it: the tokens before the group and its finished branches,
  the last ones first. -/
  groups : List (List GlobToken × List (List GlobToken))
  /-- The character before the next one. -/
  previous : Option Char
  /-- Whether brackets stand for themselves. -/
  plainBrackets : Bool

namespace Partial

def push (t : GlobToken) (p : Partial) : Partial := { p with branch := t :: p.branch }

/-- Read what follows two stars. They stand for directories if nothing but
slashes, or the ends of a branch, is around them. -/
def doubleStar (p : Partial) (cs : List Char) : Partial × List Char :=
  let plain := { (p.push .star).push .star with previous := some '*' }
  if p.branch.isEmpty then
    match cs with
    | [] => ({ p with branch := [.leadingPath], previous := none }, [])
    | '/' :: cs => ({ p with branch := [.leadingPath], previous := some '/' }, cs)
    | _ => (plain, cs)
  else if p.previous ≠ some '/' then (plain, cs)
  else
    let instead (t : GlobToken) : List GlobToken :=
      match p.branch with
      | .leadingPath :: rest => .leadingPath :: rest
      | .trailingPath :: rest => .trailingPath :: rest
      | _ :: rest => t :: rest
      | [] => [t]
    match cs with
    | [] => ({ p with branch := instead .trailingPath, previous := none }, [])
    | '/' :: cs => ({ p with branch := instead .innerPath, previous := some '/' }, cs)
    | c :: _ =>
      if (c = ',' ∨ c = '\x7d') ∧ !p.groups.isEmpty then
        ({ p with branch := instead .trailingPath, previous := some '*' }, cs)
      else (plain, cs)

/-- A class of characters that has been read in part, up to some range. -/
structure ClassPart where
  /-- The ranges before the last one, the nearest first. -/
  before : List (Char × Char)
  last : Char × Char
  /-- Whether a dash stands behind the last range, so that the next character ends it. -/
  inRange : Bool

/-- The ranges of a class that ends here. A dash at the end stands for itself. -/
def ClassPart.ranges (k : ClassPart) : List (Char × Char) :=
  ((if k.inRange then [('-', '-')] else []) ++ k.last :: k.before).reverse

/-- What reading a class can end with. -/
inductive ClassEnd where
  | closed (ranges : List (Char × Char)) (rest : List Char)
  | unclosed
  | invalidRange (first last : Char)

/-- Read a class up to its bracket. -/
def classTail (k : ClassPart) : List Char → ClassEnd
  | [] => .unclosed
  | c :: cs =>
    if c = ']' then .closed k.ranges cs
    else if k.inRange then
      if c < k.last.1 then .invalidRange k.last.1 c
      else classTail { k with last := (k.last.1, c), inRange := false } cs
    else if c = '-' then classTail { k with inRange := true } cs
    else classTail ⟨k.last :: k.before, (c, c), false⟩ cs

/-- Read a class from its first character on, which stands for itself. -/
def classBody : List Char → ClassEnd
  | [] => .unclosed
  | c :: cs => classTail ⟨[], (c, c), false⟩ cs

/-- Read a class from behind its opening bracket. -/
def classToken : List Char → Bool × ClassEnd
  | '!' :: cs => (true, classBody cs)
  | '^' :: cs => (true, classBody cs)
  | cs => (false, classBody cs)

/-! What is read is gone: the rest is shorter. -/

theorem length_doubleStar_le (p : Partial) (cs : List Char) :
    (p.doubleStar cs).2.length ≤ cs.length := by
  unfold doubleStar
  grind

theorem length_lt_of_classTail {k : ClassPart} {cs rest : List Char}
    {ranges : List (Char × Char)} (h : classTail k cs = .closed ranges rest) :
    rest.length < cs.length := by
  induction cs generalizing k with
  | nil => cases h
  | cons c cs ih =>
      rw [classTail] at h
      split at h
      · cases h
        exact Nat.lt_succ_self _
      · split at h
        · split at h
          · cases h
          · exact Nat.lt_succ_of_lt (ih h)
        · split at h
          · exact Nat.lt_succ_of_lt (ih h)
          · exact Nat.lt_succ_of_lt (ih h)

theorem length_lt_of_classBody {cs rest : List Char} {ranges : List (Char × Char)}
    (h : classBody cs = .closed ranges rest) : rest.length < cs.length := by
  cases cs with
  | nil => cases h
  | cons c cs => exact Nat.lt_succ_of_lt (length_lt_of_classTail h)

theorem length_lt_of_classToken {cs rest : List Char} {negated : Bool}
    {ranges : List (Char × Char)} (h : classToken cs = (negated, .closed ranges rest)) :
    rest.length < cs.length := by
  unfold classToken at h
  split at h
  · exact Nat.lt_succ_of_lt (length_lt_of_classBody (Prod.mk.inj h).2)
  · exact Nat.lt_succ_of_lt (length_lt_of_classBody (Prod.mk.inj h).2)
  · exact length_lt_of_classBody (Prod.mk.inj h).2

/-- Read the rest of a pattern. A class without its closing bracket is none, and
then all brackets behind it stand for themselves. -/
def finish (p : Partial) : List Char → Except GlobFault (List GlobToken)
  | [] => if p.groups.isEmpty then .ok p.branch.reverse else .error .unclosedGroup
  | c :: cs =>
    let next (p : Partial) : Partial := { p with previous := some c }
    match c with
    | '?' => finish (next (p.push .any)) cs
    | '*' =>
      match cs with
      | '*' :: cs => finish (p.doubleStar cs).1 (p.doubleStar cs).2
      | cs => finish (next (p.push .star)) cs
    | '[' =>
      if p.plainBrackets then finish (next (p.push (.literal '['))) cs
      else
        match _ : classToken cs with
        | (negated, .closed ranges rest) =>
          finish { p.push (.oneOf negated ranges) with previous := some ']' } rest
        | (_, .unclosed) => finish { next (p.push (.literal '[')) with plainBrackets := true } cs
        | (_, .invalidRange first last) => .error (.invalidRange first last)
    | '\x7b' => finish (next { p with branch := [], groups := (p.branch, []) :: p.groups }) cs
    | '\x7d' =>
      match p.groups with
      | (before, branches) :: groups =>
        let branches := (p.branch :: branches).reverse.map List.reverse
        finish (next { p with branch := .choice branches :: before, groups := groups }) cs
      | [] => .error .unopenedGroup
    | ',' =>
      match p.groups with
      | (before, branches) :: groups =>
        finish (next { p with branch := [], groups := (before, p.branch :: branches) :: groups }) cs
      | [] => finish (next (p.push (.literal ','))) cs
    | '\\' =>
      match cs with
      | d :: cs => finish { p.push (.literal d) with previous := some d } cs
      | [] => .error .danglingEscape
    | c => finish (next (p.push (.literal c))) cs
termination_by cs => cs.length
decreasing_by
  all_goals simp only [List.length_cons]
  all_goals try omega
  · exact Nat.lt_succ_of_le (Nat.le_succ_of_le (length_doubleStar_le p _))
  · exact Nat.lt_succ_of_lt (length_lt_of_classToken ‹_›)

end Partial

/-- The pattern that a text states. -/
def ofChars (cs : List Char) : Except GlobFault Glob :=
  (Partial.finish ⟨[], [], none, false⟩ cs).map fun tokens => ⟨GlobToken.expand tokens⟩

end Glob

end CodeSurvey
