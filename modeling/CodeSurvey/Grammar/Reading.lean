import CodeSurvey.Grammar.Form
import Std.Data.HashMap

/-!
# Reading a text by a grammar

`Form.read` gives each form its meaning at an offset of a text: the nodes that
it contributes and where it stops, or nothing. It is a plain recursion on the
form; a rule is handed to the function `call`, and `readRule` ties the knot.

Every rule is read at most once per offset and mode. The results go into a
table (`Notes.results`), which makes ordered choice affordable: an alternative
that fails late leaves behind the results of all that it read, and the next
alternative finds them. Depth, not work, is what `readRule` counts down.
-/

namespace CodeSurvey

/-- What a form contributes, and the offset behind its last token. -/
structure Match where
  trees : List Tree
  stop : Nat

/-- What is learnt while reading. -/
structure Notes where
  /-- The results of the rules read so far. -/
  results : Std.HashMap Nat (Option Match)
  /-- The largest offset at which a token was looked for. -/
  reach : Nat

namespace Notes

def empty : Notes := ⟨∅, 0⟩

def reached (n : Notes) (i : Nat) : Notes :=
  if n.reach < i then { n with reach := i } else n

end Notes

/-- The place of a result in the table. -/
def resultKey (r : Rule) (m : Mode) (i : Nat) : Nat := (i * 8 + m.index) * 128 + r.ctorIdx

/-- The answer of a reader, with what was learnt on the way. -/
abbrev Reading := Option Match × Notes

namespace Form

/-- Whether no markup comment is skipped in front of the mark: its first
character could be the comment's. -/
def skipsMarkup (text : String) : Bool :=
  !(text.startsWith "<" || text.startsWith "-")

/-- Read `step` as often as it matches and moves on. -/
def iterate (step : Nat → Notes → Reading) : Nat → Nat → List Tree → Notes → Reading
  | 0, i, acc, n => (some ⟨acc, i⟩, n)
  | fuel + 1, i, acc, n =>
    match step i n with
    | (some m, n) => if i < m.stop then iterate step fuel m.stop (m.trees.reverse ++ acc) n
      else (some ⟨acc, i⟩, n)
    | (none, n) => (some ⟨acc, i⟩, n)

/-- Read `step` as often as it matches and moves on, each time putting what
came before in front of its children. -/
def iterateChain (step : Nat → Notes → Reading) : Nat → Nat → Tree → Notes → Reading
  | 0, i, t, n => (some ⟨[t], i⟩, n)
  | fuel + 1, i, t, n =>
    match step i n with
    | (some ⟨[next], stop⟩, n) =>
      if i < stop then iterateChain step fuel stop (t.prependChild next) n
      else (some ⟨[t], i⟩, n)
    | (_, n) => (some ⟨[t], i⟩, n)

/-- Read operators and their right sides as often as they match. -/
def iteratePairs (step : Nat → Notes → Reading) :
    Nat → Nat → List (Tree × Tree) → Notes → List (Tree × Tree) × Nat × Notes
  | 0, i, acc, n => (acc.reverse, i, n)
  | fuel + 1, i, acc, n =>
    match step i n with
    | (some ⟨[sign, right], stop⟩, n) =>
      if i < stop then iteratePairs step fuel stop ((sign, right) :: acc) n
      else (acc.reverse, i, n)
    | (_, n) => (acc.reverse, i, n)

def read (call : Rule → Mode → Nat → Notes → Reading) (src : Source) :
    Form → Mode → Nat → Notes → Reading
  | mark text, _, i, n =>
    let start := src.skipTrivia (skipsMarkup text) i
    let n := n.reached start
    if src.startsWith text.toList start then
      let stop := start + text.length
      (some ⟨[Tree.ofToken text start stop], stop⟩, n)
    else (none, n)
  | gluedMark text, _, i, n =>
    if src.startsWith text.toList i then
      let stop := i + text.length
      (some ⟨[Tree.ofToken text i stop], stop⟩, n.reached i)
    else (none, n.reached i)
  | operator among, _, i, n =>
    let start := src.skipTrivia false i
    let n := n.reached start
    match src.operatorAt? start with
    | some text =>
      if among.contains text then
        let stop := start + text.length
        (some ⟨[Tree.ofToken text start stop], stop⟩, n)
      else (none, n)
    | none => (none, n)
  | keyword among, _, i, n =>
    let start := src.skipTrivia true i
    let n := n.reached start
    match src.wordEnd? start with
    | some stop =>
      let text := src.slice start stop
      if among.contains text then (some ⟨[Tree.ofToken text start stop], stop⟩, n)
      else (none, n)
    | none => (none, n)
  | namedWord kind word, _, i, n =>
    let start := src.skipTrivia true i
    let n := n.reached start
    if src.atWord word.toList start then
      let stop := start + word.length
      (some ⟨[Tree.leaf kind start stop], stop⟩, n)
    else (none, n)
  | literal kind shape, _, i, n =>
    let start := src.skipTrivia true i
    let n := n.reached start
    match shape.end? src start with
    | some stop => (some ⟨[Tree.leaf kind start stop], stop⟩, n)
    | none => (none, n)
  | gluedLiteral kind shape, _, i, n =>
    match shape.end? src i with
    | some stop => (some ⟨[Tree.leaf kind i stop], stop⟩, n.reached i)
    | none => (none, n.reached i)
  | semicolon afterOperand, m, i, n =>
    match src.virtualSemicolon? m.dialect afterOperand i with
    | some stop => (some ⟨[], stop⟩, n)
    | none => (none, n)
  | conditionalMark, _, i, n =>
    let start := src.skipTrivia false i
    let n := n.reached start
    if src.isConditionalMark start then
      (some ⟨[Tree.ofToken "?" start (start + 1)], start + 1⟩, n)
    else (none, n)
  | endOfText, _, i, n =>
    let start := src.skipTrivia true i
    if src.size ≤ start then (some ⟨[], i⟩, n.reached start) else (none, n.reached start)
  | rule r, m, i, n => call r m i n
  | empty, _, i, n => (some ⟨[], i⟩, n)
  | seq a b, m, i, n =>
    match a.read call src m i n with
    | (some x, n) =>
      match b.read call src m x.stop n with
      | (some y, n) => (some ⟨x.trees ++ y.trees, y.stop⟩, n)
      | (none, n) => (none, n)
    | (none, n) => (none, n)
  | alt a b, m, i, n =>
    match a.read call src m i n with
    | (some x, n) => (some x, n)
    | (none, n) => b.read call src m i n
  | many a, m, i, n =>
    match iterate (a.read call src m) (src.size + 1 - i) i [] n with
    | (some x, n) => (some ⟨x.trees.reverse, x.stop⟩, n)
    | (none, n) => (none, n)
  | ahead a, m, i, n =>
    match a.read call src m i n with
    | (some _, n) => (some ⟨[], i⟩, n)
    | (none, n) => (none, n)
  | butNot a, m, i, n =>
    match a.read call src m i n with
    | (some _, n) => (none, n)
    | (none, n) => (some ⟨[], i⟩, n)
  | field f a, m, i, n =>
    match a.read call src m i n with
    | (some x, n) =>
      (some ⟨x.trees.map fun t => if t.field.isNone then t.withField f else t, x.stop⟩, n)
    | (none, n) => (none, n)
  | node kind a, m, i, n =>
    match a.read call src m i n with
    | (some x, n) =>
      let start := match x.trees with
        | t :: _ => t.span.start
        | [] => x.stop
      (some ⟨[.node (.named kind) none ⟨start, x.stop⟩ x.trees], x.stop⟩, n)
    | (none, n) => (none, n)
  | chain first step, m, i, n =>
    match first.read call src m i n with
    | (some ⟨[t], stop⟩, n) =>
      iterateChain (step.read call src m) (src.size + 1 - stop) stop t n
    | r => r
  | operation operand tail, m, i, n =>
    match operand.read call src m i n with
    | (some ⟨[t], stop⟩, n) =>
      let (pairs, stop, n) :=
        iteratePairs (tail.read call src m) (src.size + 1 - stop) stop [] n
      (some ⟨[PendingOperation.group [] t pairs], stop⟩, n)
    | r => r
  | ofKind kinds a, m, i, n =>
    match a.read call src m i n with
    | (some ⟨[t], stop⟩, n) =>
      if kinds.any t.isKind then (some ⟨[t], stop⟩, n) else (none, n)
    | (_, n) => (none, n)
  | inMode change a, m, i, n => a.read call src (change m) i n
  | when holds a, m, i, n => if holds m then a.read call src m i n else (none, n)

end Form

/-- Read a rule, given the forms of all rules; `depth` bounds how deeply rules
nest. A result is looked up before it is worked out. -/
def readRule (grammar : Rule → Form) (src : Source) :
    Nat → Rule → Mode → Nat → Notes → Reading
  | 0, _, _, _, n => (none, n)
  | depth + 1, r, m, i, n =>
    let key := resultKey r m i
    match n.results[key]? with
    | some found => (found, n)
    | none =>
      let (found, n) := (grammar r).read (readRule grammar src depth) src m i n
      (found, { n with results := n.results.insert key found })

/-- As deep as rules can nest: each rule either takes a character or hands on
to a rule that has not been tried at this offset. -/
def Source.ruleDepth (src : Source) : Nat := 128 * (src.size + 1)

end CodeSurvey
