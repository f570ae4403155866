import CodeSurvey.Grammar.Lexeme
import CodeSurvey.Syntax.Tree

/-!
# Where a text leaves the grammar

A text outside the grammar is at fault where its cheapest repair begins. There
are two kinds of repair: to supply a token that is missing in front of the one
that cannot be placed, and to drop some tokens around that one. Dropping costs
more the more is dropped, so that one short token too many is reported itself,
and a missing closer at the place where it is missing.

The grammar is asked through `read`, which says of a text whether it is well
formed and how far reading came.
-/

namespace CodeSurvey

namespace Source

/-! ## Tokens without a grammar -/

/-- The end of the token at `i`, so far as that can be said without knowing what
is due there. A string that is not closed goes on to the end of its line. -/
def looseTokenEnd (s : Source) (i : Nat) : Nat :=
  let c := s.peek i
  let found :=
    if c = '\x22' || c = '\x27' then
      some ((s.stringEnd? i).getD (s.skipWhile (fun c => !isLineEnd c) i))
    else if c = '\x60' then some (s.skipWhile (· ≠ '\x60') (i + 1) + 1)
    else s.wordEnd? i <|> s.numberEnd? i <|> (s.operatorAt? i).map (i + ·.length)
  min s.size (max (i + 1) (found.getD (i + 1)))

/-- At most `count` tokens from `i` on. -/
def looseTokens (s : Source) : Nat → Nat → List Span
  | 0, _ => []
  | count + 1, i =>
    let start := s.skipTrivia false i
    if start < s.size then
      let stop := s.looseTokenEnd start
      ⟨start, stop⟩ :: s.looseTokens count stop
    else []

def bytesBetween (s : Source) (start stop : Nat) : Nat :=
  s.chars.foldl (fun n c => n + c.utf8Size) 0 start stop

def breaksBetween (s : Source) (start stop : Nat) : Nat :=
  s.chars.foldl (fun n c => if c = '\n' then n + 1 else n) 0 start stop

end Source

/-! ## Repairs -/

/-- A change that may bring a text into the grammar. A change is final if the
text ends with it. -/
inductive Repair where
  /-- Put a token in at an offset. -/
  | supply (token : String) (place : Nat) (final : Bool)
  /-- Leave a stretch out that counts as `weight` trees. -/
  | drop (span : Span) (weight : Nat) (final : Bool)

namespace Repair

def place : Repair → Nat
  | supply _ i _ => i
  | drop span _ _ => span.start

def isFinal : Repair → Bool
  | supply _ _ final => final
  | drop _ _ final => final

/-- What a repair costs: a supplied token has a fixed price, what is dropped is
paid for by tree, by byte and by line. -/
def cost (s : Source) : Repair → Nat
  | supply _ _ _ => 610
  | drop span weight _ =>
    500 + 100 * weight + s.bytesBetween span.start span.stop
      + 30 * s.breaksBetween span.start span.stop

/-- The text with the change made. What is dropped leaves blanks behind, so that
no other token moves. Nothing is left behind a final change. -/
def applied (s : Source) (r : Repair) : Source :=
  let rest (i : Nat) : Array Char := if r.isFinal then #[] else s.chars.extract i s.size
  match r with
  | supply token i _ => ⟨s.chars.extract 0 i ++ (" " ++ token ++ " ").toList.toArray ++ rest i⟩
  | drop span _ _ =>
    let blanks := Array.replicate (span.stop - span.start) ' '
    ⟨s.chars.extract 0 span.start ++ blanks ++ rest span.stop⟩

/-- By how much a repair moves what comes after it. -/
def shift : Repair → Nat
  | supply token _ _ => token.length + 2
  | drop _ _ _ => 0

/-! ## The repairs around a token -/

/-- The tokens that can be supplied: an operand, or what closes something. -/
def supplies : List String := ["x", ")", "]", ";", "\x7d"]

/-- How many tokens in front of the one that cannot be placed, and how many from
it on, can be dropped. -/
def dropsBefore : Nat := 20

def dropsAfter : Nat := 8

def opens (text : String) : Bool := ["(", "[", "\x7b"].contains text

def closes (text : String) : Bool := [")", "]", "\x7d"].contains text

/-- As how many trees tokens count, the last one first: a pair of brackets is
one, whatever is between them. -/
def weigh (s : Source) : Nat → List Span → Nat
  | _, [] => 0
  | depth, t :: ts =>
    let text := s.slice t.start t.stop
    let own := if depth = 0 then 1 else 0
    if closes text then own + weigh s (depth + 1) ts
    else if opens text then own + weigh s (depth - 1) ts
    else own + weigh s depth ts

/-- The longest stretch, in characters, of which it is asked whether it can be
read as an operand. -/
def operandLimit : Nat := 1000

/-- As how many trees the tokens in front of the one that cannot be placed
count, the last one first: what can be read as an operand is one. -/
def weight (read : Source → Bool × Nat) (s : Source) (before : List Span) : Nat :=
  match before.head?, before.getLast? with
  | some last, some first =>
    if last.stop - first.start ≤ operandLimit
        && (read (.ofString ("(" ++ s.slice first.start last.stop ++ ")"))).1 then 1
    else weigh s 0 before
  | _, _ => 0

/-- The repairs at a token that cannot be placed, between the tokens in front of
it, the nearest first, and those from it on. -/
def around (read : Source → Bool × Nat) (s : Source) (before after : List Span) : List Repair :=
  let stop := (before.head?.map Span.stop).getD 0
  let supplied := match after with
    | [] => [supply "\x7d" stop true]
    | t :: _ => if s.slice t.start t.stop = "=" then [] else supplies.map (supply · stop false)
  let counts := List.range (min dropsAfter after.length + 1)
  let counts := if dropsAfter < after.length then counts ++ [after.length] else counts
  let dropped := (List.range (min dropsBefore before.length + 1)).flatMap fun n =>
    let popped := before.take n
    let trees := weight read s popped
    counts.filterMap fun m =>
      let skipped := after.take m
      match popped.getLast? <|> skipped.head?, skipped.getLast? <|> popped.head? with
      | some first, some last =>
        let final := m = after.length
        some (drop ⟨first.start, last.stop⟩ (trees + m) final)
      | _, _ => none
  supplied ++ dropped

/-- How many tokens behind a repair must be read for it to hold, if the text has
further faults. -/
def horizon : Nat := 3

/-- Whether reading gets past a repair. Behind a final one a further statement
must have a place, because it must not be the end of the text that completes the
last statement. -/
def holds (read : Source → Bool × Nat) (s : Source) (after : List Span) (r : Repair) : Bool :=
  let changed := r.applied s
  let (wellFormed, reach) := read changed
  if r.isFinal then wellFormed && (read ⟨changed.chars ++ #[' ', 'x']⟩).1
  else
    let behind := match r with
      | supply _ _ _ => after
      | drop span _ _ => after.filter (span.stop ≤ ·.start)
    wellFormed || (behind[horizon]?).any (·.start + r.shift ≤ reach)

/-- Whether the tokens, the nearest first, lead into the body of an enum. -/
def isInEnum (s : Source) : Nat → List Span → Bool
  | _, [] => false
  | depth, t :: ts =>
    let text := s.slice t.start t.stop
    if closes text then isInEnum s (depth + 1) ts
    else if opens text then
      if depth = 0 then ((ts.drop 1).head?.map fun k => s.slice k.start k.stop) == some "enum"
      else isInEnum s (depth - 1) ts
    else isInEnum s depth ts

/-- The repairs in the order in which they are tried: by cost, and at the same
cost the later one first, except among the members of an enum. -/
def ranked (s : Source) (before : List Span) (rs : List Repair) : List Repair :=
  let earlierFirst := isInEnum s 0 before
  let priced := rs.map fun r => (r.cost s, r)
  let sorted := priced.mergeSort fun (c, a) (d, b) =>
    c < d || (c = d && if earlierFirst then a.place ≤ b.place else b.place ≤ a.place)
  sorted.map (·.2)

/-- How many characters are read in search of a repair. -/
def patience : Nat := 200000

end Repair

/-- The place of the fault in a text that was read as far as `reach`. -/
def Source.faultPlace (read : Source → Bool × Nat) (s : Source) (reach : Nat) : Nat :=
  let tokens := s.looseTokens s.size 0
  let before := (tokens.takeWhile fun t => t.start < reach).reverse
  let after := tokens.dropWhile fun t => t.start < reach
  let repairs := Repair.ranked s before (Repair.around read s before after)
  let tried := repairs.take (Repair.patience / (s.size + 1))
  match tried.find? (Repair.holds read s after) with
  | some r => r.place
  | none => reach

end CodeSurvey
