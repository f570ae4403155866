import CodeSurvey.Grammar.Form

/-!
# Expressions and patterns

The forms of expressions, binding patterns and parameter lists. They accept
more than a compiler would: names that are bound twice, holes in argument
lists and any keyword as a name where that keyword has no meaning.

Where two readings begin alike (a parenthesised expression and the parameters
of an arrow function, an object and a pattern, a call with type arguments and
a comparison), the one that needs more behind it is tried first.
-/

namespace CodeSurvey.Form

/-! ## Names -/

/-- The words that mean something where an operand is due. All other words are
names there. -/
def operandKeywords : List String :=
  ["import", "function", "class", "new", "this", "super", "true", "false", "null", "undefined",
    "typeof", "void", "delete", "await", "yield"]

/-- A name where an operand is due. -/
def identifier : Form := inOrder [butNot (keyword operandKeywords), word .identifier]

def privateName : Form := literal .privatePropertyIdentifier .privateName

def stringToken : Form := literal .stringLiteral .string

/-- The name of a member, with computed ones in brackets. -/
def propertyName : Form :=
  firstOf [
    word .propertyIdentifier, privateName, stringToken, literal .number .number,
    node .computedPropertyName (within "[" Rule.expression "]")]

/-- A word in front of a member's name is a modifier only if the name is still
to come: not if the word itself is followed by what follows a name, and not at
the end of a line that ends the member. -/
def modifier (words : List String) : Form :=
  inOrder [
    keyword words,
    butNot (semicolon false),
    butNot (firstOf ["(", "<", "?", ":", "=", ";", ",", "!", "\x7d", endOfText])]

/-! ## Functions -/

/-- A type behind a colon, which only the typed dialects state. -/
def optionalAscription : Form := optional (typed (field .type Rule.ascription))

def initializer : Form := inOrder [op "=", field .value Rule.expression]

def asyncModifier : Form := inOrder [kw "async", unbroken]

def functionExpression : Form :=
  let head : Form := inOrder [optional asyncModifier, kw "function"]
  let tail : Form := inOrder [
    optional (field .name (word .identifier)), Rule.callSignature, field .body Rule.bodyBlock]
  inOrder [
    ahead (keyword ["async", "function"]),
    alt (node .generatorFunction (inOrder [head, "*", tail]))
      (node .functionExpression (inOrder [head, tail]))]

/-- The parameters of an arrow function. A return type may be stated, unless a
conditional is waiting for that colon. -/
def arrowSignature : Form :=
  alt (when (·.returnTypes) Rule.callSignature) Rule.plainCallSignature

def arrowBody : Form := field .body (alt Rule.bodyBlock Rule.expression)

def arrowFunction : Form :=
  let single : Form := field .parameter identifier
  alt
    (node .arrowFunction (inOrder [single, op "=>", arrowBody]))
    (alt
      (node .arrowFunction
        (inOrder [asyncModifier, alt (inOrder [single, op "=>"]) (inOrder [arrowSignature, op "=>"]),
          arrowBody]))
      (inOrder [
        ahead (alt "(" (typed "<")),
        node .arrowFunction (inOrder [
          firstOf [
            inOrder [when (·.returnTypes) Rule.callSignature, op "=>"],
            inOrder [Rule.plainCallSignature, op "=>"]],
          arrowBody])]))

/-! ## Literals with parts -/

def templateString : Form :=
  node .templateString (inOrder [
    "\x60",
    many (firstOf [
      gluedLiteral .stringFragment .templateChars,
      gluedLiteral .escapeSequence .escape,
      node .templateSubstitution (inOrder [
        gluedMark "$\x7b", inMode .bracketed Rule.expressions, "\x7d"])]),
    gluedMark "\x60"])

def spreadElement : Form := node .spreadElement (inOrder ["...", Rule.expression])

def array : Form :=
  node .array (within "[" (commaListWithHoles (alt spreadElement Rule.expression)) "]")

def argumentList : Form :=
  node .arguments (within "(" (commaListWithHoles (alt spreadElement Rule.expression)) ")")

def object : Form :=
  node .object (within "\x7b"
    (commaListWithHoles (firstOf [
      spreadElement,
      Rule.methodDefinition,
      node .pair (inOrder [
        field .key Rule.propertyName, ":", field .value Rule.expression]),
      word .shorthandPropertyIdentifier]))
    "\x7d")

def parenthesized : Form :=
  node .parenthesizedExpression (within "("
    (alt (inOrder [Rule.expression, optionalAscription, ahead ")"]) Rule.expressions)
    ")")

/-! ## Operands -/

def primary : Form :=
  firstOf [
    Rule.functionExpression,
    identifier,
    literal .number .number,
    stringToken,
    Rule.parenthesized,
    Rule.array,
    Rule.object,
    Rule.templateString,
    literal .regex .regex,
    namedWord .thisExpression "this",
    namedWord .trueLiteral "true",
    namedWord .falseLiteral "false",
    namedWord .nullLiteral "null",
    namedWord .undefinedName "undefined",
    namedWord .superExpression "super",
    Rule.classExpression,
    node .metaProperty (inOrder [kw "new", ".", kw "target"]),
    node .metaProperty (inOrder [kw "import", ".", kw "meta"]),
    inOrder [namedWord .importKeyword "import", ahead (alt "(" ".")]]

def memberStep : Form :=
  node .memberExpression (inOrder [
    alt (op ".") (field .optionalChain (node .optionalChain (op "?."))),
    field .property (alt privateName (word .propertyIdentifier))])

def subscriptStep : Form :=
  node .subscriptExpression (inOrder [
    optional (field .optionalChain (node .optionalChain (op "?."))),
    "[", field .index (inMode .bracketed Rule.expressions), "]"])

def callStep : Form :=
  let withTypes : Form :=
    inOrder [typed (field .typeArguments Rule.typeArguments), field .arguments Rule.arguments]
  node .callExpression
    (firstOf [
      field .arguments Rule.arguments,
      withTypes,
      inOrder [
        field .optionalChain (node .optionalChain (op "?.")),
        alt (field .arguments Rule.arguments) withTypes]])

def templateStep : Form := node .callExpression (field .arguments Rule.templateString)

def nonNullStep : Form := typed (node .nonNullExpression (inOrder [unbroken, op "!"]))

def updateStep : Form :=
  node .updateExpression (inOrder [unbroken, field .operator (operator ["++", "--"])])

/-- What can begin an operand. Type arguments with an operand behind them are
no type arguments but two comparisons. -/
def operandStart : Form :=
  firstOf [
    keyword operandKeywords,
    inOrder [butNot (keyword ["as", "satisfies", "in", "instanceof", "of", "implements"]),
      word .identifier],
    literal .number .number, stringToken, "(", "[", "\x7b", "\x60", "!", "~", "+", "-", "<"]

def instantiationStep : Form :=
  typed (node .instantiationExpression
    (inOrder [field .typeArguments Rule.typeArguments, butNot operandStart]))

def newExpression : Form :=
  node .newExpression (inOrder [
    kw "new",
    field .constructor Rule.constructorReach,
    alt
      (inOrder [typed (field .typeArguments Rule.typeArguments),
        optional (field .arguments Rule.arguments)])
      (optional (field .arguments Rule.arguments))])

/-- What follows `new`: a chain of members without a call. -/
def constructorReach : Form :=
  alt (untyped newExpression)
    (chain Rule.primary (firstOf [memberStep, subscriptStep, templateStep, nonNullStep]))

/-- What a chain of members and calls begins with. -/
def reachStart : Form :=
  firstOf [Rule.primary, newExpression, when (·.dialect.hasMarkup) Rule.markupElement]

def reachSteps : List Form := [memberStep, callStep, subscriptStep, templateStep, nonNullStep]

/-- An operand with its members, calls and subscripts, but with no type
arguments at its end. -/
def plainReach : Form := chain reachStart (firstOf reachSteps)

def reach : Form := chain reachStart (firstOf (reachSteps ++ [updateStep, instantiationStep]))

/-! ## Assignments and operators -/

/-- What can stand in front of an assignment operator. -/
def assignable : List NodeKind :=
  [.memberExpression, .subscriptExpression, .identifier, .undefinedName, .parenthesizedExpression,
    .nonNullExpression]

def assignment : Form :=
  let target : Form :=
    alt (ofKind assignable Rule.reach)
      (inOrder [ahead (alt "\x7b" "["), alt Rule.objectPattern Rule.arrayPattern])
  let plain : Form := inOrder [field .left target, op "=", field .right Rule.expression]
  firstOf [
    typed (node .assignmentExpression (inOrder [kw "using", plain])),
    node .assignmentExpression plain,
    node .augmentedAssignmentExpression (inOrder [
      field .left (ofKind assignable Rule.reach),
      field .operator (operator ["+=", "-=", "*=", "/=", "%=", "^=", "&=", "|=", ">>=", ">>>=",
        "<<=", "**=", "&&=", "||=", "??="]),
      field .right Rule.expression])]

def operand : Form :=
  let argument : Form := field .argument Rule.operand
  firstOf [
    Rule.arrowFunction,
    Rule.assignment,
    inOrder [
      ahead (keyword ["typeof", "void", "delete"]),
      node .unaryExpression (inOrder [
        field .operator (keyword ["typeof", "void", "delete"]), argument])],
    node .unaryExpression (inOrder [field .operator (operator ["!", "~", "-", "+"]), argument]),
    node .updateExpression (inOrder [field .operator (operator ["++", "--"]), argument]),
    node .awaitExpression (inOrder [kw "await", Rule.operand]),
    node .yieldExpression (inOrder [
      kw "yield",
      firstOf [inOrder ["*", Rule.expression], inOrder [unbroken, Rule.expression], empty]]),
    Rule.reach,
    when (fun m => !m.dialect.hasMarkup)
      (node .typeAssertion (inOrder [Rule.typeArguments, Rule.operand])),
    inOrder [privateName, ahead (kw "in")]]

def operationTail : Form :=
  firstOf [
    inOrder [
      operator ["&&", "||", ">>", ">>>", "<<", "&", "^", "|", "+", "-", "*", "/", "%", "**", "<",
        "<=", "==", "===", "!=", "!==", ">=", ">", "??"],
      Rule.operand],
    inOrder [kw "instanceof", Rule.operand],
    when (·.relational) (inOrder [kw "in", Rule.operand]),
    typed (inOrder [unbroken, keyword ["as", "satisfies"], alt (kw "const") Rule.type])]

/-- The rest of a conditional. What stands between the question mark and the
colon is first read as if the colon of a return type could not be meant. -/
def conditionalTail : Form :=
  let rest (consequence : Form) : Form :=
    inOrder [conditionalMark, field .consequence consequence, ":",
      field .alternative Rule.expression]
  alt
    (node .ternaryExpression (rest (inMode .bracketed Rule.expression)))
    (typed (node .ternaryExpression
      (rest (inMode (fun m => m.bracketed.withoutReturnTypes) Rule.expression))))

def expression : Form := chain (operation Rule.operand operationTail) conditionalTail

/-- One expression, or several with commas between them. -/
def expressions : Form :=
  alt
    (node .sequenceExpression (inOrder [
      Rule.expression, ",", Rule.expression, many (inOrder [",", Rule.expression])]))
    Rule.expression

/-! ## Patterns -/

/-- A name or the access to a member, as the target of a binding. -/
def simpleTarget : Form :=
  ofKind [.memberExpression, .subscriptExpression, .identifier, .undefinedName,
    .nonNullExpression] Rule.plainReach

def destructuring : Form :=
  inOrder [ahead (alt "\x7b" "["), alt Rule.objectPattern Rule.arrayPattern]

def pattern : Form :=
  firstOf [
    node .restPattern (inOrder ["...", alt destructuring simpleTarget]),
    destructuring,
    simpleTarget]

def assignmentPattern : Form :=
  node .assignmentPattern (inOrder [
    field .left Rule.pattern, op "=", field .right Rule.expression])

/-- The target of a declaration: any word is a name here. -/
def bindingTarget : Form := alt (word .identifier) destructuring

def objectPattern : Form :=
  let name : Form := word .shorthandPropertyIdentifierPattern
  node .objectPattern (within "\x7b"
    (commaListWithHoles (firstOf [
      node .pairPattern (inOrder [
        field .key Rule.propertyName, ":", field .value (alt assignmentPattern Rule.pattern)]),
      node .objectAssignmentPattern (inOrder [
        field .left (alt destructuring name), op "=", field .right Rule.expression]),
      inOrder [ahead "...", Rule.pattern],
      name]))
    "\x7d")

def arrayPattern : Form :=
  node .arrayPattern (within "["
    (commaListWithHoles (alt assignmentPattern Rule.pattern)) "]")

/-! ## Parameters -/

/-- A word in front of a parameter's pattern. -/
def parameterModifier (words : List String) : Form :=
  inOrder [keyword words, ahead (firstOf [word .identifier, "\x7b", "[", "..."])]

def typedParameterName : Form :=
  inOrder [
    Rule.decorators,
    optional (node .accessibilityModifier (parameterModifier ["public", "private", "protected"])),
    optional (node .overrideModifier (parameterModifier ["override"])),
    optional (parameterModifier ["readonly"]),
    field .pattern (alt (namedWord .thisExpression "this") Rule.pattern)]

def formalParameter : Form :=
  firstOf [
    untyped (alt assignmentPattern Rule.pattern),
    typed (node .optionalParameter (inOrder [
      typedParameterName, "?", optionalAscription, optional initializer])),
    typed (node .requiredParameter (inOrder [
      typedParameterName, optionalAscription, optional initializer]))]

def formalParameters : Form :=
  node .formalParameters
    (within "(" (optional (commaListTrailing1 Rule.formalParameter)) ")")

def plainCallSignature : Form :=
  inOrder [
    optional (typed (field .typeParameters Rule.typeParameters)),
    field .parameters Rule.formalParameters]

end CodeSurvey.Form
