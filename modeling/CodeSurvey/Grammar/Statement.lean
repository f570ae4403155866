import CodeSurvey.Grammar.Class

/-!
# Statements and declarations

The forms of statements, with the declarations of values and of types. A
statement ends at a semicolon, written or virtual; declarations that end in a
brace need none.
-/

namespace CodeSurvey.Form

/-! ## Blocks and declarations of values -/

/-- A block; `afterOperand` says whether it ends an expression, as the body of
an arrow function does. -/
def blockOf (afterOperand : Bool) : Form :=
  node .statementBlock (inOrder [
    "\x7b", inMode .unbracketed (many Rule.statement), "\x7d", optional (semicolon afterOperand)])

/-- The declarators of a declaration and the semicolon behind them. A declarator
that ends in a value ends at fewer line breaks than one that ends in a name. -/
def declarators : Form :=
  let target : Form := field .name Rule.bindingTarget
  let more (afterOperand : Bool) : Form :=
    alt (inOrder [",", Rule.declarators]) (terminator afterOperand)
  firstOf [
    inOrder [
      node .variableDeclarator (inOrder [target, optionalAscription, initializer]), more true],
    inOrder [node .variableDeclarator (inOrder [target, optionalAscription]), more false],
    typed (inOrder [
      node .variableDeclarator (inOrder [
        field .name (word .identifier), "!", field .type Rule.ascription]),
      more false])]

def variableDeclaration : Form :=
  node .variableDeclaration (inOrder [kw "var", Rule.declarators])

def lexicalDeclaration : Form :=
  node .lexicalDeclaration (inOrder [
    field .kind (alt (kw "const") (inOrder [kw "let", butNot (semicolon true)])),
    Rule.declarators])

def functionDeclaration : Form :=
  let head : Form := inOrder [optional asyncModifier, kw "function"]
  let tail : Form :=
    inOrder [field .name (word .identifier), Rule.callSignature, field .body Rule.block]
  inOrder [
    ahead (keyword ["async", "function"]),
    firstOf [
      node .generatorFunctionDeclaration (inOrder [head, "*", tail]),
      node .functionDeclaration (inOrder [head, tail]),
      typed (node .functionSignature (inOrder [
        head, field .name (word .identifier), Rule.callSignature, butNot "\x7b",
        terminator false]))]]

/-! ## Declarations of types and modules -/

def enumDeclaration : Form :=
  let key : Form := field .name Rule.propertyName
  node .enumDeclaration (inOrder [
    optional (kw "const"), kw "enum", field .name (word .identifier),
    field .body (node .enumBody (within "\x7b"
      (optional (commaListTrailing1
        (alt (node .enumAssignment (inOrder [key, initializer])) key)))
      "\x7d"))])

def interfaceDeclaration : Form :=
  node .interfaceDeclaration (inOrder [
    kw "interface", field .name typeName,
    optional (field .typeParameters Rule.typeParameters),
    optional (node .extendsTypeClause (inOrder [
      kw "extends", commaList1 (field .type (inMode .bracketed namedType))])),
    field .body (node .interfaceBody Rule.objectType)])

def typeAliasDeclaration : Form :=
  node .typeAliasDeclaration (inOrder [
    kw "type", butNot (semicolon true), field .name typeName,
    optional (field .typeParameters Rule.typeParameters),
    op "=", field .value Rule.type, terminator false])

/-- A name with the modules it lies in. -/
def nestedName : Form :=
  chain (word .identifier)
    (node .nestedIdentifier (inOrder [op ".", field .property (word .propertyIdentifier)]))

/-- The name and the body of a module; the body may be left out. -/
def moduleTail : Form :=
  inOrder [
    butNot (semicolon true),
    field .name (alt stringToken nestedName),
    optional (field .body Rule.block)]

def moduleDeclaration : Form := node .module (inOrder [kw "module", moduleTail])

def namespaceDeclaration : Form := node .internalModule (inOrder [kw "namespace", moduleTail])

def importAlias : Form :=
  node .importAlias (inOrder [
    kw "import", word .identifier, op "=", nestedName, terminator false])

def ambientDeclaration : Form :=
  node .ambientDeclaration (inOrder [
    kw "declare", butNot (semicolon true),
    firstOf [
      Rule.declaration,
      inOrder [kw "global", Rule.block],
      inOrder [kw "module", ".", word .propertyIdentifier, ":", Rule.type, terminator false]]])

def declaration : Form :=
  firstOf [
    functionDeclaration,
    typed enumDeclaration,
    lexicalDeclaration,
    variableDeclaration,
    classDeclaration,
    typed (firstOf [
      abstractClassDeclaration, interfaceDeclaration, typeAliasDeclaration, moduleDeclaration,
      namespaceDeclaration, importAlias, ambientDeclaration])]

/-! ## Statements -/

/-- The words that begin a statement and are no names there. -/
def statementKeywords : List String :=
  ["if", "for", "while", "do", "switch", "try", "with", "break", "continue", "return", "throw",
    "debugger", "var", "const"]

def typedStatementKeywords : List String := ["interface", "enum", "abstract"]

def ifStatement : Form :=
  node .ifStatement (inOrder [
    kw "if", field .condition Rule.parenthesized, field .consequence Rule.statement,
    optional (field .alternative (node .elseClause (inOrder [kw "else", Rule.statement])))])

def switchStatement : Form :=
  let body : Form :=
    field .body (many (inOrder [butNot (keyword ["case", "default"]), Rule.statement]))
  let clause : Form := alt
    (node .switchCase (inOrder [
      kw "case", field .value (inMode .bracketed Rule.expressions), ":", body]))
    (node .switchDefault (inOrder [kw "default", ":", body]))
  node .switchStatement (inOrder [
    kw "switch", field .value Rule.parenthesized,
    field .body (node .switchBody (inOrder ["\x7b", many clause, "\x7d"]))])

/-- A loop over the members of a value. -/
def forInStatement : Form :=
  let bracketed (a : Form) : Form := inMode .bracketed a
  let header : Form := firstOf [
    inOrder [
      field .kind (kw "var"), field .left Rule.bindingTarget,
      optional (inMode (fun m => m.bracketed.withoutRelation) initializer)],
    inOrder [
      butNot (inOrder [kw "let", keyword ["in", "of"]]),
      field .kind (keyword ["let", "const"]), field .left Rule.bindingTarget,
      optional (semicolon false)],
    field .left (alt (ofKind assignable Rule.reach) destructuring)]
  node .forInStatement (inOrder [
    kw "for", optional (kw "await"), "(",
    bracketed header,
    field .operator (keyword ["in", "of"]),
    field .right (bracketed Rule.expressions), ")",
    field .body Rule.statement])

def forStatement : Form :=
  let bracketed (a : Form) : Form := inMode .bracketed a
  let nothing : Form := node .emptyStatement ";"
  node .forStatement (inOrder [
    kw "for", "(",
    firstOf [
      field .initializer (alt lexicalDeclaration variableDeclaration),
      inOrder [field .initializer (bracketed Rule.expressions), ";"],
      field .initializer nothing],
    alt (inOrder [field .condition (bracketed Rule.expressions), ";"]) (field .condition nothing),
    optional (field .increment (bracketed Rule.expressions)), ")",
    field .body Rule.statement])

def tryStatement : Form :=
  node .tryStatement (inOrder [
    kw "try", field .body Rule.block,
    optional (field .handler (node .catchClause (inOrder [
      kw "catch",
      optional (inOrder [
        "(", inMode .bracketed (inOrder [field .parameter Rule.bindingTarget, optionalAscription]),
        ")"]),
      field .body Rule.block]))),
    optional (field .finalizer (node .finallyClause (inOrder [
      kw "finally", field .body Rule.block])))])

/-- A jump with an optional label. -/
def jump (kind : NodeKind) (keyword : String) : Form :=
  node kind (inOrder [
    kw keyword,
    alt (terminator false)
      (inOrder [field .label (word .statementIdentifier), terminator false])])

def labeledStatement : Form :=
  node .labeledStatement (inOrder [
    butNot (keyword (statementKeywords ++ operandKeywords)),
    alt (untyped empty) (butNot (keyword typedStatementKeywords)),
    field .label (word .statementIdentifier), ":", field .body Rule.statement])

def expressionStatement : Form :=
  node .expressionStatement (inOrder [
    butNot (keyword statementKeywords),
    alt (untyped empty) (butNot (keyword typedStatementKeywords)),
    Rule.expressions, terminator true])

def statement : Form :=
  firstOf [
    inOrder [
      ahead (keyword statementKeywords),
      firstOf [
        ifStatement,
        node .returnStatement (inOrder [
          kw "return", alt (terminator false) (inOrder [Rule.expressions, terminator true])]),
        forInStatement,
        forStatement,
        node .throwStatement (inOrder [kw "throw", Rule.expressions, terminator true]),
        tryStatement,
        switchStatement,
        node .whileStatement (inOrder [
          kw "while", field .condition Rule.parenthesized, field .body Rule.statement]),
        node .doStatement (inOrder [
          kw "do", field .body Rule.statement, kw "while",
          field .condition Rule.parenthesized, optional (terminator false)]),
        node .withStatement (inOrder [
          kw "with", field .object Rule.parenthesized, field .body Rule.statement]),
        jump .breakStatement "break",
        jump .continueStatement "continue",
        node .debuggerStatement (inOrder [kw "debugger", terminator false])]],
    Rule.exportStatement,
    Rule.importStatement,
    Rule.declaration,
    Rule.block,
    node .emptyStatement ";",
    labeledStatement,
    expressionStatement]

/-- A whole file. -/
def program : Form :=
  node .program (inOrder [
    optional (literal .hashBangLine .hashBangLine), many Rule.statement, endOfText])

end CodeSurvey.Form
