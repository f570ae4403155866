import CodeSurvey.Grammar.Markup
import CodeSurvey.Grammar.Statement

/-!
# Imports and exports

The forms of import and export statements. The names on the public side of a
specifier may be strings.
-/

namespace CodeSurvey.Form

/-- A name that other modules see. -/
def publicName : Form := alt (word .identifier) stringToken

def fromClause : Form := inOrder [kw "from", field .source stringToken]

/-- A list in braces of which each entry must reach up to its comma. -/
def specifiers (entry : Form) : Form :=
  inOrder ["\x7b", optional (commaListTrailing1 entry), "\x7d"]

def specifierEnd : Form := ahead (alt "," "\x7d")

/-- A word that marks what is imported or exported as a type. -/
def typeMarker : Form := typed (keyword ["type", "typeof"])

def importSpecifier : Form :=
  let plain : Form := firstOf [
    inOrder [
      field .name publicName, kw "as", field .alias (word .identifier), specifierEnd],
    inOrder [field .name (word .identifier), specifierEnd]]
  node .importSpecifier (alt (inOrder [typeMarker, plain]) plain)

def importClause : Form :=
  let namespaceImport : Form :=
    node .namespaceImport (inOrder ["*", kw "as", word .identifier])
  let namedImports : Form := node .namedImports (specifiers importSpecifier)
  node .importClause (firstOf [
    namespaceImport,
    namedImports,
    inOrder [word .identifier, optional (inOrder [",", alt namespaceImport namedImports])]])

def importRequireClause : Form :=
  node .importRequireClause (inOrder [
    word .identifier, op "=", kw "require", "(", field .source stringToken, ")"])

def importStatement : Form :=
  let body : Form := firstOf [
    inOrder [importClause, fromClause],
    typed importRequireClause,
    field .source stringToken]
  inOrder [
    ahead (kw "import"),
    node .importStatement (inOrder [
      kw "import", butNot (alt "(" "."),
      alt (inOrder [typeMarker, body]) body,
      optional (node .importAttribute (inOrder [kw "with", Rule.object])),
      terminator false])]

def exportClause : Form :=
  let plain : Form := alt
    (inOrder [
      field .name publicName, kw "as", field .alias publicName, specifierEnd])
    (inOrder [field .name publicName, specifierEnd])
  node .exportClause
    (specifiers (node .exportSpecifier (alt (inOrder [typeMarker, plain]) plain)))

def exportStatement : Form :=
  let close : Form := terminator false
  let listed : Form := firstOf [
    inOrder ["*", fromClause],
    inOrder [node .namespaceExport (inOrder ["*", kw "as", publicName]), fromClause],
    inOrder [exportClause, optional fromClause],
    inOrder [typed (kw "type"), exportClause, optional fromClause]]
  let declared : Form := firstOf [
    inOrder [
      kw "default",
      alt (field .declaration Rule.declaration)
        (inOrder [field .value Rule.expression, terminator true])],
    field .declaration Rule.declaration]
  let typedOnly : Form := typed (firstOf [
    inOrder [op "=", Rule.expression, terminator true],
    inOrder [kw "as", kw "namespace", word .identifier, close],
    importAlias])
  inOrder [
    ahead (alt (kw "export") "@"),
    node .exportStatement (inOrder [
      Rule.decorators, kw "export", butNot (semicolon true),
      firstOf [inOrder [listed, close], declared, typedOnly]])]

end CodeSurvey.Form

namespace CodeSurvey

/-- The form of each rule. -/
def Rule.form : Rule → Form
  | .program => Form.program
  | .statement => Form.statement
  | .declaration => Form.declaration
  | .block => Form.blockOf false
  | .bodyBlock => Form.blockOf true
  | .declarators => Form.declarators
  | .importStatement => Form.importStatement
  | .exportStatement => Form.exportStatement
  | .decorators => Form.decorators
  | .heritage => Form.heritage
  | .classBody => Form.classBody
  | .methodDefinition => Form.methodDefinition
  | .expressions => Form.expressions
  | .expression => Form.expression
  | .operand => Form.operand
  | .assignment => Form.assignment
  | .arrowFunction => Form.arrowFunction
  | .reach => Form.reach
  | .plainReach => Form.plainReach
  | .constructorReach => Form.constructorReach
  | .primary => Form.primary
  | .object => Form.object
  | .array => Form.array
  | .arguments => Form.argumentList
  | .templateString => Form.templateString
  | .functionExpression => Form.functionExpression
  | .classExpression => Form.classExpression
  | .parenthesized => Form.parenthesized
  | .propertyName => Form.propertyName
  | .pattern => Form.pattern
  | .bindingTarget => Form.bindingTarget
  | .objectPattern => Form.objectPattern
  | .arrayPattern => Form.arrayPattern
  | .formalParameters => Form.formalParameters
  | .formalParameter => Form.formalParameter
  | .callSignature => Form.callSignature
  | .plainCallSignature => Form.plainCallSignature
  | .markupElement => Form.markupElement
  | .markupAttribute => Form.markupAttribute
  | .markupName => Form.markupName
  | .markupContainer => Form.markupContainer
  | .type => Form.typeExpression
  | .unionType => Form.unionType
  | .intersectionType => Form.intersectionType
  | .typeOperand => Form.typeOperand
  | .typeAtom => Form.typeAtom
  | .typeArguments => Form.typeArguments
  | .typeParameters => Form.typeParameters
  | .ascription => Form.ascription
  | .objectType => Form.objectType
  | .signature => Form.signature

end CodeSurvey
