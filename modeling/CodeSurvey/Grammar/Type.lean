import CodeSurvey.Grammar.Expression

/-!
# Types

The forms of type expressions, type parameters and the members of object
types, in the two typed dialects.

Inside a type a line break ends the statement sooner than inside an
expression: a bracket at the start of the next line does not continue it.
-/

namespace CodeSurvey.Form

/-- The type goes on: no virtual semicolon stands here. -/
def typeUnbroken : Form :=
  alt (when (fun m => !m.breakable) empty) (butNot (semicolon false))

def ascription : Form := node .typeAscription (inOrder [":", Rule.type])

/-! ## Names and literals -/

/-- The words that begin a type of another form. -/
def typeKeywords : List String :=
  ["typeof", "keyof", "infer", "new", "import", "readonly", "unique", "this", "true", "false",
    "null", "undefined", "void"]

def predefinedTypes : List String :=
  ["any", "number", "boolean", "string", "symbol", "void", "unknown", "never", "object"]

def typeName : Form := word .typeIdentifier

def genericStep : Form := node .genericType (field .typeArguments Rule.typeArguments)

/-- A name, with the modules it lies in, and its type arguments. -/
def namedType : Form :=
  inOrder [
    butNot (keyword typeKeywords),
    chain
      (chain typeName (node .nestedTypeIdentifier (inOrder [".", field .name typeName])))
      genericStep]

/-- The module that an import type looks into, and the members it takes. -/
def importedType : Form :=
  inOrder [
    ahead (kw "import"),
    chain
      (chain (namedWord .importKeyword "import")
        (alt (node .callExpression (field .arguments Rule.arguments))
          (node .memberExpression (inOrder [".", field .property (word .propertyIdentifier)]))))
      genericStep]

def literalType : Form :=
  node .literalType (firstOf [
    literal .number .number,
    stringToken,
    namedWord .trueLiteral "true",
    namedWord .falseLiteral "false",
    namedWord .nullLiteral "null",
    namedWord .undefinedName "undefined",
    node .unaryExpression (inOrder [
      field .operator (alt "-" "+"), field .argument (literal .number .number)])])

def templateLiteralType : Form :=
  node .templateLiteralType (inOrder [
    "\x60",
    many (firstOf [
      gluedLiteral .stringFragment .templateChars,
      gluedLiteral .escapeSequence .escape,
      node .templateType (inOrder [gluedMark "$\x7b", inMode .bracketed Rule.type, "\x7d"])]),
    gluedMark "\x60"])

/-- A type query: the expressions it admits are names, members and calls. -/
def typeQuery : Form :=
  node .typeQuery (inOrder [
    kw "typeof",
    chain
      (firstOf [
        namedWord .thisExpression "this", namedWord .importKeyword "import", word .identifier])
      (firstOf [
        node .memberExpression (inOrder [
          alt (op ".") (op "?."),
          field .property (alt privateName (word .propertyIdentifier))]),
        inOrder [typeUnbroken, node .callExpression (field .arguments Rule.arguments)],
        node .instantiationExpression (field .typeArguments Rule.typeArguments)])])

/-! ## Composite types -/

def tupleMember : Form :=
  let rest : Form := node .restPattern (inOrder ["...", word .identifier])
  firstOf [
    node .requiredParameter (inOrder [
      field .name (alt rest (word .identifier)), field .type Rule.ascription]),
    node .optionalParameter (inOrder [
      field .name (word .identifier), "?", field .type Rule.ascription]),
    node .optionalType (inOrder [Rule.type, "?"]),
    node .restType (inOrder ["...", Rule.type]),
    Rule.type]

def typeAtom : Form :=
  firstOf [
    inOrder [
      keyword ["unique"] |> ahead,
      node .predefinedType (inOrder [kw "unique", kw "symbol"])],
    inOrder [
      ahead (keyword predefinedTypes),
      node .predefinedType (keyword predefinedTypes),
      butNot "."],
    namedType,
    node .parenthesizedType (within "(" Rule.type ")"),
    node .objectType Rule.objectType,
    node .tupleType (within "[" (optional (commaListTrailing1 tupleMember)) "]"),
    literalType,
    templateLiteralType,
    typeQuery,
    node .indexTypeQuery (inOrder [kw "keyof", Rule.typeOperand]),
    namedWord .thisType "this",
    importedType,
    node .flowMaybeType (inOrder ["?", Rule.typeOperand]),
    node .existentialType "*",
    kw "const"]

/-- A type with the brackets behind it. -/
def bracketedType : Form :=
  chain Rule.typeAtom (inOrder [
    typeUnbroken,
    alt (node .arrayType (inOrder ["[", "]"]))
      (node .lookupType (within "[" Rule.type "]"))])

def typePredicate : Form :=
  node .typePredicate (inOrder [
    field .name (alt (namedWord .thisExpression "this") (word .identifier)),
    kw "is", field .type Rule.type])

def asserts : Form :=
  node .asserts (inOrder [
    kw "asserts",
    firstOf [typePredicate, namedWord .thisExpression "this", word .identifier]])

def functionType : Form :=
  inOrder [
    ahead (alt "(" "<"),
    node .functionType (inOrder [
      optional (field .typeParameters Rule.typeParameters),
      field .parameters Rule.formalParameters,
      op "=>",
      field .returnType (firstOf [asserts, typePredicate, Rule.type])])]

def constructorType : Form :=
  inOrder [
    ahead (keyword ["new", "abstract"]),
    node .constructorType (inOrder [
      optional (kw "abstract"), kw "new",
      optional (field .typeParameters Rule.typeParameters),
      field .parameters Rule.formalParameters,
      op "=>", field .type Rule.type])]

def typeOperand : Form :=
  firstOf [
    functionType,
    constructorType,
    node .readonlyType (inOrder [kw "readonly", Rule.type]),
    node .inferType (inOrder [
      kw "infer", typeName,
      optional (inOrder [kw "extends", Rule.unionType, butNot "?"])]),
    bracketedType]

def intersectionType : Form :=
  let more : Form := node .intersectionType (inOrder [op "&", Rule.typeOperand])
  chain (alt Rule.typeOperand more) more

def unionType : Form :=
  let more : Form := node .unionType (inOrder [op "|", Rule.intersectionType])
  chain (alt Rule.intersectionType more) more

def typeExpression : Form :=
  chain Rule.unionType
    (node .conditionalType (inOrder [
      typeUnbroken,
      kw "extends", field .right Rule.unionType,
      "?", field .consequence (inMode .bracketed Rule.type),
      ":", field .alternative Rule.type]))

def typeArguments : Form :=
  node .typeArguments (within "<" (commaListTrailing1 Rule.type) ">")

def typeParameters : Form :=
  node .typeParameters (within "<"
    (commaListTrailing1 (node .typeParameter (inOrder [
      optional (inOrder [kw "const", ahead (word .identifier)]),
      field .name typeName,
      optional (field .constraint
        (node .constraint (inOrder [alt (kw "extends") ":", Rule.type]))),
      optional (field .value (node .defaultType (inOrder [op "=", Rule.type])))])))
    ">")

/-! ## Signatures -/

def callSignature : Form :=
  inOrder [
    Rule.plainCallSignature,
    optional (typed (field .returnType (firstOf [
      node .assertsAscription (inOrder [":", asserts]),
      node .typePredicateAscription (inOrder [":", typePredicate]),
      Rule.ascription])))]

/-- The words in front of the name of a member that is declared by its type. -/
def signatureModifiers : Form :=
  inOrder [
    optional (node .accessibilityModifier (modifier ["public", "private", "protected"])),
    optional (modifier ["static"]),
    optional (node .overrideModifier (modifier ["override"])),
    optional (modifier ["readonly"])]

/-- The words that say what kind of function a member is. -/
def functionModifiers : Form :=
  inOrder [
    optional (modifier ["async"]),
    optional (alt (modifier ["get", "set"]) "*")]

def methodSignature : Form :=
  node .methodSignature (inOrder [
    signatureModifiers, functionModifiers,
    field .name Rule.propertyName, optional "?", Rule.callSignature])

def propertySignature : Form :=
  node .propertySignature (inOrder [
    signatureModifiers,
    field .name Rule.propertyName, optional "?", optional (field .type Rule.ascription)])

def indexSignature : Form :=
  node .indexSignature (inOrder [
    optional (inOrder [optional (field .sign (alt "-" "+")), kw "readonly", ahead "["]),
    "[",
    alt
      (inOrder [field .name (word .identifier), ":", field .indexType Rule.type])
      (node .mappedTypeClause (inOrder [
        field .name typeName, kw "in", field .type Rule.type,
        optional (inOrder [kw "as", field .alias Rule.type])])),
    "]",
    field .type (firstOf [
      Rule.ascription,
      node .omittingTypeAscription (inOrder ["-?:", Rule.type]),
      node .addingTypeAscription (inOrder ["+?:", Rule.type]),
      node .optingTypeAscription (inOrder ["?:", Rule.type])])])

def constructSignature : Form :=
  node .constructSignature (inOrder [
    optional (kw "abstract"), kw "new",
    optional (field .typeParameters Rule.typeParameters),
    field .parameters Rule.formalParameters,
    optional (field .type Rule.ascription)])

/-- A member of an object type or of an interface. -/
def signature : Form :=
  firstOf [
    node .callSignature Rule.callSignature,
    constructSignature,
    indexSignature,
    methodSignature,
    Rule.exportStatement,
    propertySignature]

/-- The members of an object type, from brace to brace. The node around them
is the context's: a type, or the body of an interface. -/
def objectType : Form :=
  let separator : Form := alt "," (terminator false)
  let members : Form :=
    inOrder [
      optional (alt "," ";"),
      Rule.signature, many (inOrder [separator, Rule.signature]), optional separator]
  let braced (opening closing : String) : Form :=
    inOrder [opening, inMode .unbracketed (optional members), closing]
  alt (braced "\x7b|" "|\x7d") (braced "\x7b" "\x7d")

end CodeSurvey.Form
