/-!
# Kinds of syntax nodes

The named kinds of the concrete syntax tree of a JavaScript, JSX, TypeScript
or TSX module, and the names of the places ("fields") that a child can hold
in its parent. Keywords, operators and punctuation have no kind of their own:
they are tokens and stand for their text (`Label.token`).

The record builders test only some of these kinds. The others are there so
that a node says what it is, and so that every statement about "all trees"
ranges over the trees that the grammar can build.
-/

namespace CodeSurvey

inductive NodeKind where
  -- the whole file, and what stands outside the grammar
  | program | hashBangLine | comment | htmlComment | error
  -- names
  | identifier | propertyIdentifier | privatePropertyIdentifier | statementIdentifier
  | shorthandPropertyIdentifier | shorthandPropertyIdentifierPattern | typeIdentifier
  | nestedIdentifier | nestedTypeIdentifier | undefinedName
  -- literals
  | number | stringLiteral | stringFragment | escapeSequence | templateString
  | templateSubstitution | regex | regexPattern | regexFlags | trueLiteral | falseLiteral
  | nullLiteral
  -- statements
  | expressionStatement | variableDeclaration | lexicalDeclaration | variableDeclarator
  | statementBlock | elseClause | ifStatement | switchStatement | switchBody | switchCase
  | switchDefault | forStatement | forInStatement | whileStatement | doStatement
  | tryStatement | catchClause | finallyClause | withStatement | breakStatement
  | continueStatement | debuggerStatement | returnStatement | throwStatement
  | emptyStatement | labeledStatement
  -- imports and exports
  | importStatement | importClause | namespaceImport | namedImports | importSpecifier
  | importAttribute | importRequireClause | importAlias | importKeyword
  | exportStatement | exportClause | exportSpecifier | namespaceExport
  -- functions and classes
  | functionDeclaration | generatorFunctionDeclaration | functionExpression
  | generatorFunction | arrowFunction | functionSignature | formalParameters
  | requiredParameter | optionalParameter | classDeclaration | abstractClassDeclaration
  | classExpression | classHeritage | extendsClause | implementsClause | classBody
  | methodDefinition | fieldDefinition | publicFieldDefinition | classStaticBlock
  | methodSignature | abstractMethodSignature | accessibilityModifier | overrideModifier
  | decorator
  -- patterns
  | objectPattern | arrayPattern | pairPattern | assignmentPattern
  | objectAssignmentPattern | restPattern
  -- expressions
  | parenthesizedExpression | sequenceExpression | assignmentExpression
  | augmentedAssignmentExpression | ternaryExpression | binaryExpression
  | unaryExpression | updateExpression | awaitExpression | yieldExpression
  | newExpression | callExpression | memberExpression | subscriptExpression
  | optionalChain | metaProperty | arguments | spreadElement | object | pair | array
  | computedPropertyName | thisExpression | superExpression | asExpression
  | satisfiesExpression | nonNullExpression | instantiationExpression | typeAssertion
  -- markup in expressions
  | jsxElement | jsxOpeningElement | jsxClosingElement | jsxSelfClosingElement
  | jsxAttribute | jsxExpression | jsxText | jsxNamespaceName | htmlCharacterReference
  -- declarations of types
  | interfaceDeclaration | interfaceBody | extendsTypeClause | enumDeclaration | enumBody
  | enumAssignment | typeAliasDeclaration | ambientDeclaration | module | internalModule
  -- types
  | typeAscription | typeArguments | typeParameters | typeParameter | constraint
  | defaultType | predefinedType | objectType | arrayType | tupleType | optionalType
  | restType | parenthesizedType | genericType | unionType | intersectionType
  | functionType | constructorType | conditionalType | inferType | typeQuery
  | indexTypeQuery | lookupType | literalType | templateLiteralType | templateType
  | thisType | existentialType | flowMaybeType | readonlyType | typePredicate
  | typePredicateAscription | asserts | assertsAscription | mappedTypeClause
  | propertySignature | callSignature | constructSignature | indexSignature
  | omittingTypeAscription | addingTypeAscription | optingTypeAscription
  deriving DecidableEq, Repr

/-- The place that a child holds in its parent. -/
inductive Field where
  | alias | alternative | argument | arguments | attribute | body | closeTag | condition
  | consequence | constraint | constructor | declaration | decorator | finalizer
  | function | handler | increment | index | indexType | initializer | key | kind | label
  | left | member | module | name | object | openTag | operator | optionalChain
  | parameter | parameters | pattern | property | returnType | right | sign | source
  | type | typeArguments | typeParameters | value
  deriving DecidableEq, Repr

/-- What a node is: a kind of the grammar, a token that stands for its own
text, or a token that the parser supplied because the text lacks it. -/
inductive Label where
  | named (kind : NodeKind)
  | token (text : String)
  | missing (text : String)
  deriving DecidableEq, Repr

namespace Label

def isNamed : Label → Bool
  | .named _ => true
  | _ => false

def isError : Label → Bool
  | .named .error => true
  | _ => false

def isMissing : Label → Bool
  | .missing _ => true
  | _ => false

end Label

end CodeSurvey
