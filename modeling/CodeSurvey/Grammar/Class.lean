import CodeSurvey.Grammar.Type

/-!
# Classes

The forms of class declarations and expressions, their heritage and their
members. Decorators in front of a class belong to it; decorators in front of
a method of a typed class stand beside the method in the body.
-/

namespace CodeSurvey.Form

def decorators : Form :=
  let call : Form := node .callExpression (inOrder [
    optional (typed (field .typeArguments Rule.typeArguments)), field .arguments Rule.arguments])
  let name : Form :=
    chain
      (chain (word .identifier)
        (node .memberExpression (inOrder [op ".", field .property (word .propertyIdentifier)])))
      call
  many (field .decorator (node .decorator (inOrder [
    "@", alt name (typed (node .parenthesizedExpression (within "(" name ")")))])))

/-! ## Heritage -/

/-- One superclass. Its type arguments are the clause's, not the expression's. -/
def superclass : Form :=
  let value (a : Form) : Form := field .value (inMode .bracketed a)
  alt
    (inOrder [value Rule.plainReach, field .typeArguments Rule.typeArguments,
      ahead (firstOf ["\x7b", ",", kw "implements"])])
    (value Rule.expression)

def heritage : Form :=
  let implements : Form := node .implementsClause (inOrder [
    kw "implements", commaList1 (inMode .bracketed Rule.type)])
  node .classHeritage (alt
    (untyped (inOrder [kw "extends", inMode .bracketed Rule.expression]))
    (typed (alt
      (inOrder [
        node .extendsClause (inOrder [kw "extends", commaList1 superclass]), optional implements])
      implements)))

/-! ## Members -/

def methodDefinition : Form :=
  node .methodDefinition (alt
    (untyped (inOrder [
      Rule.decorators,
      optional (modifier ["static"]),
      functionModifiers,
      field .name Rule.propertyName,
      Rule.callSignature,
      field .body Rule.block]))
    (typed (inOrder [
      signatureModifiers, functionModifiers,
      field .name Rule.propertyName, optional "?",
      Rule.callSignature,
      field .body Rule.block])))

def staticBlock : Form :=
  node .classStaticBlock (inOrder [
    kw "static", optional (semicolon false), field .body Rule.block])

/-- A field and its end. Whether it ends in an operand decides which line breaks
end it. -/
def fieldWithEnd (wrap : Form → Form) (field : Form) (close : Bool → Form) : Form :=
  alt
    (inOrder [wrap (inOrder [field, initializer]), close true])
    (inOrder [wrap field, close false])

def untypedMembers : Form :=
  firstOf [
    field .member staticBlock,
    inOrder [field .member Rule.methodDefinition, optional ";"],
    fieldWithEnd (fun a => field .member (node .fieldDefinition a))
      (inOrder [
        Rule.decorators,
        optional (modifier ["static"]),
        field .property Rule.propertyName])
      terminator,
    ";"]

/-- A field of a typed class, up to its value. -/
def publicField : Form :=
  let access : Form := node .accessibilityModifier (modifier ["public", "private", "protected"])
  let declare : Form := modifier ["declare"]
  inOrder [
    Rule.decorators,
    optional (alt (inOrder [declare, optional access]) (inOrder [access, optional declare])),
    firstOf [
      inOrder [modifier ["abstract"], optional (modifier ["readonly"])],
      inOrder [modifier ["readonly"], modifier ["abstract"]],
      modifier ["accessor"],
      inOrder [
        optional (modifier ["static"]),
        optional (node .overrideModifier (modifier ["override"])),
        optional (modifier ["readonly"])]],
    field .name Rule.propertyName,
    optional (alt "?" "!"),
    optionalAscription]

def abstractMethodSignature : Form :=
  node .abstractMethodSignature (inOrder [
    optional (node .accessibilityModifier (modifier ["public", "private", "protected"])),
    modifier ["abstract"],
    optional (node .overrideModifier (modifier ["override"])),
    optional (alt (modifier ["get", "set"]) "*"),
    field .name Rule.propertyName, optional "?", Rule.callSignature])

def typedMembers : Form :=
  let close : Form := firstOf [terminator false, ","]
  firstOf [
    staticBlock,
    inOrder [Rule.decorators, Rule.methodDefinition, optional (terminator false)],
    inOrder [abstractMethodSignature, close],
    inOrder [indexSignature, close],
    inOrder [methodSignature, butNot "\x7b", close],
    fieldWithEnd (node .publicFieldDefinition) publicField fun afterOperand =>
      alt (terminator afterOperand) ",",
    ";"]

def classBody : Form :=
  node .classBody (inOrder [
    "\x7b",
    inMode .unbracketed (many (alt (untyped untypedMembers) (typed typedMembers))),
    "\x7d"])

/-! ## Classes -/

def className : Form :=
  inOrder [
    butNot (keyword ["extends"]),
    alt (untyped (word .identifier))
      (typed (inOrder [butNot (keyword ["implements"]), typeName]))]

def classTail : Form :=
  inOrder [
    optional (typed (field .typeParameters Rule.typeParameters)),
    optional Rule.heritage,
    field .body Rule.classBody]

def classExpression : Form :=
  inOrder [
    ahead (alt (kw "class") "@"),
    node .classExpression (inOrder [
      Rule.decorators, kw "class", optional (field .name className), classTail])]

def classDeclaration : Form :=
  node .classDeclaration (inOrder [
    Rule.decorators, kw "class", field .name className, classTail, optional (semicolon false)])

def abstractClassDeclaration : Form :=
  node .abstractClassDeclaration (inOrder [
    Rule.decorators, kw "abstract", kw "class", field .name className, classTail])

end CodeSurvey.Form
