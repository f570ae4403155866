import CodeSurvey.Grammar.Form

/-!
# Markup in expressions

The forms of JSX elements. Text between tags is kept as it stands, up to the
next `<`, `&` or brace. The name of a closing tag is not compared with that of
its opening tag: an unbalanced document is a matter for a type checker.
-/

namespace CodeSurvey.Form

/-- A name of a tag: with a namespace, with members, or plain. -/
def markupName : Form :=
  let plain : Form := literal .identifier .markupName
  firstOf [
    node .jsxNamespaceName (inOrder [plain, ":", plain]),
    inOrder [
      chain (word .identifier)
        (node .memberExpression (inOrder [".", field .property (word .propertyIdentifier)])),
      butNot "-"],
    plain]

/-- An expression in braces; the braces may be empty. -/
def markupContainer : Form :=
  node .jsxExpression (within "\x7b"
    (optional (alt (node .spreadElement (inOrder ["...", Rule.expression])) Rule.expressions))
    "\x7d")

def markupAttribute : Form :=
  let name : Form := literal .propertyIdentifier .markupName
  firstOf [
    node .jsxAttribute (inOrder [
      alt (node .jsxNamespaceName
          (inOrder [literal .identifier .markupName, ":", literal .identifier .markupName]))
        name,
      optional (inOrder [
        "=",
        firstOf [
          literal .stringLiteral .markupString,
          Rule.markupContainer,
          Rule.markupElement]])]),
    Rule.markupContainer]

/-- A tag from its `<` up to its end. -/
def markupTag : Form :=
  inOrder [
    field .name Rule.markupName,
    optional (typed (field .typeArguments Rule.typeArguments)),
    many (field .attribute Rule.markupAttribute)]

def markupElement : Form :=
  let opening : Form := node .jsxOpeningElement (inOrder ["<", optional markupTag, ">"])
  let closing : Form :=
    node .jsxClosingElement (inOrder ["</", optional (field .name Rule.markupName), ">"])
  let child : Form := firstOf [
    gluedLiteral .jsxText .markupText,
    literal .htmlCharacterReference .characterReference,
    Rule.markupElement,
    Rule.markupContainer]
  inOrder [
    ahead "<",
    alt
      (node .jsxSelfClosingElement (inOrder ["<", markupTag, "/>"]))
      (node .jsxElement (inOrder [
        field .openTag opening, inMode .bracketed (many child), field .closeTag closing]))]

end CodeSurvey.Form
