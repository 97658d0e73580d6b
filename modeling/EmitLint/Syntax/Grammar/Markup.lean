/-
# JSX

Elements and fragments.  Between tags stands text up to a `<` or an opening
brace; so behind a tag reading goes on from a place, not from a token.  Of
all this the tree keeps the expressions that are embedded.
-/
import EmitLint.Syntax.Grammar.Types

namespace EmitLint.Syntax.Grammar

open EmitLint.Syntax.Parser

/-- Take the sign at a place for the token at the front. -/
def takeSign (sign : String) (p : Place) : Parser Unit :=
  modify fun s =>
    let scan := Token.upTo .punctuator sign p p.next false false
    { s with token := scan.token, next := scan.next }

/-- A name in a tag, in which dashes can stand. -/
def tagWord : Parser Unit := do
  check (← seesKind .word)
  let p := (← get).next
  let more := p.rest.takeWhile fun c => isIdentifierPart c || c = '-'
  resumeAt (Token.behind p more (p.rest.drop more.length))

/-- The name of an element.  The names of members have no dashes. -/
def tagName : Parser Unit := do
  tagWord
  if ← accept ":" then tagWord
  else
    let _ ← many (accept ".") do
      let _ ← expectKind .word

/-- An expression in braces behind three dots, up to the closing brace. -/
def embeddedSpread (g : Grammar) : Parser (List Expr) := do
  expect "..."
  let e ← g.rule .expression
  check (← sees "\x7d")
  return [e]

/-- An expression in braces or nothing, up to the closing brace. -/
def embedded (g : Grammar) : Parser (List Expr) := do
  if ← sees "\x7d" then return []
  let e ← g.rule .expression
  check (← sees "\x7d")
  return [e]

/-- The value of an attribute, from the sign in front of it on. -/
def attributeValue (g : Grammar) : Parser (List Expr) := do
  let p := (Gap.at false false (← token).place.next).stop
  match p.rest with
  | [] => giveUp
  | c :: cs =>
      if c = '"' || c = '\'' then
        let text := cs.takeWhile (· ≠ c)
        check (text.length < cs.length)
        resumeAt (Token.behind p (c :: text ++ [c]) (cs.drop (text.length + 1)))
        return []
      else
        advance
        if ← accept "\x7b" then
          let es ← embedded g
          advance
          return es
        else
          expect "<"
          let es ← g.rule .markup
          advance
          return es

/-- An attribute. -/
def attributeExprs (g : Grammar) : Parser (List Expr) := do
  if ← accept "\x7b" then
    let es ← embeddedSpread g
    advance
    return es
  else
    tagWord
    if ← accept ":" then tagWord
    if ← sees "=" then attributeValue g else return []

/-- A character that a text between tags cannot hold. -/
def closesNothing (c : Char) : Bool := c = '>' || c = '\x7d'

/-- The place of the next sign behind a text between tags. -/
def skipText (p : Place) : Parser Place := do
  let text := p.rest.takeWhile fun c => c ≠ '<' && c ≠ '\x7b'
  check (!text.any closesNothing)
  return Token.behind p text (p.rest.drop text.length)

/-- What stands between two tags, from a place on up to the slash of the
closing tag. -/
def children (g : Grammar) (p : Place) : Parser (List Expr) := do
  let step := fun ((p?, found) : Option Place × List Expr) => do
    let some p := p? | return none
    let p ← skipText p
    match p.rest.head? with
    | some '<' =>
        takeSign "<" p
        advance
        if ← sees "/" then return some (none, found)
        else
          let es ← g.rule .markup
          return some (some (← token).place.next, found ++ es)
    | some _ =>
        takeSign "\x7b" p
        advance
        let es ← if ← sees "..." then embeddedSpread g else embedded g
        return some (some (← token).place.next, found ++ es)
    | none => giveUp
  return (← iterate step (some p, [])).2

/-- A closing tag from its slash on, up to its last bracket.  Whether its name
is that of the opening tag makes no difference. -/
def closingTag : Parser Unit := do
  expect "/"
  if !(← sees ">") then tagName
  check (← sees ">")

/-- An element or a fragment from behind its first bracket up to its last. -/
def markup (g : Grammar) : Parser (List Expr) := do
  if ← sees ">" then
    let es ← children g (← token).place.next
    closingTag
    return es
  else
    tagName
    if ← isTyped then typeArguments g
    let attributes ← many (return !(← seesOneOf [">", "/"])) (attributeExprs g)
    if ← accept "/" then
      check (← sees ">")
      return attributes.flatten
    else
      check (← sees ">")
      let es ← children g (← token).place.next
      closingTag
      return attributes.flatten ++ es

/-- An element or a fragment. -/
def markupExpression (g : Grammar) : Parser Expr := do
  let start ← here
  expect "<"
  let es ← g.rule .markup
  advance
  return .jsx (← spanFrom start) es

end EmitLint.Syntax.Grammar
