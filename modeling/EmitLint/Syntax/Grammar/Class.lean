/-
# Classes
-/
import EmitLint.Syntax.Grammar.Literal

namespace EmitLint.Syntax.Grammar

open EmitLint.Syntax.Parser

/-- What a class extends, of which only the first counts. -/
def superclasses (g : Grammar) : Parser (List Expr) :=
  separated do
    let e ← g.rule .leftHandSide
    typeArguments g
    return match e with
      | .instantiation _ inner => inner
      | e => e

/-- What stands between the name and the body of a class. -/
def heritage (g : Grammar) : Parser (Option Expr) := do
  let step := fun (found : Option Expr) => do
    if ← accept "extends" then
      let es ← superclasses g
      return some (found.or es.head?)
    else if ← accept "implements" then
      let _ ← separated (typeReference g)
      return some found
    else return none
  iterate step none

/-- Inside of the value of a field. -/
def inField {α : Type} (p : Parser α) : Parser α :=
  within (fun s => { s with inAwait := false, inYield := false }) p

/-- The value of a field. -/
def fieldValue (g : Grammar) : Parser (Option Expr) := do
  if ← accept "=" then
    return some (← inField g.value)
  else return none

/-- A field behind its key. -/
def field (g : Grammar) (ds : List Expr) (isAccessor : Bool) (k : Key) : Parser Member := do
  let _ ← accept "!"
  annotation g
  let value ← fieldValue g
  semicolon
  return if isAccessor then .accessor ds k value else .field ds k value

/-- A method behind its key. -/
def memberMethod (g : Grammar) (ds : List Expr) (isAsync isGenerator : Bool) (k : Key) :
    Parser Member := do
  return .method ds k (← functionTail g true isAsync isGenerator)

/-- A token that the key of a member can begin with. -/
def beginsMemberKey (t : Token) : Bool :=
  beginsKey t || t.kind == .privateName || t.spells "["

/-- A member of a class. -/
def member (g : Grammar) : Parser Member := do
  let ds ← decorators g
  let ms ← modifiers true
  if (← sees "static") && (← peek).spells "\x7b" then
    advance
    return .staticBlock (← inBody true false (g.rule .block))
  if ← acceptModifier "get" <||> acceptModifier "set" then
    let k ← key g true
    return ← memberMethod g ds false false k
  if ← seesIndexSignature then
    indexSignature g
    return .signature
  let isGenerator ← accept "*"
  check (beginsMemberKey (← token))
  let k ← key g true
  let _ ← accept "?"
  if isGenerator || (← seesOneOf ["(", "<"]) then
    memberMethod g ds (ms.contains "async") isGenerator k
  else field g ds (ms.contains "accessor") k

/-- The members of a class, with their braces. -/
def members (g : Grammar) : Parser (List Member) := do
  expect "\x7b"
  let semicolons := many (accept ";") (pure ())
  let _ ← semicolons
  let ms ← many insideBraces do
    let m ← member g
    let _ ← semicolons
    return m
  expect "\x7d"
  return ms

/-- A class behind the word `class`. -/
def classTail (g : Grammar) : Parser Class := do
  let t ← token
  if t.isIdentifier && !t.spells "implements" then advance
  typeParameters g
  let superclass ← heritage g
  return .mk [] superclass (← members g)

/-- Put decorators in front of a class. -/
def decorate (ds : List Expr) : Class → Class
  | .mk _ superclass ms => .mk ds superclass ms

/-- A class as an expression, with the decorators in front of it. -/
def classExpression (g : Grammar) : Parser Expr := do
  let start ← here
  let ds ← decorators g
  expect "class"
  let c ← g.rule .classTail
  return .classExpr (← spanFrom start) (decorate ds c)

end EmitLint.Syntax.Grammar
