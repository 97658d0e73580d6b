/-
# Functions

Functions, methods and arrow functions.  An arrow function with parentheses
looks like an expression in parentheses until its arrow comes.  Where the
first tokens do not tell them apart (`arrowOutlook`), the text is tried as
an arrow function and taken for an expression if that fails.
-/
import EmitLint.Syntax.Grammar.Binding

namespace EmitLint.Syntax.Grammar

open EmitLint.Syntax.Parser

/-- Inside of a function.  An `in` is left to be what it is around. -/
def inBody {α : Type} (isAsync isGenerator : Bool) (p : Parser α) : Parser α :=
  within (fun s => { s with
    inAwait := isAsync
    inYield := isGenerator
    topLevel := false
    plainTypes := false }) p

/-- Parameters, type and body of a function.  Where there are types, the body
can be missing if the function is only declared. -/
def functionTail (g : Grammar) (isDeclared isAsync isGenerator : Bool) : Parser Function :=
  withIn (inBody isAsync isGenerator do
    typeParameters g
    let ps ← g.rule .parameters
    returnAnnotation g
    if ← sees "\x7b" then return .mk ps (← g.rule .body)
    else
      check (isDeclared && (← isTyped))
      semicolon
      return .mk ps [])

/-- The word `async` with `function` behind it stands at the front. -/
def seesAsyncFunction : Parser Bool := do
  if !(← sees "async") then return false
  let after ← peek
  return after.spells "function" && !after.newline

/-- A function from the word `function` on. -/
def namedFunction (g : Grammar) (isDeclared isAsync : Bool) : Parser Function := do
  expect "function"
  let isGenerator ← accept "*"
  if (← token).isIdentifier then advance
  functionTail g isDeclared isAsync isGenerator

/-- A method behind its key, as the function that it is. -/
def method (g : Grammar) (isAsync isGenerator : Bool) : Parser Expr := do
  let start ← here
  let fn ← functionTail g false isAsync isGenerator
  return .function (← spanFrom start) fn

/-! ## Arrow functions -/

/-- What the first tokens tell about an arrow function. -/
inductive Outlook
  | yes
  | no
  | maybe
deriving DecidableEq

/-- The outlook behind an opening parenthesis. -/
def parenthesisOutlook : Parser Outlook := do
  let second ← token
  let third ← peek
  if second.spells ")" then
    if third.isOneOf ["=>", "\x7b"] then return .yes
    else if third.spells ":" then return if ← isTyped then .maybe else .no
    else return .no
  else if second.isOneOf ["[", "\x7b"] then return .maybe
  else if second.spells "..." then
    if third.isPlainName then return .yes
    else if third.isLiteral then return .no
    else return .maybe
  else if second.isOneOf modifierWords && !second.spells "async" && third.isIdentifier then
    return if third.spells "as" then .no else .yes
  else if !second.isIdentifier && !second.spells "this" then return .no
  else if third.spells ":" then return .yes
  else if third.spells "?" then
    advance
    return if (← peek).isOneOf [":", ",", "=", ")"] then .yes else .no
  else if third.isOneOf [",", "=", ")"] then return .maybe
  else return .no

/-- The outlook behind an opening angle bracket. -/
def angleOutlook : Parser Outlook := do
  let second ← token
  if !(second.isIdentifier || second.spells "const") then return .no
  if !(← hasJsx) then return .maybe
  advance
  if second.spells "const" then advance
  let third ← token
  if third.spells "extends" then
    let bound ← peek
    if bound.isOneOf ["=", ">", "/"] then return .no
    else return if bound.isIdentifier then .maybe else .yes
  else return if third.isOneOf [",", "="] then .yes else .no

/-- Whether an arrow function with parentheses starts at the front. -/
def arrowOutlook : Parser Outlook := do
  let found ← ahead do
    if ← accept "async" then
      if (← onNewLine) || !(← seesOneOf ["(", "<"]) then giveUp
    if ← accept "(" then parenthesisOutlook
    else
      expect "<"
      angleOutlook
  return found.getD .no

/-- The arrow and the body of an arrow function.  A body that is an expression
becomes a statement. -/
def arrowBody (g : Grammar) (isAsync arrowType : Bool) : Parser (List Stmt) := do
  expect "=>"
  inBody isAsync false do
    if ← sees "\x7b" then g.rule .body
    else
      let start ← here
      let e ← g.rule (.assignment arrowType)
      return [.expression (← spanFrom start) e]

/-- An arrow function with parentheses; `none` if it names a type that has to
belong to the conditional around it. -/
def parenthesizedArrow (g : Grammar) (arrowType : Bool) : Parser (Option Expr) := do
  let start ← here
  let isAsync ← accept "async"
  let (ps, named) ← within (fun s => { s with inAwait := s.inAwait || isAsync }) do
    typeParameters g
    let ps ← g.rule .parameters
    let named ← sees ":"
    returnAnnotation g
    return (ps, named)
  let body ← arrowBody g isAsync arrowType
  if named && !arrowType && !(← sees ":") then return none
  return some (.arrow (← spanFrom start) (.mk ps body))

/-- An arrow function with parentheses, if one can be read at the front. -/
def arrow? (g : Grammar) (arrowType : Bool) : Parser (Option Expr) := do
  match ← arrowOutlook with
  | .no => return none
  | .yes => parenthesizedArrow g true
  | .maybe =>
      let start ← here
      if (← get).noArrows.contains start then return none
      let found ← attempt do
        match ← parenthesizedArrow g arrowType with
        | some e => return e
        | none => giveUp
      if found.isNone then
        modify fun s => { s with noArrows := start :: s.noArrows }
      return found

/-- An arrow function with one parameter behind that parameter. -/
def arrowAfter (g : Grammar) (isAsync arrowType : Bool) (start : Nat) (parameter : Token) :
    Parser Expr := do
  let body ← arrowBody g isAsync arrowType
  return .arrow (← spanFrom start) (.mk [.name parameter.span parameter.text] body)

/-- An async arrow function with one parameter and no parentheses starts at
the front. -/
def seesAsyncArrow : Parser Bool := wouldHold do
  expect "async"
  let t ← identifier
  return !t.newline && (← sees "=>")

end EmitLint.Syntax.Grammar
