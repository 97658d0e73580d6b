/-
# Expressions

Operators between operands, and what binds less tightly than they do:
conditionals, assignments, arrow functions and commas.
-/
import EmitLint.Syntax.Grammar.Operand

namespace EmitLint.Syntax.Grammar

open EmitLint.Syntax.Parser

/-! ## Binary operators -/

/-- The operator takes its operands from the right. -/
def isRightToLeft (operator : String) : Bool := operator == "**"

/-- The operator at the front, if it binds more tightly than the level. -/
def operatorAbove? (level : Nat) : Parser (Option (String × Nat)) := do
  widenAngle
  match ← operatorLevel? with
  | none => return none
  | some l =>
      let t ← token
      if level < l || (level == l && isRightToLeft t.text) then return some (t.text, l)
      else return none

/-- One step from an operand to the operation it is the first operand of. -/
def operationStep (g : Grammar) (start level : Nat) (left : Expr) : Parser (Option Expr) := do
  match ← operatorAbove? level with
  | none => return none
  | some (operator, l) =>
      if operator == "as" || operator == "satisfies" then
        if ← onNewLine then return none
        advance
        freeType g
        let wrapper := if operator == "as" then Wrapper.asType else .satisfies
        return some (.wrapped (← spanFrom start) wrapper left)
      else
        advance
        let right ← g.rule (.operand l)
        return some (.binary (← spanFrom start) operator left right)

/-- The test whether an object has a private member.  The object is no such
test itself. -/
def privateTest (g : Grammar) : Parser Expr := do
  let t ← expectKind .privateName
  expect "in"
  check (!(← seesKind .privateName))
  let right ← g.rule (.operand 8)
  return .privateIn (← spanFrom t.start) t.text right

/-- An operand with the operators around it that bind more tightly than the
level. -/
def operand (g : Grammar) (level : Nat) : Parser Expr := do
  let start ← here
  let first ← if (← seesKind .privateName) && (← read).allowIn then privateTest g else unary g
  iterate (operationStep g start level) first

/-! ## Assignments -/

/-- Signs of assignments. -/
def assignmentSigns : List String :=
  ["=", "+=", "-=", "*=", "/=", "%=", "**=", "<<=", ">>=", ">>>=", "&=", "|=", "^=", "&&=", "||=",
    "??="]

/-- The target of an assignment with a sign. -/
def assigned (sign : String) (e : Expr) : Parser Pattern := do
  if sign == "=" then targetOf e
  else
    match e.reference? with
    | some p => return p
    | none => giveUp

/-- A conditional behind its test, or the test alone. -/
def conditional (g : Grammar) (arrowType : Bool) (start : Nat) (test : Expr) : Parser Expr := do
  if ← accept "?" then
    let yes ← withIn (g.rule (.assignment false))
    expect ":"
    let no ← g.rule (.assignment arrowType)
    return .conditional (← spanFrom start) test yes no
  else return test

/-- An expression that is given out of a generator. -/
def yieldExpression (g : Grammar) : Parser Expr := do
  let start ← here
  expect "yield"
  let t ← token
  let ends := t.kind == .endOfText || t.isOneOf [";", "\x7d", "]", ")", ":", ",", "in"]
  if t.newline || ends then return .yield (← spanFrom start) none
  else
    let _ ← accept "*"
    let e ← within (fun s => { s with inYield := true }) g.item
    return .yield (← spanFrom start) (some e)

/-- The word `yield` at the front is an operator. -/
def yieldsOperand : Parser Bool := do
  if (← read).inYield then return true
  else seesOperandBehind ["in", "instanceof"]

/-- What begins with an operand. -/
def afterOperand (g : Grammar) (arrowType : Bool) : Parser Expr := do
  let t ← token
  let start := t.start
  let e ← operand g 0
  let sign ← token
  match e with
  | .name .. =>
      if sign.spells "=>" && e.span == t.span then return ← arrowAfter g false arrowType start t
  | _ => pure ()
  if sign.isOneOf assignmentSigns then
    let target ← assigned sign.text e
    advance
    let value ← g.rule (.assignment arrowType)
    return .assign (← spanFrom start) sign.text target value
  else conditional g arrowType start e

/-- An expression without commas. -/
def assignment (g : Grammar) (arrowType : Bool) : Parser Expr := do
  if ← sees "yield" <&&> yieldsOperand then yieldExpression g
  else
    match ← arrow? g arrowType with
    | some e => return e
    | none =>
        if ← seesAsyncArrow then
          let start ← here
          advance
          let parameter ← identifier
          arrowAfter g true arrowType start parameter
        else afterOperand g arrowType

/-- An expression in which commas can stand. -/
def expression (g : Grammar) : Parser Expr :=
  within (fun s => { s with inDecorator := false }) do
    let start ← here
    let first ← assignment g true
    if ← accept "," then
      let rest ← separated g.item
      return .sequence (← spanFrom start) (first :: rest)
    else return first

end EmitLint.Syntax.Grammar
