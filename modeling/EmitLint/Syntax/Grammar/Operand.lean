/-
# Operands

What operators stand between: names, literals, calls, members, and these
with signs in front of them or behind them.

An optional chain is one node around all that belongs to it, so the rules
carry along whether some `?.` was met.
-/
import EmitLint.Syntax.Grammar.Class
import EmitLint.Syntax.Grammar.Markup
import EmitLint.Syntax.Grammar.Target

namespace EmitLint.Syntax.Grammar

open EmitLint.Syntax.Parser

/-! ## Simple expressions -/

/-- An expression without parts. -/
def atom : Parser Expr := do
  let t ← token
  advance
  return .atom t.span

/-- An expression in parentheses. -/
def parenthesized (g : Grammar) : Parser Expr := do
  let start ← here
  expect "("
  let inner ← here
  let (es, comma) ← within (fun s => { s with inDecorator := false }) (listed ")" g.value)
  check !comma
  let span ← spanFrom inner
  expect ")"
  match es with
  | [] => giveUp
  | [e] => return .wrapped (← spanFrom start) .parens e
  | es => return .wrapped (← spanFrom start) .parens (.sequence span es)

/-- A module that is imported when the script runs, behind the opening
parenthesis. -/
def importArguments (g : Grammar) (start : Nat) : Parser Expr := do
  let source ← g.value
  let options ← if (← accept ",") && !(← sees ")") then some <$> g.value else pure none
  let _ ← accept ","
  expect ")"
  return .importCall (← spanFrom start) (source :: options.toList)

/-- An expression that begins with the word `import`. -/
def importExpression (g : Grammar) : Parser Expr := do
  let start ← here
  expect "import"
  if ← accept "." then
    if ← accept "meta" then
      noteModule
      return .atom (← spanFrom start)
    check (← seesOneOf ["source", "defer"])
    advance
  expect "("
  importArguments g start

/-- What a `new` creates, with its arguments. -/
def newExpression (g : Grammar) : Parser Expr := do
  let start ← here
  expect "new"
  if ← accept "." then
    expect "target"
    return .atom (← spanFrom start)
  let callee ← g.rule .constructed
  let callee := match callee with
    | .instantiation _ inner => inner
    | e => e
  let args ← if ← sees "(" then arguments g else pure []
  return .new (← spanFrom start) callee args

/-- A function as an expression. -/
def functionExpression (g : Grammar) : Parser Expr := do
  let start ← here
  let isAsync ← accept "async"
  let fn ← namedFunction g false isAsync
  return .function (← spanFrom start) fn

/-- A variable. -/
def variableExpr : Parser Expr := do
  let t ← identifier
  let s ← read
  if t.spells "await" && s.topLevel && !s.inAwait then noteAwait
  return .name t.span t.text

/-- An expression without operators around it. -/
def primary (g : Grammar) : Parser Expr := do
  let t ← token
  match t.kind with
  | .string => advance; return .string t.span t.text
  | .number => advance; return .number t.span t.text
  | .bigint => atom
  | .template => template g
  | .punctuator =>
      match t.text with
      | "(" => parenthesized g
      | "[" => array g
      | "\x7b" => object g
      | "/" | "/=" => regularExpression
      | "@" => classExpression g
      | _ => giveUp
  | .word =>
      match t.text with
      | "null" => advance; return .null t.span
      | "this" | "true" | "false" | "super" => atom
      | "class" => classExpression g
      | "function" => functionExpression g
      | "new" => newExpression g
      | "import" => importExpression g
      | "async" => if ← seesAsyncFunction then functionExpression g else variableExpr
      | _ => variableExpr
  | _ => giveUp

/-! ## Members and calls -/

/-- An expression, and whether some `?.` stands in its chain. -/
abbrev Link := Expr × Bool

/-- The member whose name stands at the front. -/
def namedMember (start : Nat) (optional : Bool) (e : Expr) : Parser Expr := do
  let t ← token
  check (t.kind == .word || t.kind == .privateName)
  advance
  let span ← spanFrom start
  if t.kind == .privateName then return .privateMember span optional e t.text
  else return .member span optional e t.text

/-- The member whose key stands in brackets at the front. -/
def keyedMember (g : Grammar) (start : Nat) (optional : Bool) (e : Expr) : Parser Expr := do
  expect "["
  let k ← g.anything
  expect "]"
  return .index (← spanFrom start) optional e k

/-- The token can be the name of a member. -/
def isMemberName (t : Token) : Bool := t.kind == .word || t.kind == .privateName

/-- One step from an expression to a member of it, to a template that it is
the tag of, or to what its type arguments make of it. -/
def memberStep (g : Grammar) (start : Nat) : Link → Parser (Option Link) := fun (e, chained) => do
  let t ← token
  let brackets := !(← read).inDecorator
  if ← accept "." then return some (← namedMember start false e, chained)
  else if t.spells "?." then
    let after ← peek
    if isMemberName after then
      advance
      return some (← namedMember start true e, true)
    else if after.spells "[" && brackets then
      advance
      return some (← keyedMember g start true e, true)
    else return none
  else if t.spells "[" && brackets then return some (← keyedMember g start false e, chained)
  else if t.kind == .template then
    let (_, parts) ← templateParts g
    return some (.tagged (← spanFrom start) e parts, chained)
  else if t.spells "!" && !t.newline && (← isTyped) then
    advance
    return some (.wrapped (← spanFrom start) .nonNull e, chained)
  else if ← acceptTypeArguments g then
    return some (.instantiation (← spanFrom start) e, chained)
  else return none

/-- The members, and members of members, that follow an expression. -/
def memberSteps (g : Grammar) (start : Nat) (link : Link) : Parser Link :=
  iterate (memberStep g start) link

/-- A member of something, or something simpler. -/
def memberLink (g : Grammar) : Parser Link := do
  let start ← here
  memberSteps g start (← primary g, false)

/-- The chain around an expression in which some `?.` stands. -/
def close (e : Expr) : Expr :=
  match e with
  | .call s .. | .member s .. | .index s .. | .privateMember s .. | .wrapped s .nonNull _ =>
      .chain s e
  | .instantiation s inner => .instantiation s (close inner)
  | e => e

/-- What a `new` creates. -/
def constructed (g : Grammar) : Parser Expr := return (← memberLink g).1

/-- A call of what stands in front of its arguments. -/
def callOf (g : Grammar) (start : Nat) (optional typeArgs : Bool) (e : Expr) : Parser Expr := do
  let (callee, typeArgs) := match e, optional with
    | .instantiation _ inner, false => (inner, true)
    | e, _ => (e, typeArgs)
  let args ← arguments g
  return .call (← spanFrom start) optional callee typeArgs args

/-- One step from an expression to a call of it, and on to members. -/
def callStep (g : Grammar) (start : Nat) : Link → Parser (Option Link) := fun (e, chained) => do
  if ← accept "?." then
    let typeArgs ← acceptTypeArguments g
    if ← seesKind .template then
      let (_, parts) ← templateParts g
      return some (← memberSteps g start (.tagged (← spanFrom start) e parts, true))
    else
      check (← sees "(")
      return some (← memberSteps g start (← callOf g start true typeArgs e, true))
  else if ← sees "(" then
    return some (← memberSteps g start (← callOf g start false false e, chained))
  else return none

/-- A call, a member of something, or something simpler. -/
def leftHandSide (g : Grammar) : Parser Expr := do
  let start ← here
  let (e, chained) ← iterate (callStep g start) (← memberLink g)
  return if chained then close e else e

/-! ## Signs -/

/-- Signs and words that stand in front of an operand. -/
def signs : List String := ["delete", "void", "typeof", "+", "-", "~", "!"]

/-- The target that an expression is, for a sign that changes it. -/
def targetOf (e : Expr) : Parser Pattern := do
  match e.target? (← get).defaults with
  | some p => return p
  | none => giveUp

/-- The expression can be increased. -/
def checkReference (e : Expr) : Parser Unit := check e.reference?.isSome

/-- An operand that is increased or decreased, or neither. -/
def updated (g : Grammar) : Parser Expr := do
  let start ← here
  let t ← token
  if t.isOneOf ["++", "--"] then
    advance
    let e ← g.rule .unary
    checkReference e
    return .update (← spanFrom start) t.text e
  else if t.spells "<" && (← hasJsx) then markupExpression g
  else
    let e ← leftHandSide g
    let t ← token
    if t.isOneOf ["++", "--"] && !t.newline then
      checkReference e
      advance
      return .update (← spanFrom start) t.text e
    else return e

/-- An operand follows the word at the front, on its line, that could not
follow a name.  Some words can follow a name. -/
def seesOperandBehind (others : List String) : Parser Bool := do
  let after ← peek
  return !after.newline && (after.kind == .word || after.isLiteral) && !after.isOneOf others

/-- The word `await` at the front is an operator.  Outside of all functions
only modules have that operator. -/
def awaitsOperand : Parser Bool := do
  let s ← read
  if s.inAwait then return true
  let found ← seesOperandBehind ["in", "instanceof", "of"]
  if found && s.topLevel && s.dialect.modules == .unambiguous then noteModule
  return found

/-- An operand with the signs in front of it. -/
def unary (g : Grammar) : Parser Expr := do
  let start ← here
  let t ← token
  if t.isOneOf signs then
    advance
    let e ← g.rule .unary
    return .unary (← spanFrom start) t.text e
  else if t.spells "<" && !(← hasJsx) then
    check (← isTyped)
    advance
    freeType g
    expect ">"
    let e ← g.rule .unary
    return .wrapped (← spanFrom start) .assertion e
  else if ← sees "await" <&&> awaitsOperand then
    advance
    let e ← within (fun s => { s with inAwait := true }) (g.rule .unary)
    return .await (← spanFrom start) e
  else updated g

end EmitLint.Syntax.Grammar
