/-
# Statements

A statement is told by its first words.  Where none of them fits it is an
expression, perhaps a label, and in a typed script perhaps a declaration
that concerns types.
-/
import EmitLint.Syntax.Grammar.Module

namespace EmitLint.Syntax.Grammar

open EmitLint.Syntax.Parser

/-! ## Blocks and bodies -/

/-- Statements in braces. -/
def block (g : Grammar) : Parser (List Stmt) := do
  expect "\x7b"
  let body ← many insideBraces (g.rule (.statement false))
  expect "\x7d"
  return body

/-- The statement is a bare string. -/
def isDirective : Stmt → Bool
  | .expression _ (.string ..) => true
  | _ => false

/-- The statements behind the directives, which are the bare strings at the
start. -/
def afterDirectives (body : List Stmt) : List Stmt := body.dropWhile isDirective

/-- The body of a function, with its braces. -/
def body (g : Grammar) : Parser (List Stmt) := return afterDirectives (← block g)

/-- An expression in parentheses that belong to the statement. -/
def condition (g : Grammar) : Parser Expr := do
  expect "("
  let e ← g.rule .expression
  expect ")"
  return e

/-- The statement that a branch, a loop or a label has. -/
def innerStatement (g : Grammar) : Parser Stmt := g.rule (.statement true)

/-! ## Branches and loops -/

/-- A choice between two statements. -/
def ifStatement (g : Grammar) (start : Nat) : Parser Stmt := do
  expect "if"
  let test ← condition g
  let yes ← innerStatement g
  let no ← if ← accept "else" then some <$> innerStatement g else pure none
  return .ifElse (← spanFrom start) test yes no

/-- A loop that tests first. -/
def whileStatement (g : Grammar) (start : Nat) : Parser Stmt := do
  expect "while"
  let test ← condition g
  let body ← innerStatement g
  return .whileLoop (← spanFrom start) test body

/-- A loop that tests last. -/
def doStatement (g : Grammar) (start : Nat) : Parser Stmt := do
  expect "do"
  let body ← innerStatement g
  expect "while"
  let test ← condition g
  let _ ← accept ";"
  return .doWhile (← spanFrom start) body test

/-- The rest of a loop that counts, behind its first part. -/
def countingLoop (g : Grammar) (start : Nat) (init : Option Stmt) : Parser Stmt := do
  expect ";"
  let test ← if ← seesOneOf [";", ")"] then pure none else some <$> g.anything
  expect ";"
  let update ← if ← sees ")" then pure none else some <$> g.anything
  expect ")"
  let body ← innerStatement g
  return .forLoop (← spanFrom start) init test update body

/-- The rest of a loop over keys or values, behind what takes them; `none`
when the loop is none of these. -/
def takingLoop? (g : Grammar) (start : Nat) (left : Parser Pattern) : Parser (Option Stmt) := do
  if ← sees "in" then
    let p ← left
    advance
    let right ← g.rule .expression
    expect ")"
    let body ← innerStatement g
    return some (.forIn (← spanFrom start) p right body)
  else if ← sees "of" then
    let p ← left
    advance
    let right ← g.item
    expect ")"
    let body ← innerStatement g
    return some (.forOf (← spanFrom start) p right body)
  else return none

/-- The pattern that a loop fills, from the variables declared in it. -/
def loopPattern (ds : List Declarator) : Pattern :=
  match ds with
  | [.mk p none] => p
  | [.mk p (some e)] => .withDefault p e
  | _ => .hole

/-- The words that declare variables in a loop, and how many they are. -/
def loopDeclaration? : Parser (Option Nat) := do
  let t ← token
  if t.isOneOf ["var", "const"] then return some 1
  else if t.spells "let" then
    let after ← peek
    let declares := (after.kind == .word && !after.spells "in") || after.isOneOf ["[", "\x7b"]
    return if declares then some 1 else none
  else if ← seesUsing true then return some 1
  else if ← seesAwaitUsing true then return some 2
  else return none

/-- A loop with the word `for`. -/
def forStatement (g : Grammar) (start : Nat) : Parser Stmt := do
  expect "for"
  let _ ← accept "await"
  expect "("
  let inner ← here
  if ← sees ";" then countingLoop g start none
  else
    match ← loopDeclaration? with
    | some words =>
        advance
        if words == 2 then advance
        let ds ← within (fun s => { s with allowIn := false }) (declarators g)
        match ← takingLoop? g start (return loopPattern ds) with
        | some loop => return loop
        | none => countingLoop g start (some (.variableDecl (← spanFrom inner) ds))
    | none =>
        let e ← within (fun s => { s with allowIn := false }) (g.rule .expression)
        match ← takingLoop? g start (targetOf e) with
        | some loop => return loop
        | none => countingLoop g start (some (.expression (← spanFrom inner) e))

/-- A case of a choice between many. -/
def switchCase (g : Grammar) : Parser Case := do
  let test ← if ← accept "default" then pure none
    else do
      expect "case"
      some <$> g.rule .expression
  expect ":"
  let inCase := return (← insideBraces) && !(← seesOneOf ["case", "default"])
  return .mk test (← many inCase (g.rule (.statement false)))

/-- A choice between many cases. -/
def switchStatement (g : Grammar) (start : Nat) : Parser Stmt := do
  expect "switch"
  let subject ← condition g
  expect "\x7b"
  let cases ← many insideBraces (switchCase g)
  expect "\x7d"
  return .switch (← spanFrom start) subject cases

/-! ## Jumps -/

/-- A jump out of a loop, perhaps to a label. -/
def jump (start : Nat) : Parser Stmt := do
  advance
  if !(← seesEnd) then
    check (← namesVariable (← token))
    advance
  semicolon
  return .inert (← spanFrom start)

/-- A return from a function. -/
def returnStatement (g : Grammar) (start : Nat) : Parser Stmt := do
  expect "return"
  let value ← if ← seesEnd then pure none else some <$> g.anything
  semicolon
  return .returns (← spanFrom start) value

/-- An exception. -/
def throwStatement (g : Grammar) (start : Nat) : Parser Stmt := do
  expect "throw"
  let e ← g.rule .expression
  semicolon
  return .throws (← spanFrom start) e

/-- What an exception handler takes, and the handler. -/
def handler (g : Grammar) : Parser (Option Pattern × List Stmt) := do
  let param ← if ← accept "(" then do
      let p ← g.rule .pattern
      annotation g
      expect ")"
      pure (some p)
    else pure none
  return (param, ← g.rule .block)

/-- Statements whose exceptions are handled. -/
def tryStatement (g : Grammar) (start : Nat) : Parser Stmt := do
  expect "try"
  let body ← g.rule .block
  let (param, handled) ← if ← accept "catch" then handler g else pure (none, [])
  let final ← if ← accept "finally" then g.rule .block else pure []
  return .tryCatch (← spanFrom start) body param handled final

/-! ## Other statements -/

/-- Statements among the members of an object. -/
def withStatement (g : Grammar) (start : Nat) : Parser Stmt := do
  expect "with"
  let e ← condition g
  let body ← innerStatement g
  return .withObject (← spanFrom start) e body

/-- The end of a statement that is an expression. -/
def expressionEnd (start : Nat) (e : Expr) : Parser Stmt := do
  semicolon
  return .expression (← spanFrom start) e

/-- An expression, or a statement behind a label. -/
def expressionStatement (g : Grammar) (start : Nat) : Parser Stmt := do
  let e ← g.rule .expression
  match e with
  | .name _ label =>
      if ← accept ":" then
        let body ← innerStatement g
        return .labeled (← spanFrom start) label body
  | _ => pure ()
  expressionEnd start e

/-- Operators that can follow the word `let` where it is a variable. -/
def letOperators : List String :=
  ["==", "!=", "===", "!==", "<", "<=", ">", "<<", "+", "-", "*", "/", "%", "**", "|", "^", "&",
    "in", "instanceof"] ++ assignmentSigns

/-- A statement that begins with the word `let`, which declares variables
unless what follows makes it one itself. -/
def letStatement (g : Grammar) (alone : Bool) (start : Nat) : Parser Stmt := do
  let after ← peek
  if after.isOneOf letOperators then expressionEnd start (← g.item)
  else if after.isOneOf [".", "("] then
    let e ← g.rule .expression
    return .expression (← spanFrom start) e
  else if after.spells ";" || (alone && !after.spells "[") then
    expressionEnd start (← variableExpr)
  else
    advance
    variableDeclaration g start

/-- A class, or the export of one, behind decorators. -/
def decorated (g : Grammar) (start : Nat) : Parser Stmt := do
  let ds ← decorators g
  if ← sees "export" then exportDeclaration g start ds
  else
    let _ ← modifiers false
    classDeclaration g start ds

/-- Words that a declaration can begin with where there are types. -/
def declaringWords : List String :=
  ["interface", "type", "module", "namespace", "declare", "enum", "private", "protected", "public",
    "abstract", "accessor", "static", "readonly", "global", "async"]

/-- A statement that is not told by its first word alone. -/
def otherStatement (g : Grammar) (start : Nat) : Parser Stmt := do
  if ← seesUsing false then
    advance
    variableDeclaration g start
  else if ← seesAwaitUsing false then
    advance
    advance
    variableDeclaration g start
  else if ← seesAsyncFunction then functionDeclaration g start
  else if ← isTyped <&&> seesOneOf declaringWords <&&> seesDeclaration then
    let ms ← leadingModifiers
    declaration g start ms []
  else expressionStatement g start

/-- A statement that begins with a punctuator. -/
def punctuated (g : Grammar) (start : Nat) (sign : String) : Parser Stmt := do
  match sign with
  | "\x7b" =>
      let body ← g.rule .block
      return .block (← spanFrom start) body
  | ";" =>
      advance
      return .inert (← spanFrom start)
  | "@" => decorated g start
  | _ => expressionStatement g start

/-- A statement that begins with a word. -/
def worded (g : Grammar) (alone : Bool) (start : Nat) (word : String) : Parser Stmt := do
  match word with
  | "var" =>
      advance
      variableDeclaration g start
  | "const" => declaration g start [] []
  | "let" =>
      if (← token).isEscaped then expressionStatement g start else letStatement g alone start
  | "function" => functionDeclaration g start
  | "class" => classDeclaration g start []
  | "if" => ifStatement g start
  | "for" => forStatement g start
  | "while" => whileStatement g start
  | "do" => doStatement g start
  | "switch" => switchStatement g start
  | "try" => tryStatement g start
  | "return" => returnStatement g start
  | "throw" => throwStatement g start
  | "break" | "continue" => jump start
  | "with" => withStatement g start
  | "debugger" =>
      advance
      semicolon
      return .inert (← spanFrom start)
  | "export" => exportDeclaration g start []
  | "import" =>
      if (← peek).isOneOf ["(", "."] then expressionStatement g start else importDeclaration
  | _ => otherStatement g start

/-- A statement, which can be all that a branch, a loop or a label has. -/
def statement (g : Grammar) (alone : Bool) : Parser Stmt :=
  within (fun s => { s with plainTypes := false }) do
    let t ← token
    match t.kind with
    | .word => worded g alone t.start t.text
    | .punctuator => punctuated g t.start t.text
    | _ => expressionStatement g t.start

end EmitLint.Syntax.Grammar
