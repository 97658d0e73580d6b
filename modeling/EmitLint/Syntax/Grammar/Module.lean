/-
# Imports and exports

Of the names that are imported or exported nothing is kept; of an export,
what is declared or evaluated in it.
-/
import EmitLint.Syntax.Grammar.Declaration

namespace EmitLint.Syntax.Grammar

open EmitLint.Syntax.Parser

/-! ## Lists of names -/

/-- The name of something in a module: a word, or a string. -/
def moduleName : Parser Unit := do
  let t ← token
  check (t.kind == .word || t.kind == .string)
  advance

/-- The words of an entry are a name, perhaps with another name behind `as`,
and perhaps, where there are types, with `type` in front. -/
def isListing (typed : Bool) (words : List Token) : Bool :=
  match words with
  | [_] => true
  | [a, _] => typed && a.spells "type"
  | [_, b, _] => b.spells "as"
  | [a, _, c, _] => typed && a.spells "type" && c.spells "as"
  | _ => false

/-- An entry of a list of names. -/
def listing : Parser Unit := do
  let isName := do
    let t ← token
    return t.kind == .word || t.kind == .string
  let words ← many isName do
    let t ← token
    advance
    return t
  check (isListing (← isTyped) words)

/-- Names in braces. -/
def listings : Parser Unit := do
  let _ ← enclosed "\x7b" "\x7d" listing

/-- A property of what says how a module is to be loaded. -/
def loadingAttribute : Parser Unit := do
  moduleName
  expect ":"
  let _ ← expectKind .string

/-- The module that is meant, and how it is to be loaded. -/
def moduleSource : Parser Unit := do
  let _ ← expectKind .string
  if (← sees "with") || ((← sees "assert") && !(← onNewLine)) then
    advance
    let _ ← enclosed "\x7b" "\x7d" loadingAttribute

/-! ## Imports -/

/-- Everything that a module gives, under one name. -/
def wholeModule : Parser Unit := do
  expect "*"
  expect "as"
  let _ ← identifier

/-- What is imported: a default, and a list of names or a whole module. -/
def importClause : Parser Unit := do
  if (← token).isIdentifier then
    advance
    if ← accept "," then
      if ← sees "*" then wholeModule else listings
  else if ← sees "*" then wholeModule
  else listings

/-- A default is named at the front.  The word `from` is a name only if it
does not stand in front of the module. -/
def namesDefault : Parser Bool := do
  if ← sees "from" then return (← peek).isOneOf ["from", "="]
  else return (← token).isIdentifier

/-- The word at the front says what kind of import follows. -/
def seesImportKind : Parser Bool := do
  let t ← token
  let typed ← isTyped
  wouldHold do
    advance
    match t.text with
    | "type" => return typed && ((← seesOneOf ["*", "\x7b"]) || (← namesDefault))
    | "source" => namesDefault
    | "defer" => sees "*"
    | _ => return false

/-- Another name for something is imported, behind the word `import`. -/
def seesAlias : Parser Bool := do
  if !(← isTyped) then return false
  wouldHold do
    let _ ← accept "type"
    if !(← sees "=") then
      let _ ← identifier
    sees "="

/-- An import. -/
def importDeclaration : Parser Stmt := do
  let start ← here
  expect "import"
  if ← seesAlias then importAlias start
  else
    if !(← seesKind .string) then
      if ← seesImportKind then advance
      importClause
      expect "from"
    moduleSource
    semicolon
    noteModule
    return .inert (← spanFrom start)

/-! ## Exports -/

/-- The export of a default. -/
def defaultExport (g : Grammar) (start : Nat) (ds : List Expr) : Parser Stmt := do
  let inner ← here
  let own ← decorators g
  let after ← peek
  if (← sees "abstract") && after.spells "class" then advance
  if ← sees "class" then
    let d ← classDeclaration g inner (ds ++ own)
    return .exportDecl (← spanFrom start) d
  else if (← sees "function") || (← seesAsyncFunction) then
    let d ← functionDeclaration g inner
    return .exportDecl (← spanFrom start) d
  else if (← sees "interface") && !after.newline then
    let d ← interface g inner
    return .exportDecl (← spanFrom start) d
  else
    let e ← g.item
    semicolon
    return .exportDefault (← spanFrom start) e

/-- The export of names of this module or of another one, which can be left
out. -/
def namedExport : Parser Unit := do
  listings
  if (← accept "from") && (← token).isLiteral then moduleSource
  semicolon

/-- The export of what another module gives. -/
def wholeExport : Parser Unit := do
  expect "*"
  if ← accept "as" then moduleName
  expect "from"
  moduleSource
  semicolon

/-- The export of a declaration. -/
def declarationExport (g : Grammar) (start : Nat) (ds : List Expr) : Parser Stmt := do
  let inner ← here
  let own ← decorators g
  let ms ← if ← isTyped then leadingModifiers else pure []
  let d ← declaration g inner ms (ds ++ own)
  return .exportDecl (← spanFrom start) d

/-- What an export exports, behind the word `export`. -/
def exported (g : Grammar) (start : Nat) (ds : List Expr) : Parser Stmt := do
  let typed ← isTyped
  let after ← peek
  if ← accept "default" then defaultExport g start ds
  else if ← isTyped <&&> accept "=" then
    let e ← g.item
    semicolon
    return .exportAssign (← spanFrom start) e
  else if typed && (← sees "as") && after.spells "namespace" then
    advance
    advance
    let _ ← expectKind .word
    semicolon
    return .inert (← spanFrom start)
  else
    if typed && (← sees "type") && after.isOneOf ["*", "\x7b"] then advance
    if ← sees "*" then
      wholeExport
      return .inert (← spanFrom start)
    else if ← sees "\x7b" then
      namedExport
      return .inert (← spanFrom start)
    else declarationExport g start ds

/-- An export, behind the decorators in front of it. -/
def exportDeclaration (g : Grammar) (start : Nat) (ds : List Expr) : Parser Stmt := do
  expect "export"
  let s ← exported g start ds
  noteModule
  return s

end EmitLint.Syntax.Grammar
