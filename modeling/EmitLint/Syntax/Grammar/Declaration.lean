/-
# Declarations

Variables, functions and classes, and the declarations that only exist
where there are types: interfaces, aliases, enumerations and namespaces.
-/
import EmitLint.Syntax.Grammar.Expression

namespace EmitLint.Syntax.Grammar

open EmitLint.Syntax.Parser

/-! ## Variables -/

/-- The pattern is a name. -/
def isName : Pattern → Bool
  | .name .. => true
  | _ => false

/-- The type that is written at a variable, with marks in front of it. -/
def variableType (g : Grammar) (p : Pattern) : Parser Unit := do
  if ← isTyped then
    if isName p && !(← onNewLine) then
      let _ ← accept "!"
    let _ ← accept "?"
    annotation g

/-- A variable or a pattern with its initial value. -/
def declarator (g : Grammar) : Parser Declarator := do
  let p ← g.rule .pattern
  variableType g p
  let init ← if ← accept "=" then some <$> g.item else pure none
  return .mk p init

/-- Variables behind the word that declares them. -/
def declarators (g : Grammar) : Parser (List Declarator) := separated (declarator g)

/-- Declared variables, from behind the declaring word on. -/
def variableDeclaration (g : Grammar) (start : Nat) : Parser Stmt := do
  let ds ← declarators g
  semicolon
  return .variableDecl (← spanFrom start) ds

/-- The word `using` that declares variables stands at the front.  In a loop,
the word `of` behind it is a variable only if its value or its type follows. -/
def seesUsing (inLoop : Bool) : Parser Bool := do
  if !(← sees "using") then return false
  wouldHold do
    advance
    let t ← token
    if inLoop && t.spells "of" then return (← peek).isOneOf ["=", ";", ",", ":"]
    else return !t.newline && (t.isIdentifier || t.spells "\x7b")

/-- The words `await using` that declare variables stand at the front. -/
def seesAwaitUsing (inLoop : Bool) : Parser Bool := do
  if !(← sees "await") then return false
  wouldHold do
    advance
    return !(← onNewLine) && (← seesUsing inLoop)

/-! ## Functions and classes -/

/-- A function as a declaration. -/
def functionDeclaration (g : Grammar) (start : Nat) : Parser Stmt := do
  let isAsync ← accept "async"
  let fn ← namedFunction g true isAsync
  return .functionDecl (← spanFrom start) fn

/-- A class as a declaration, from the word `class` on. -/
def classDeclaration (g : Grammar) (start : Nat) (ds : List Expr) : Parser Stmt := do
  expect "class"
  let c ← g.rule .classTail
  return .classDecl (← spanFrom start) (decorate ds c)

/-! ## Declarations that concern types -/

/-- The name of a member of an enumeration: a word, or a text that is known. -/
def enumName (g : Grammar) : Parser Unit := do
  if (← seesKind .word) || (← seesKind .string) then advance
  else
    match ← key g false with
    | .expr true (.string ..) | .expr true (.template _ _ []) => return ()
    | _ => giveUp

/-- A member of an enumeration, by its value. -/
def enumMember (g : Grammar) : Parser (Option Expr) := do
  enumName g
  if ← accept "=" then return some (← g.item) else return none

/-- An enumeration. -/
def enumeration (g : Grammar) (start : Nat) : Parser Stmt := do
  expect "enum"
  let _ ← identifier
  let values ← enclosed "\x7b" "\x7d" (enumMember g)
  return .enumeration (← spanFrom start) (values.filterMap id)

/-- An interface. -/
def interface (g : Grammar) (start : Nat) : Parser Stmt := do
  expect "interface"
  let _ ← identifier
  typeParameters g
  let _ ← heritage g
  g.rule .typeMembers
  return .inert (← spanFrom start)

/-- A name for a type. -/
def typeAlias (g : Grammar) (start : Nat) : Parser Stmt := do
  expect "type"
  let _ ← identifier
  typeParameters g
  expect "="
  freeType g
  semicolon
  return .inert (← spanFrom start)

/-- A namespace, or a module that is declared, which can be without a body.
Only the latter is named by a string. -/
def namespaceDeclaration (g : Grammar) (start : Nat) : Parser Stmt := do
  let isModule ← sees "module"
  advance
  let quoted := isModule && (← seesKind .string)
  if quoted then advance
  else
    let _ ← identifier
    let _ ← many (accept ".") identifier
  if quoted && !(← sees "\x7b") then
    semicolon
    return .inert (← spanFrom start)
  else
    let body ← g.rule .block
    return .scope (← spanFrom start) body

/-- What is added to the global scope. -/
def globalDeclaration (g : Grammar) (start : Nat) : Parser Stmt := do
  expect "global"
  let body ← g.rule .block
  return .scope (← spanFrom start) body

/-- Another name for what a module or a namespace gives, from behind the word
`import` on. -/
def importAlias (start : Nat) : Parser Stmt := do
  if (← sees "type") && !(← peek).spells "=" then advance
  let _ ← identifier
  expect "="
  if (← sees "require") && (← peek).spells "(" then
    advance
    advance
    let _ ← expectKind .string
    expect ")"
  else dottedName
  semicolon
  return .inert (← spanFrom start)

/-- A declaration that only exists where there are types. -/
def typedDeclaration (g : Grammar) (start : Nat) : Parser Stmt := do
  check (← isTyped)
  let t ← token
  if t.spells "enum" then enumeration g start
  else if t.spells "interface" then interface g start
  else if t.spells "type" then typeAlias g start
  else if t.isOneOf ["namespace", "module"] then namespaceDeclaration g start
  else if t.spells "global" then globalDeclaration g start
  else if t.spells "import" then
    advance
    importAlias start
  else giveUp

/-- A declaration behind its modifiers.  A generator cannot be declared
without its body. -/
def declaration (g : Grammar) (start : Nat) (modifiers : List String) (ds : List Expr) :
    Parser Stmt := do
  let t ← token
  if t.isOneOf ["var", "let"] || (← seesUsing false) then
    advance
    variableDeclaration g start
  else if t.spells "const" then
    advance
    if ← sees "enum" then typedDeclaration g start else variableDeclaration g start
  else if t.spells "function" || (← seesAsyncFunction) then
    check (!(modifiers.contains "declare" && (← peek).spells "*"))
    functionDeclaration g start
  else if t.spells "class" then classDeclaration g start ds
  else typedDeclaration g start

/-- Words that can stand in front of a declaration. -/
def declarationModifiers : List String :=
  ["abstract", "accessor", "async", "declare", "private", "protected", "public", "readonly"]

/-- One token of what comes before a declaration that concerns types: `some`
when the token settles whether such a declaration starts. -/
def declarationStep : Parser (Option Bool) := do
  let t ← token
  let after ← peek
  if t.isOneOf ["var", "let", "const", "function", "class", "enum"] then return some true
  else if t.isOneOf ["interface", "type"] then
    return some (after.isIdentifier && !after.newline)
  else if t.isOneOf ["module", "namespace"] then
    return some ((after.isIdentifier || after.kind == .string) && !after.newline)
  else if t.isOneOf declarationModifiers then
    return if after.newline then some false else none
  else if t.spells "global" then
    return some (after.isPlainName || after.isOneOf ["\x7b", "export"])
  else if t.spells "import" then
    return some (after.kind == .string || after.kind == .word || after.isOneOf ["*", "\x7b"])
  else if t.spells "export" then
    return if after.isOneOf ["=", "*", "\x7b", "default", "as", "@"] then some true else none
  else if t.spells "static" then return none
  else return some false

/-- A declaration that concerns types starts at the front. -/
def seesDeclaration : Parser Bool := wouldHold do
  let step := fun (found : Option Bool) => do
    if found.isSome then return none
    let now ← declarationStep
    if now.isNone then advance
    return some now
  return (← iterate step none).getD false

/-- The words in front of a declaration, but for those that belong to a
function. -/
def leadingModifiers : Parser (List String) := do
  let isLeading := do
    let t ← token
    let after ← peek
    return t.isOneOf ("export" :: "static" :: "override" :: declarationModifiers) &&
      !(t.spells "async" && after.spells "function") && !after.newline &&
      canFollowModifier after
  many isLeading do
    let t ← token
    advance
    return t.text

end EmitLint.Syntax.Grammar
