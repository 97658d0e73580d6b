/-
# Types

Types leave nothing in the tree, so these rules only take their tokens.
Still they have to tell types from what is none, since the meaning of a `<`
or a parenthesis can hang on it.
-/
import EmitLint.Syntax.Grammar.Name

namespace EmitLint.Syntax.Grammar

open EmitLint.Syntax.Parser

/-- A type, where it can go on with `extends`. -/
def freeType (g : Grammar) : Parser Unit :=
  within (fun s => { s with plainTypes := false }) (g.rule .type)

/-! ## Lists in angle brackets -/

/-- Type arguments, if they stand at the front. -/
def typeArguments (g : Grammar) : Parser Unit := do
  if ← narrowAngle then
    let _ ← enclosed "<" ">" (freeType g)

/-- A type parameter. -/
def typeParameter (g : Grammar) : Parser Unit := do
  let _ ← modifiers true
  let _ ← identifier
  if ← accept "extends" then freeType g
  if ← accept "=" then freeType g

/-- Type parameters, if they stand at the front of a typed script. -/
def typeParameters (g : Grammar) : Parser Unit := do
  if (← isTyped) && (← sees "<") then
    let _ ← enclosed "<" ">" (typeParameter g)

/-! ## Types of functions -/

/-- A type, or a predicate on a variable. -/
def typeOrPredicate (g : Grammar) : Parser Unit := do
  let t ← token
  let after ← peek
  if t.kind == .word && after.spells "is" && !after.newline then
    advance
    advance
  freeType g

/-- A colon and a type, if they stand at the front of a typed script. -/
def annotation (g : Grammar) : Parser Unit := do
  if ← isTyped <&&> accept ":" then freeType g

/-- A colon and the type of a function, if they stand at the front of a typed
script. -/
def returnAnnotation (g : Grammar) : Parser Unit := do
  if ← isTyped <&&> accept ":" then typeOrPredicate g

/-- Parameters and type of a function without a body. -/
def signature (g : Grammar) : Parser Unit := do
  typeParameters g
  let _ ← g.rule .parameters
  returnAnnotation g

/-- Skip what a parameter begins with; false when none does. -/
def skipParameterStart (g : Grammar) : Parser Bool := do
  let _ ← modifiers false
  let t ← token
  if t.isIdentifier || t.spells "this" then advance; return true
  else if t.isOneOf ["[", "\x7b"] then
    let _ ← g.rule .pattern
    return true
  else return false

/-- The parenthesis at the front opens the parameters of a function type. -/
def opensParameters (g : Grammar) : Parser Bool := wouldHold do
  expect "("
  if ← seesOneOf [")", "..."] then return true
  if ← skipParameterStart g then
    if ← seesOneOf [":", ",", "?", "="] then return true
    else return (← accept ")") && (← sees "=>")
  else return false

/-- The type of a function starts at the front. -/
def seesFunctionType (g : Grammar) : Parser Bool := do
  if ← seesOneOf ["<", "new"] then return true
  else if ← sees "abstract" then return (← peek).spells "new"
  else if ← sees "(" then opensParameters g
  else return false

/-- The type of a function or of a constructor. -/
def functionType (g : Grammar) : Parser Unit := do
  let _ ← accept "abstract"
  let _ ← accept "new"
  typeParameters g
  let _ ← g.rule .parameters
  expect "=>"
  typeOrPredicate g

/-! ## Members -/

/-- An index signature starts at the front. -/
def seesIndexSignature : Parser Bool := do
  if !(← sees "[") then return false
  wouldHold do
    advance
    if ← seesOneOf ["...", "]"] then return true
    let t ← token
    advance
    if t.isOneOf modifierWords && (← token).isIdentifier then return true
    if !t.isIdentifier then return false
    if ← seesOneOf [":", ","] then return true
    return (← accept "?") && (← seesOneOf [":", ",", "]"])

/-- The end of a member. -/
def memberEnd : Parser Unit := do
  if !(← accept ",") then semicolon

/-- An index signature, which says both what the keys and what the values
are. -/
def indexSignature (g : Grammar) : Parser Unit := do
  let parameter := do
    let _ ← expectKind .word
    check ((← isTyped) && (← sees ":"))
    annotation g
  let _ ← enclosed "[" "]" parameter
  check (← sees ":")
  annotation g
  memberEnd

/-- A member of an interface. -/
def typeMember (g : Grammar) : Parser Unit := do
  if (← sees "new") && (← peek).isOneOf ["(", "<"] then
    advance
    signature g
    memberEnd
  else if ← seesOneOf ["(", "<"] then
    signature g
    memberEnd
  else
    let _ ← modifiers false
    if ← acceptModifier "get" <||> acceptModifier "set" then
      let _ ← key g false
      signature g
      memberEnd
    else if ← seesIndexSignature then indexSignature g
    else
      let _ ← key g false
      let _ ← accept "?"
      if ← seesOneOf ["(", "<"] then signature g else annotation g
      memberEnd

/-- Some token other than the closing brace stands at the front. -/
def insideBraces : Parser Bool := do
  let t ← token
  return !(t.spells "\x7d" || t.kind == .endOfText)

/-- The members of an interface, with their braces. -/
def typeMembers (g : Grammar) : Parser Unit := do
  expect "\x7b"
  let _ ← many insideBraces (typeMember g)
  expect "\x7d"

/-- A mapped type starts at the front. -/
def seesMappedType : Parser Bool := wouldHold do
  expect "\x7b"
  if ← seesOneOf ["+", "-"] then
    advance
    sees "readonly"
  else
    let _ ← accept "readonly"
    expect "["
    let _ ← expectKind .word
    sees "in"

/-- A mark of a mapped type, perhaps with a sign. -/
def mappedMark (mark : String) : Parser Unit := do
  if ← seesOneOf ["+", "-"] then
    advance
    expect mark
  else
    let _ ← accept mark

/-- A mapped type. -/
def mappedType (g : Grammar) : Parser Unit := do
  expect "\x7b"
  mappedMark "readonly"
  expect "["
  let _ ← expectKind .word
  expect "in"
  freeType g
  if ← accept "as" then freeType g
  expect "]"
  mappedMark "?"
  if ← accept ":" then freeType g
  let _ ← accept ";"
  expect "\x7d"

/-! ## Simple types -/

/-- A name with the names of namespaces in front. -/
def dottedName : Parser Unit := do
  check ((← token).kind == .word)
  advance
  let step := fun () => do
    if ← accept "." then
      check ((← token).kind == .word || (← token).kind == .privateName)
      advance
      return some ()
    else return none
  iterate step ()

/-- A name of a type with its arguments. -/
def typeReference (g : Grammar) : Parser Unit := do
  dottedName
  if !(← onNewLine) then typeArguments g

/-- What an imported module gives. -/
def importType (g : Grammar) : Parser Unit := do
  expect "import"
  expect "("
  g.rule .type
  if ← accept "," then
    let _ ← g.value
    let _ ← accept ","
  expect ")"
  if ← accept "." then dottedName
  if !(← onNewLine) then typeArguments g

/-- The type of a value. -/
def typeQuery (g : Grammar) : Parser Unit := do
  expect "typeof"
  if ← sees "import" then importType g
  else
    dottedName
    if !(← onNewLine) then typeArguments g

/-- An element of a tuple, perhaps with its name. -/
def tupleElement (g : Grammar) : Parser Unit := do
  let _ ← accept "..."
  let named ← wouldHold do
    let _ ← expectKind .word
    let _ ← accept "?"
    sees ":"
  if named then
    advance
    let _ ← accept "?"
    expect ":"
  freeType g

/-- The pieces of a template, each with a substitution behind it but the last. -/
def templatePieces {α : Type} (substitution : Parser α) : Parser (List Char × List α) := do
  let piece? := fun (p : Place) => do
    match Quoted.piece? false p.rest with
    | some piece => return (piece, Token.behind p piece.raw piece.rest)
    | none => giveUp
  let (head, stop) ← piece? (← token).place.next
  let step := fun ((isLast, stop, parts) : Bool × Place × List α) => do
    if isLast then
      resumeAt (stop.drop 1)
      return none
    else
      resumeAt (stop.drop 2)
      let part ← substitution
      let t ← token
      check (t.spells "\x7d")
      let (piece, stop) ← piece? t.place.next
      return some (piece.isLast, stop, part :: parts)
  let (_, _, parts) ← iterate step (head.isLast, stop, [])
  return (head.raw, parts.reverse)

/-- A type starts at the front. -/
def seesType : Parser Bool := do
  let t ← token
  return t.isIdentifier || t.isLiteral || t.kind == .template ||
    t.isOneOf ["void", "this", "typeof", "\x7b", "[", "(", "<", "|", "&", "new", "import", "*",
      "?", "!", "...", "function", "-"]

/-- A type without operators around it. -/
def simpleType (g : Grammar) : Parser Unit := do
  let t ← token
  let after ← peek
  if t.isLiteral then advance
  else if t.kind == .template then
    let _ ← templatePieces (g.rule .type)
  else if t.spells "-" then
    advance
    check ((← token).kind == .number || (← token).kind == .bigint)
    advance
  else if t.spells "void" then advance
  else if t.spells "?" then
    advance
    if !(← seesOneOf [",", "\x7d", ")", ">", "=", "|"]) then g.rule .type
  else if t.spells "!" then
    advance
    g.rule .type
  else if t.spells "this" && after.spells "is" && !after.newline then
    advance
    advance
    freeType g
  else if t.spells "typeof" then typeQuery g
  else if t.spells "import" then importType g
  else if t.spells "\x7b" then
    if ← seesMappedType then mappedType g else g.rule .typeMembers
  else if t.spells "[" then
    let _ ← enclosed "[" "]" (tupleElement g)
  else if t.spells "(" then
    advance
    freeType g
    expect ")"
  else if t.spells "asserts" && (after.isIdentifier || after.spells "this") && !after.newline then
    advance
    advance
    if ← accept "is" then freeType g
  else typeReference g

/-! ## Operators on types -/

/-- A simple type with what is behind it: brackets, or marks. -/
def postfixType (g : Grammar) : Parser Unit := do
  within (fun s => { s with plainTypes := false }) (simpleType g)
  let step := fun () => do
    let t ← token
    if t.newline then return none
    else if t.spells "!" then advance; return some ()
    else if t.spells "?" then
      if ← wouldHold (do advance; seesType) then return none
      else advance; return some ()
    else if t.spells "[" then
      advance
      if !(← sees "]") then freeType g
      expect "]"
      return some ()
    else return none
  iterate step ()

/-- What `infer` names, perhaps with a bound. -/
def inferredType (g : Grammar) : Parser Unit := do
  expect "infer"
  let _ ← identifier
  let _ ← attempt do
    expect "extends"
    within (fun s => { s with plainTypes := true }) (g.rule .type)
    check ((← read).plainTypes || !(← sees "?"))

/-- A type with the words that can stand in front of it. -/
def operatorType (g : Grammar) : Parser Unit := do
  let step := fun () => do
    if ← seesOneOf ["keyof", "unique", "readonly"] then
      advance
      return some ()
    else return none
  iterate step ()
  if ← sees "infer" then inferredType g else postfixType g

/-- An operand of a union or an intersection. -/
def constituent (g : Grammar) (simple : Grammar → Parser Unit) : Parser Unit := do
  if ← seesFunctionType g then functionType g else simple g

/-- Types with an operator between them, and perhaps one in front. -/
def combinedType (g : Grammar) (operator : String) (simple : Grammar → Parser Unit) :
    Parser Unit := do
  if ← accept operator then constituent g simple else simple g
  let step := fun () => do
    if ← accept operator then
      constituent g simple
      return some ()
    else return none
  iterate step ()

/-- A union of intersections. -/
def unionType (g : Grammar) : Parser Unit :=
  combinedType g "|" fun g => combinedType g "&" operatorType

/-- A type. -/
def type (g : Grammar) : Parser Unit := do
  if ← seesFunctionType g then functionType g
  else
    unionType g
    let plain := (← read).plainTypes || (← onNewLine)
    if ← pure !plain <&&> accept "extends" then
      within (fun s => { s with plainTypes := true }) (g.rule .type)
      expect "?"
      freeType g
      expect ":"
      freeType g

/-! ## Type arguments in expressions -/

/-- Operators between two operands, with how tightly they bind. -/
def operatorLevels : List (String × Nat) :=
  [("??", 1), ("||", 2), ("&&", 3), ("|", 4), ("^", 5), ("&", 6), ("==", 7), ("!=", 7), ("===", 7),
    ("!==", 7), ("<", 8), (">", 8), ("<=", 8), (">=", 8), ("instanceof", 8), ("in", 8), ("as", 8),
    ("satisfies", 8), ("<<", 9), (">>", 9), (">>>", 9), ("+", 10), ("-", 10), ("*", 11), ("/", 11),
    ("%", 11), ("**", 12)]

/-- How tightly the operator at the front binds, if one stands there. -/
def operatorLevel? : Parser (Option Nat) := do
  let t ← token
  if t.kind == .word || t.kind == .punctuator then
    if t.text == "in" && !(← read).allowIn then return none
    else return operatorLevels.lookup t.text
  else return none

/-- An expression can start at the front. -/
def beginsExpression : Parser Bool := do
  let t ← token
  return t.isIdentifier || t.isLiteral || t.kind == .template || t.kind == .privateName ||
    t.isOneOf ["this", "super", "(", "[", "\x7b", "function", "class", "new", "/", "/=", "import",
      "+", "-", "~", "!", "delete", "typeof", "void", "++", "--", "<", "@"]

/-- What stands at the front can follow type arguments in an expression. -/
def canFollowTypeArguments : Parser Bool := do
  let t ← token
  if t.kind == .template || t.spells "(" then return true
  else if t.isOneOf ["<", ">", "+", "-"] then return false
  else
    return t.newline || (← operatorLevel?).isSome || !(← beginsExpression)

/-- Take type arguments in an expression, if the text can be read as such;
false when it cannot. -/
def acceptTypeArguments (g : Grammar) : Parser Bool := do
  if !(← isTyped) then return false
  let found ← attempt do
    check (← narrowAngle)
    expect "<"
    let _ ← listed ">" (freeType g)
    widenAngle
    expect ">"
    check (← canFollowTypeArguments)
  return found.isSome

end EmitLint.Syntax.Grammar
