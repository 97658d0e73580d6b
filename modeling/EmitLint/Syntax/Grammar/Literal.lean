/-
# Literals

Arrays, objects, templates and regular expressions.
-/
import EmitLint.Syntax.Grammar.Function

namespace EmitLint.Syntax.Grammar

open EmitLint.Syntax.Parser

/-! ## Arrays and arguments -/

/-- A value behind three dots. -/
def spread (g : Grammar) : Parser (Span × Expr) := do
  let start ← here
  expect "..."
  let e ← g.value
  return (← spanFrom start, e)

/-- An element of an array; where none stands before a comma, it is a hole. -/
def arrayElement (g : Grammar) : Parser Element := do
  if ← sees "," then return .hole (← token).span
  else if ← sees "..." then
    let (span, e) ← spread g
    return .spread span e
  else return .item (← g.value)

/-- An array. -/
def array (g : Grammar) : Parser Expr := do
  let start ← here
  let elements ← enclosed "[" "]" (arrayElement g)
  return .array (← spanFrom start) elements

/-- An argument. -/
def argument (g : Grammar) : Parser Element := do
  if ← sees "..." then
    let (span, e) ← spread g
    return .spread span e
  else return .item (← g.value)

/-- Arguments with their parentheses. -/
def arguments (g : Grammar) : Parser (List Element) := enclosed "(" ")" (argument g)

/-! ## Objects -/

/-- A variable that stands for a property of its name, perhaps with a default,
which is only of use if the object is a pattern. -/
def shorthand (g : Grammar) (start : Nat) (name : Token) (k : Key) : Parser Property := do
  if ← accept "=" then
    let e ← g.value
    modify fun s => { s with defaults := (start, e) :: s.defaults }
  return .entry (← spanFrom start) k (.name name.span name.text)

/-- A property with its key, behind the modifiers. -/
def keyedProperty (g : Grammar) (start : Nat) (isAsync : Bool) : Parser Property := do
  if ← acceptModifier "get" <||> acceptModifier "set" then
    let k ← key g false
    let value ← method g false false
    return .entry (← spanFrom start) k value
  let isGenerator ← accept "*"
  let t ← token
  let k ← key g false
  let _ ← accept "?"
  let _ ← accept "!"
  if isGenerator || (← seesOneOf ["(", "<"]) then
    let value ← method g isAsync isGenerator
    return .entry (← spanFrom start) k value
  if (← namesVariable t) && !(← sees ":") then shorthand g start t k
  else
    expect ":"
    let value ← g.value
    return .entry (← spanFrom start) k value

/-- A property of an object. -/
def property (g : Grammar) : Parser Property := do
  if ← sees "..." then
    let (span, e) ← spread g
    return .spread span e
  let start ← here
  let ms ← modifiers false
  keyedProperty g start (ms.contains "async")

/-- An object. -/
def object (g : Grammar) : Parser Expr := do
  let start ← here
  let properties ← enclosed "\x7b" "\x7d" (property g)
  return .object (← spanFrom start) properties

/-! ## Templates -/

/-- A template by its first text and its substitutions. -/
def templateParts (g : Grammar) : Parser (List Char × List Expr) := templatePieces g.anything

/-- A template. -/
def template (g : Grammar) : Parser Expr := do
  let start ← here
  let (raw, parts) ← templateParts g
  return .template (← spanFrom start) (Quoted.templateValue? raw) parts

/-! ## Regular expressions -/

/-- The text behind the slash that closes a regular expression; `none` when
the line ends first.  A slash in a class of characters does not close. -/
def patternEnd? (inClass guarded : Bool) : List Char → Option (List Char)
  | [] => none
  | c :: cs =>
      if isLineEnd c then none
      else if guarded then patternEnd? inClass false cs
      else if c = '\\' then patternEnd? inClass true cs
      else if c = '[' then patternEnd? true false cs
      else if c = ']' then patternEnd? false false cs
      else if c = '/' && !inClass then some cs
      else patternEnd? inClass false cs

/-- A character that could be a flag. -/
def isFlagChar (c : Char) : Bool := c.isAlphanum || c = '$' || c = '_'

/-- The flags are known and no two of them are the same. -/
def areFlags : List Char → Bool
  | [] => true
  | c :: cs => "dgimsuvy".toList.contains c && !cs.contains c && areFlags cs

/-- A regular expression, from its first slash on. -/
def regularExpression : Parser Expr := do
  let t ← token
  let body := t.place.next
  match patternEnd? false false body.rest with
  | none => giveUp
  | some after =>
      let flags := after.takeWhile isFlagChar
      let rest := after.drop flags.length
      check (areFlags flags && !(← get).fault)
      let length := Text.byteLength body.rest - Text.byteLength rest
      resumeAt ⟨rest, body.offset + length⟩
      return .atom (← spanFrom t.start)

end EmitLint.Syntax.Grammar
