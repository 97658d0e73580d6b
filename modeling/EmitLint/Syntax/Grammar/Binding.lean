/-
# Patterns and parameters

What a declaration binds, and the parameters of functions, which are
patterns with decorators, modifiers, types and defaults around them.
-/
import EmitLint.Syntax.Grammar.Types

namespace EmitLint.Syntax.Grammar

open EmitLint.Syntax.Parser

/-- A name that is bound. -/
def boundName : Parser Pattern := do
  let t ← identifier
  return .name t.span t.text

/-- A pattern with the value behind `=`, if there is one. -/
def withDefault (g : Grammar) (p : Pattern) : Parser Pattern := do
  if ← accept "=" then return .withDefault p (← g.value)
  else return p

/-- A pattern that takes what is left over. -/
def isRest : Pattern → Bool
  | .rest _ => true
  | .decorated _ p => isRest p
  | _ => false

/-- Patterns with commas between them, up to a closing token.  Only the last
one can take what is left over. -/
def patternList (close : String) (item : Parser Pattern) : Parser (List Pattern) := do
  let (ps, _) ← listed close item
  check (ps.dropLast.all fun p => !isRest p)
  return ps

/-- What is left over of an array, behind three dots. -/
def restPattern (g : Grammar) : Parser Pattern := do
  expect "..."
  return .rest (← withDefault g (← g.rule .pattern))

/-- An entry of an object pattern.  A variable can be its own key, and only a
variable can take what is left over. -/
def patternEntry (g : Grammar) : Parser Pattern := do
  if ← accept "..." then return .rest (← boundName)
  else
    let t ← token
    let k ← key g false
    if t.isIdentifier && !(← sees ":") then
      return .entry k (← withDefault g (.name t.span t.text))
    else
      expect ":"
      return .entry k (← withDefault g (← g.rule .pattern))

/-- An element of an array pattern. -/
def patternItem (g : Grammar) : Parser Pattern := do
  if ← sees "," then return .hole
  else if ← sees "..." then restPattern g
  else withDefault g (← g.rule .pattern)

/-- A name, or a pattern in brackets or braces. -/
def pattern (g : Grammar) : Parser Pattern := do
  if ← accept "[" then
    let ps ← patternList "]" (patternItem g)
    expect "]"
    return .array ps
  else if ← accept "\x7b" then
    let ps ← patternList "\x7d" (patternEntry g)
    expect "\x7d"
    return .object ps
  else boundName

/-! ## Parameters -/

/-- Decorators. -/
def decorators (g : Grammar) : Parser (List Expr) :=
  many (sees "@") do
    advance
    within (fun s => { s with inDecorator := true }) (g.rule .leftHandSide)

/-- A parameter behind its modifiers and dots, with a type and a default. -/
def typedPattern (g : Grammar) : Parser Pattern := do
  let p ← g.rule .pattern
  if ← isTyped then
    let _ ← accept "?"
  annotation g
  withDefault g p

/-- A parameter without the decorators in front of it. -/
def plainParameter (g : Grammar) : Parser Pattern := do
  if ← accept "..." then return .rest (← typedPattern g)
  else
    let _ ← modifiers false
    typedPattern g

/-- A parameter. -/
def parameter (g : Grammar) : Parser Pattern := do
  let ds ← decorators g
  let p ← plainParameter g
  return if ds.isEmpty then p else .decorated ds p

/-- The parameters of a function, with their parentheses.  The type of `this`
can stand first and is none. -/
def parameters (g : Grammar) : Parser (List Pattern) := do
  expect "("
  if (← isTyped) && (← sees "this") then
    advance
    annotation g
    if !(← sees ")") then expect ","
  let ps ← patternList ")" (parameter g)
  expect ")"
  return ps

end EmitLint.Syntax.Grammar
