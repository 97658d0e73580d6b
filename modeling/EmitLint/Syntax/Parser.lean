/-
# Parsers

A parser takes tokens off the front of a script.  It depends on where in the
grammar it is (`Surroundings`) and carries a `State` along.  It either gives
a result or gives up; there is no error text, since nobody asks why.

A parser that gave up leaves its state behind.  `attempt` goes back to the
state before, but keeps what was learned on the way (`State.backTo`): where no
arrow function starts, so that no such place is tried twice, and what tells
modules from other scripts.

Rules that repeat are bounded by the length of the text (`iterate`): a round
that goes on takes at least one token.
-/
import EmitLint.Syntax.Dialect
import EmitLint.Syntax.Token
import EmitLint.Syntax.Tree

namespace EmitLint.Syntax

/-- Where in the grammar a parser is. -/
structure Surroundings where
  dialect : Dialect
  /-- The word `in` is an operator. -/
  allowIn : Bool
  inYield : Bool
  inAwait : Bool
  /-- Outside of all functions. -/
  topLevel : Bool
  inDecorator : Bool
  /-- A type does not go on with `extends`. -/
  plainTypes : Bool
  /-- How often a rule can repeat at most. -/
  rounds : Nat

/-- How far a script has been read. -/
structure State where
  token : Token
  /-- The place behind the token. -/
  next : Place
  /-- Where the token before ended. -/
  lastStop : Nat
  /-- Something was read that should not be written so. -/
  fault : Bool
  /-- Offsets at which no arrow function starts. -/
  noArrows : List Nat
  /-- The values behind `=` in object literals such as `{ a = 1 }`, by the
  offset of their property. -/
  defaults : List (Nat × Expr)
  /-- Something was read that only modules have. -/
  moduleSeen : Bool
  /-- The word `await` was read as a name, outside of all functions. -/
  awaitSeen : Bool

/-- The state before, with what was learned since. -/
def State.backTo (before after : State) : State :=
  { before with
    noArrows := after.noArrows
    moduleSeen := after.moduleSeen
    awaitSeen := after.awaitSeen }

/-- What takes tokens off the front of a script. -/
abbrev Parser (α : Type) := ReaderT Surroundings (EStateM Unit State) α

namespace Parser

variable {α β : Type}

/-- Give up. -/
def giveUp : Parser α := throw ()

/-- Give up unless the condition holds. -/
def check (condition : Bool) : Parser Unit := if condition then pure () else giveUp

def isTyped : Parser Bool := return (← read).dialect.isTyped

def hasJsx : Parser Bool := return (← read).dialect.hasJsx

/-- Note that something was read that only modules have. -/
def noteModule : Parser Unit := modify fun s => { s with moduleSeen := true }

/-- Note that the word `await` was read as a name, outside of all functions. -/
def noteAwait : Parser Unit := modify fun s => { s with awaitSeen := true }

/-! ## Tokens -/

/-- The token at the front. -/
def token : Parser Token := return (← get).token

/-- Take the next token from a place; what was taken before ends there. -/
def resumeAt (p : Place) : Parser Unit := do
  let isModule := (← read).dialect.modules == .module
  modify fun s =>
    let scan := Token.scan isModule false p
    { s with
      token := scan.token
      next := scan.next
      lastStop := p.offset
      fault := s.fault || scan.fault }

/-- Take the token at the front. -/
def advance : Parser Unit := do resumeAt (← get).next

/-- The token behind the one at the front. -/
def peek : Parser Token := do
  let isModule := (← read).dialect.modules == .module
  return (Token.scan isModule false (← get).next).token

/-- A word or punctuator stands at the front. -/
def sees (text : String) : Parser Bool := return (← token).spells text

/-- One of some words or punctuators stands at the front. -/
def seesOneOf (texts : List String) : Parser Bool := return (← token).isOneOf texts

/-- A token of a kind stands at the front. -/
def seesKind (kind : Token.Kind) : Parser Bool := return (← token).kind == kind

/-- A line end stands before the token at the front. -/
def onNewLine : Parser Bool := return (← token).newline

/-- Take a word or punctuator if it stands at the front. -/
def accept (text : String) : Parser Bool := do
  if ← sees text then advance; return true
  else return false

/-- Take a word or punctuator that has to stand at the front. -/
def expect (text : String) : Parser Unit := do check (← accept text)

/-- Take a token of a kind that has to stand at the front. -/
def expectKind (kind : Token.Kind) : Parser Token := do
  let t ← token
  check (t.kind == kind)
  advance
  return t

/-- Take a word that can stand for a variable. -/
def identifier : Parser Token := do
  let t ← token
  check t.isIdentifier
  advance
  return t

/-- A token can stand for a variable here, where `yield` and `await` may be
operators. -/
def namesVariable (t : Token) : Parser Bool := do
  let s ← read
  return t.isIdentifier && !(s.inYield && t.spells "yield") && !(s.inAwait && t.spells "await")

/-- Where the token at the front starts. -/
def here : Parser Nat := return (← token).start

/-- The span from an offset up to the last token that was taken. -/
def spanFrom (start : Nat) : Parser Span := return ⟨start, (← get).lastStop⟩

/-! ## Going back -/

/-- What a parser gives; when it gives up, nothing was taken. -/
def attempt (p : Parser α) : Parser (Option α) := fun surroundings before =>
  match p surroundings before with
  | .ok a after => .ok (some a) after
  | .error () after => .ok none (before.backTo after)

/-- What a parser would give; nothing is taken. -/
def ahead (p : Parser α) : Parser (Option α) := fun surroundings before =>
  match p surroundings before with
  | .ok a after => .ok (some a) (before.backTo after)
  | .error () after => .ok none (before.backTo after)

/-- The condition would hold; nothing is taken. -/
def wouldHold (p : Parser Bool) : Parser Bool := return (← ahead p) == some true

/-- Parse in changed surroundings. -/
def within (change : Surroundings → Surroundings) (p : Parser α) : Parser α :=
  fun s => p (change s)

/-- Parse where `in` is an operator. -/
def withIn (p : Parser α) : Parser α := within (fun s => { s with allowIn := true }) p

/-! ## Repetition -/

/-- Repeat a step as long as it goes on, at most `fuel` times. -/
def iterateWith (step : α → Parser (Option α)) : Nat → α → Parser α
  | 0, _ => giveUp
  | fuel + 1, a => do
      match ← step a with
      | some b => iterateWith step fuel b
      | none => return a

/-- Repeat a step as long as it goes on. -/
def iterate (step : α → Parser (Option α)) (a : α) : Parser α := do
  iterateWith step (← read).rounds a

/-- Items as long as the condition holds. -/
def many (more : Parser Bool) (item : Parser α) : Parser (List α) := do
  let step := fun (items : List α) => do
    if ← more then return some ((← item) :: items) else return none
  return (← iterate step []).reverse

/-- Items up to a closing token, with commas between them and perhaps one
behind the last; the closing token stays.  The flag tells whether a comma
stands behind the last. -/
def listed (close : String) (item : Parser α) : Parser (List α × Bool) := do
  let step := fun ((items, comma) : List α × Bool) => do
    if ← sees close then return none
    else
      check (comma || items.isEmpty)
      let a ← item
      return some (a :: items, ← accept ",")
  let (items, comma) ← iterate step ([], false)
  return (items.reverse, comma)

/-- Items in a pair of brackets, with commas between them. -/
def enclosed (first last : String) (item : Parser α) : Parser (List α) := do
  expect first
  let (items, _) ← listed last item
  expect last
  return items

/-- Items with commas between them. -/
def separated (item : Parser α) : Parser (List α) := do
  let first ← item
  let step := fun (items : List α) => do
    if ← accept "," then return some ((← item) :: items) else return none
  return (← iterate step [first]).reverse

/-! ## Ends of statements -/

/-- A semicolon stands at the front or can be thought of there. -/
def seesEnd : Parser Bool := do
  let t ← token
  return t.newline || t.kind == .endOfText || t.isOneOf [";", "\x7d"]

/-- Take the end of a statement. -/
def semicolon : Parser Unit := do
  check (← seesEnd)
  let _ ← accept ";"

/-! ## Tokens that are read again -/

/-- Take the token at the front to be the first `length` characters of what
stands there. -/
def reshape (text : String) (length : Nat) : Parser Unit :=
  modify fun s =>
    let next := s.token.place.drop length
    { s with token := { s.token with text, stop := next.offset }, next }

/-- Operators that begin with `>`, longer ones before shorter ones. -/
def wideAngles : List String := [">>>=", ">>>", ">>=", ">>", ">="]

/-- Widen a `>` at the front to the operator that stands there. -/
def widenAngle : Parser Unit := do
  let t ← token
  if t.spells ">" then
    match wideAngles.find? t.place.startsWith with
    | some text => reshape text text.length
    | none => return ()

/-- Narrow an operator at the front to the `<` that it begins with; false when
there is none. -/
def narrowAngle : Parser Bool := do
  let t ← token
  if t.spells "<" then return true
  else if t.isOneOf ["<<", "<<="] then reshape "<" 1; return true
  else return false

/-! ## Runs -/

/-- The state at the start of a text.  A first line that begins with `#!` is
passed over. -/
def State.first (isModule : Bool) (text : String) : State :=
  let p := Place.first text
  let p := if p.startsWith "#!" then
      let line := p.rest.takeWhile fun c => !isLineEnd c
      Token.behind p line (p.rest.drop line.length)
    else p
  let scan := Token.scan isModule true p
  { token := scan.token, next := scan.next, lastStop := p.offset, fault := scan.fault,
    noArrows := [], defaults := [], moduleSeen := false, awaitSeen := false }

/-- The surroundings of a whole script of some length. -/
def Surroundings.outermost (dialect : Dialect) (length : Nat) : Surroundings where
  dialect := dialect
  allowIn := true
  inYield := false
  inAwait := dialect.modules == .module
  topLevel := true
  inDecorator := false
  plainTypes := false
  rounds := length + 2

/-- What a parser makes of a whole text. -/
def run? (p : Parser α) (dialect : Dialect) (text : String) : Option α :=
  let isModule := dialect.modules == .module
  match p (Surroundings.outermost dialect text.length) (State.first isModule text) with
  | .ok a _ => some a
  | .error () _ => none

end Parser
end EmitLint.Syntax
