/-
# Keys and modifiers

The keys of properties and members, and the words that can stand in front of
a declaration, a parameter or a member.  Such a word is only a modifier if
what it could modify follows; otherwise it is a name like any other.
-/
import EmitLint.Syntax.Grammar

namespace EmitLint.Syntax.Grammar

open EmitLint.Syntax.Parser

/-- The key of a property or a member, which can be private in a class. -/
def key (g : Grammar) (inClass : Bool) : Parser Key := do
  let t ← token
  match t.kind with
  | .word => advance; return .name t.span t.text
  | .string => advance; return .expr false (.string t.span t.text)
  | .number => advance; return .expr false (.number t.span t.text)
  | .bigint => advance; return .expr false (.atom t.span)
  | .privateName =>
      check inClass
      advance
      return .privateName t.span t.text
  | _ =>
      expect "["
      let e ← g.value
      expect "]"
      return .expr true e

/-- A token that a key can begin with. -/
def beginsKey (t : Token) : Bool :=
  t.kind == .word || t.kind == .string || t.kind == .number || t.kind == .bigint

/-- Modifiers. -/
def modifierWords : List String :=
  ["abstract", "accessor", "async", "const", "declare", "default", "export", "in", "public",
    "private", "protected", "readonly", "static", "out", "override"]

/-- A token that a modifier can stand in front of. -/
def canFollowModifier (t : Token) : Bool :=
  beginsKey t || t.kind == .privateName || t.isOneOf ["[", "\x7b", "*", "..."]

/-- A declaration that can be the default of a module starts at the front. -/
def seesDefault : Parser Bool := do
  let after ← peek
  if ← sees "abstract" then return after.spells "class" && !after.newline
  else if ← sees "async" then return after.spells "function" && !after.newline
  else seesOneOf ["class", "function", "interface", "@"]

/-- The word at the front modifies what follows. -/
def isModifier : Parser Bool := do
  let t ← token
  let after ← peek
  if t.spells "const" then return after.spells "enum"
  else if t.spells "default" then wouldHold (do advance; seesDefault)
  else if t.spells "export" then
    return canFollowModifier after && !after.isOneOf ["*", "as", "\x7b"]
  else if t.isOneOf ["static", "get", "set"] then return canFollowModifier after
  else return !after.newline && canFollowModifier after

/-- Take the word if it stands at the front and modifies what follows. -/
def acceptModifier (word : String) : Parser Bool := do
  if (← sees word) && (← isModifier) then advance; return true
  else return false

/-- Whether a modifier stands in front of a member; a static block is none,
and `static` modifies once. -/
def seesModifier (seen : List String) (withConst : Bool) : Parser Bool := do
  let t ← token
  let after ← peek
  if t.spells "const" then return withConst && !after.newline && canFollowModifier after
  else if t.spells "static" && (seen.contains "static" || after.spells "\x7b") then return false
  else return t.isOneOf modifierWords && (← isModifier)

/-- The modifiers at the front, the last one first. -/
def modifiers (withConst : Bool) : Parser (List String) := do
  let step := fun (seen : List String) => do
    if ← seesModifier seen withConst then
      let t ← token
      advance
      return some (t.text :: seen)
    else return none
  iterate step []

end EmitLint.Syntax.Grammar
