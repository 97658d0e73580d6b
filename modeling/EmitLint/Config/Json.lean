/-
# Configurations in JSON

A configuration is an object with the members `$schema` (a string or `null`)
and `rules` (an object of settings by rule name); both may be missing, and
members of other names are passed over.  A second member of one of the two
names is an error, a second setting of a rule takes the place of the first.
An array of the two values, without the second or without both, is read too.

A setting is its name, or an object that holds the name with `null`.
-/
import EmitLint.Config.Basic
import EmitLint.Json.Reader

namespace EmitLint.Config

open Json

/-- Settings by rule name. -/
def readRules : Reader RuleMap :=
  object (fun rules name => do
    colon
    return rules.set name (← choice Setting.ofName?)) .empty

/-- The members met so far. -/
structure Draft where
  schema : Option (Option String) := none
  rules : Option RuleMap := none

/-- The configuration that the members make up. -/
def Draft.config (d : Draft) : Config := ⟨d.schema.getD none, d.rules.getD .empty⟩

/-- Take in the member of a name. -/
def readMember (d : Draft) (name : String) : Reader Draft := do
  if name = "$schema" then
    if d.schema.isSome then stop .mismatched
    colon
    return { d with schema := some (← optionalString) }
  else if name = "rules" then
    if d.rules.isSome then stop .mismatched
    colon
    return { d with rules := some (← readRules) }
  else
    colon
    skipValue
    return d

/-- Whether another element stands in an array, at whose closing bracket the
text stays. -/
def nextElement (first : Bool) : Reader Bool := do
  match ← peek with
  | none => stop .truncated
  | some ']' => return false
  | some c => do
      if !first then
        if c = ',' then advance else stop .malformed
      match ← peek with
      | none => stop .truncated
      | some ']' => stop .malformed
      | some _ => return true

/-- The end of an array. -/
def endElements : Reader Unit := do
  match ← peek with
  | some ']' => advance
  | some _ => stop .malformed
  | none => stop .truncated

/-- The array form, behind its opening bracket. -/
def readElements : Reader Config := do
  let schema ← if ← nextElement true then optionalString else pure none
  let rules ← if ← nextElement false then readRules else pure .empty
  endElements
  return ⟨schema, rules⟩

/-- A configuration. -/
def readJson : Reader Config := do
  match ← peek with
  | some '[' => do advance; readElements
  | _ => return (← object readMember {}).config

/-- The configuration that a JSON text holds. -/
def ofJson (text : String) : Except Fault Config := readAll readJson text

/-- The severity that a JSON text names. -/
def severityOfJson (text : String) : Except Fault Severity :=
  readAll (choice Severity.ofName?) text

/-- The setting that a JSON text names. -/
def settingOfJson (text : String) : Except Fault Setting :=
  readAll (choice Setting.ofName?) text

end EmitLint.Config
