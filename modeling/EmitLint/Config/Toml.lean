/-
# Configurations in TOML

The same content as in JSON: a string under `$schema` and a table of
settings under `rules`.  A setting is its name, or a table that holds the
name with an empty table or an empty array.
-/
import EmitLint.Config.Basic
import EmitLint.Toml.Document

namespace EmitLint.Config

open Toml

/-- A setting. -/
def settingOfItem? : Item → Option Setting
  | .text name => Setting.ofName? name
  | .table _ [(name, .table _ [])] | .table _ [(name, .array [])] => Setting.ofName? name
  | _ => none

/-- Settings by rule name. -/
def rulesOfItem? : Item → Option RuleMap
  | .table _ entries => do
      let settings ← entries.mapM fun e => do return (e.1, ← settingOfItem? e.2)
      return .ofList settings
  | _ => none

/-- The configuration that a document makes up. -/
def ofEntries? (t : Entries) : Option Config := do
  let schema ← match t.get? "$schema" with
    | none => some none
    | some (.text s) => some (some s)
    | some _ => none
  let rules ← match t.get? "rules" with
    | none => some .empty
    | some item => rulesOfItem? item
  return ⟨schema, rules⟩

/-- The configuration that a TOML text holds. -/
def ofToml? (text : String) : Option Config := (Toml.read text).bind ofEntries?

end EmitLint.Config
