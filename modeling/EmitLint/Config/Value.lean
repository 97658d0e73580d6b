/-
# Configurations as JSON values

The value that a configuration is written as: the schema only where there is
one, then the settings by rule name.
-/
import EmitLint.Config.Basic
import EmitLint.Json.Value

namespace EmitLint.Config

open Json (Value)

/-- The value of a configuration when its settings are listed as in `rules`. -/
def valueListing (c : Config) (rules : List (String × Setting)) : Value :=
  .object (c.schema.toList.map (fun text => ("$schema", .string text)) ++
    [("rules", .object (rules.map fun e => (e.1, .string e.2.name)))])

/-- The value of a configuration, the settings in the order of the names. -/
def value (c : Config) : Value := c.valueListing c.rules.entries

end EmitLint.Config
