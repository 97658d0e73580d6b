/-
# Configurations

A configuration names a schema for editors and sets rules.  A rule without a
setting reports with its default severity.
-/
import EmitLint.Config.RuleMap
import EmitLint.Rule.Basic

namespace EmitLint

/-- What a configuration file says. -/
structure Config where
  schema : Option String
  rules : RuleMap
deriving Inhabited

namespace Config

/-- The configuration that says nothing. -/
def empty : Config := ⟨none, .empty⟩

/-- Set a rule. -/
def set (c : Config) (rule : String) (setting : Setting) : Config :=
  { c with rules := c.rules.set rule setting }

/-- The severity that a rule reports with; `none` when it is off. -/
def severityFor (c : Config) (info : RuleMeta) : Option Severity :=
  match c.rules.get? info.name with
  | some setting => setting.severity?
  | none => some info.defaultSeverity

/-- The least name that has a setting but no rule. -/
def unknownRule? (c : Config) (registry : Registry) : Option String :=
  c.rules.names.find? fun name => (registry.get? name).isNone

end Config
end EmitLint
