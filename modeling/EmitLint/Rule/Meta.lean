/-
# What is known about a rule

Name, description, category and default severity of a rule: all that a
configuration or a list of rules needs to know about it.
-/
import EmitLint.Report.Severity

namespace EmitLint

/-- The preset that a rule belongs to. -/
inductive Category
  | essential
  | stronglyRecommended
  | recommended
  /-- In no preset, on request only. -/
  | uncategorized
deriving DecidableEq, Repr

/-- The name of a category. -/
def Category.name : Category → String
  | essential => "Essential"
  | stronglyRecommended => "StronglyRecommended"
  | recommended => "Recommended"
  | uncategorized => "Uncategorized"

/-- What is known about a rule. -/
structure RuleMeta where
  name : String
  description : String
  category : Category
  /-- Whether its reports carry fixes. -/
  fixable : Bool
  /-- Whether its reports carry suggestions. -/
  hasSuggestions : Bool
  defaultSeverity : Severity
deriving DecidableEq, Repr

end EmitLint
