/-
# Severity

How grave a report is.  The two words below are the ones that reports carry.
-/

namespace EmitLint

/-- How grave a report is. -/
inductive Severity
  | error
  | warning
deriving DecidableEq, Repr, Inhabited

/-- The word that a report carries for a severity. -/
def Severity.name : Severity → String
  | error => "error"
  | warning => "warning"

theorem Severity.name_inj {a b : Severity} : a.name = b.name ↔ a = b := by
  cases a <;> cases b <;> decide

end EmitLint
