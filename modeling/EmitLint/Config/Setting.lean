/-
# Settings of a rule

A rule is turned off, or reports with one of the two severities.
-/
import EmitLint.Report.Severity

namespace EmitLint

/-- What a configuration says about one rule. -/
inductive Setting
  | off
  | warn
  | error
deriving DecidableEq, Repr, Inhabited

namespace Setting

/-- The severity to report with; `none` when the rule is off. -/
def severity? : Setting → Option Severity
  | off => none
  | warn => some .warning
  | error => some .error

/-- The name under which a setting is written. -/
def name : Setting → String
  | off => "off"
  | warn => "warn"
  | error => "error"

/-- The setting of a name; `warning` is another name for `warn`. -/
def ofName? : String → Option Setting
  | "off" => some off
  | "warn" | "warning" => some warn
  | "error" => some error
  | _ => none

@[simp] theorem ofName?_name (s : Setting) : ofName? s.name = some s := by
  cases s <;> decide

end Setting

/-- The severity of a name; `warn` is another name for `warning`. -/
def Severity.ofName? : String → Option Severity
  | "error" => some .error
  | "warning" | "warn" => some .warning
  | _ => none

end EmitLint
