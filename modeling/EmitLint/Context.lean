/-
# What a rule works with

A `Context` holds what a rule may look at while it checks one script, and
collects what it reports.  Beside the reports it keeps their number by
severity up to date.
-/
import EmitLint.Component.Site
import EmitLint.Report.Summary

namespace EmitLint

/-- One script under a rule, and the reports so far. -/
structure Context where
  source : String
  filename : String
  kind : ScriptKind
  /-- An object that the script exports as default is a component. -/
  componentFile : Bool
  /-- The rule at work. -/
  rule : String
  /-- How gravely it reports. -/
  severity : Severity
  diagnostics : List Diagnostic
  errorCount : Nat
  warningCount : Nat

/-- Files whose default export is a component. -/
def isComponentFilename (filename : String) : Bool :=
  filename.endsWith ".vue" || filename.endsWith ".jsx" || filename.endsWith ".tsx"

namespace Context

/-- A context before any rule, without reports. -/
def new (source filename : String) (kind : ScriptKind) : Context where
  source := source
  filename := filename
  kind := kind
  componentFile := isComponentFilename filename
  rule := ""
  severity := .warning
  diagnostics := []
  errorCount := 0
  warningCount := 0

/-- Say whether the default export is a component, whatever the file name. -/
def withComponentFile (c : Context) (componentFile : Bool) : Context := { c with componentFile }

/-- A report of the rule at work. -/
def diagnostic (c : Context) (messageId message : String) (span : Span) : Diagnostic :=
  .plain c.rule messageId c.severity message span

/-- Take in a report. -/
def report (c : Context) (d : Diagnostic) : Context :=
  let c := { c with diagnostics := c.diagnostics ++ [d] }
  match d.severity with
  | .error => { c with errorCount := c.errorCount + 1 }
  | .warning => { c with warningCount := c.warningCount + 1 }

/-- What a walk over the script takes for a site. -/
def mode (c : Context) : Component.Mode := ⟨c.kind, c.componentFile⟩

/-- The counts are those of the reports. -/
def Counts (c : Context) : Prop :=
  c.errorCount = Severity.error.countIn c.diagnostics ∧
    c.warningCount = Severity.warning.countIn c.diagnostics

theorem counts_new (source filename : String) (kind : ScriptKind) :
    (new source filename kind).Counts := ⟨rfl, rfl⟩

theorem counts_report {c : Context} (h : c.Counts) (d : Diagnostic) : (c.report d).Counts := by
  obtain ⟨he, hw⟩ := h
  cases hd : d.severity <;>
    simp [report, hd, Counts, Severity.countIn, List.countP_append, he, hw]

end Context
end EmitLint
