/-
# A context from step to step

While rules run, the fields of a context are set, reports are taken in, and the rule on
validators goes over programs, in any order.  `Context.Step` lists these steps and
`Context.run` takes them one after the other.

Main statement: `Context.run_keeps`.  After any steps the counts are those of the
reports; what was reported stays, in front of all that comes; a report is appended as
it is; and when the rule goes over a program, it appends what it would report into a
new context with the same settings.  Neither of the two changes anything else.

One step: `Step.built_apply` and `Step.diagnostics_apply`.  A run takes them up by
induction.
-/
import EmitLint.Proofs.Linter.Settings

namespace EmitLint.Context

open EmitValidator Syntax

/-- What can be done with a context while rules run. -/
inductive Step
  | setKind (kind : ScriptKind)
  | setComponentFile (componentFile : Bool)
  | setRule (name : String)
  | setSeverity (severity : Severity)
  /-- Take in a report.  It need not be as it was made: its severity may have been set anew. -/
  | report (d : Diagnostic)
  | check (program : Program)

def Step.apply (c : Context) : Step → Context
  | .setKind kind => { c with kind }
  | .setComponentFile componentFile => { c with componentFile }
  | .setRule name => { c with rule := name }
  | .setSeverity severity => { c with severity }
  | .report d => c.report d
  | .check program => EmitValidator.check c program

/-- The steps one after the other. -/
def run (c : Context) (steps : List Step) : Context := steps.foldl Step.apply c

/-- A new context with the settings of another one; its file may have any name. -/
def fresh (c : Context) (filename : String) : Context :=
  { new c.source filename c.kind with
    componentFile := c.componentFile
    rule := c.rule
    severity := c.severity }

/-- The context with these reports in it, counted; all other fields are as they were. -/
def withReports (c : Context) (ds : List Diagnostic) : Context :=
  { c with
    diagnostics := ds
    errorCount := Severity.error.countIn ds
    warningCount := Severity.warning.countIn ds }

/-- What a step adds to the reports. -/
def Step.reports (c : Context) : Step → List Diagnostic
  | .report d => [d]
  | .check program => findings c program
  | _ => []

/-- The fields that are no reports. -/
def settings (c : Context) : String × String × ScriptKind × Bool × String × Severity :=
  (c.source, c.filename, c.kind, c.componentFile, c.rule, c.severity)

variable {c c' : Context}

/-! ## Contexts with the same settings -/

/-- Where the counts are right, a context is told by its settings and its reports. -/
theorem eq_withReports (hcounts : c'.Counts) (hsettings : c'.settings = c.settings) :
    c' = c.withReports c'.diagnostics := by
  obtain ⟨herrors, hwarnings⟩ := hcounts
  cases c
  cases c'
  simp only [settings, Prod.mk.injEq] at hsettings
  obtain ⟨rfl, rfl, rfl, rfl, rfl, rfl⟩ := hsettings
  rw [withReports, ← herrors, ← hwarnings]

theorem settings_report (c : Context) (d : Diagnostic) : (c.report d).settings = c.settings := by
  unfold report
  split <;> rfl

/-- The rule finds the same in a new context. -/
theorem findings_fresh (c : Context) (filename : String) (program : Program) :
    findings (c.fresh filename) program = findings c program := by
  have hreports : diagnostic? (c.fresh filename) = diagnostic? c :=
    funext (diagnostic?_congr rfl rfl)
  rw [findings, findings, EmitValidator.reports, EmitValidator.reports, hreports]
  rfl

theorem diagnostics_check_fresh (c : Context) (filename : String) (program : Program) :
    (check (c.fresh filename) program).diagnostics = findings c program := by
  rw [check_findings, findings_fresh]
  exact List.nil_append _

/-! ## One step -/

namespace Step

theorem built_apply (h : c.Built) (step : Step) : (step.apply c).Built := by
  obtain ⟨source, filename, kind, componentFile, rule, severity, ds, errors, warnings⟩ := c
  cases step with
  | setKind kind => exact .set source filename kind componentFile rule severity h
  | setComponentFile componentFile => exact .set source filename kind componentFile rule severity h
  | setRule name => exact .set source filename kind componentFile name severity h
  | setSeverity severity => exact .set source filename kind componentFile rule severity h
  | report d => exact .report d h
  | check program => exact lawful_rule _ program h

/-- Every step appends. -/
theorem diagnostics_apply (c : Context) (step : Step) :
    (step.apply c).diagnostics = c.diagnostics ++ step.reports c := by
  cases step with
  | report d => exact report_diagnostics c d
  | check program => exact check_findings c program
  | _ => exact (List.append_nil _).symm

end Step

/-- A step that leaves the settings alone changes the reports and their counts and nothing else. -/
theorem apply_eq_withReports (h : c.Built) (step : Step)
    (hsettings : (step.apply c).settings = c.settings) :
    step.apply c = c.withReports (c.diagnostics ++ step.reports c) := by
  rw [← Step.diagnostics_apply]
  exact eq_withReports (Step.built_apply h step).counts hsettings

theorem report_eq_withReports (h : c.Built) (d : Diagnostic) :
    c.report d = c.withReports (c.diagnostics ++ [d]) :=
  apply_eq_withReports h (.report d) (settings_report c d)

theorem check_eq_withReports (h : c.Built) (filename : String) (program : Program) :
    check c program = c.withReports
      (c.diagnostics ++ (check (c.fresh filename) program).diagnostics) := by
  rw [diagnostics_check_fresh]
  exact apply_eq_withReports h (.check program)
    (check_unchanged settings_report c program)

/-! ## Whole runs -/

theorem built_run (h : c.Built) (steps : List Step) : (c.run steps).Built := by
  induction steps generalizing c with
  | nil => exact h
  | cons step steps ih => exact ih (Step.built_apply h step)

theorem diagnostics_prefix_run (c : Context) (steps : List Step) :
    c.diagnostics <+: (c.run steps).diagnostics := by
  induction steps generalizing c with
  | nil => exact List.prefix_refl _
  | cons step steps ih =>
      have hstep : c.diagnostics <+: (step.apply c).diagnostics := by
        rw [Step.diagnostics_apply]
        exact List.prefix_append _ _
      exact hstep.trans (ih (step.apply c))

/-- After any steps from a new context the counts are those of the reports; whatever steps come
next, the reports stay and stand in front; a report is appended as it is; and the rule appends what
it reports into a fresh context with the same settings.  These two change no other field. -/
theorem run_keeps (source filename : String) (kind : ScriptKind) (steps : List Step) :
    let c := (new source filename kind).run steps
    c.Counts ∧
    (∀ next, (c.run next).Counts ∧ c.diagnostics <+: (c.run next).diagnostics) ∧
    (∀ d, (Step.report d).apply c = c.withReports (c.diagnostics ++ [d])) ∧
    ∀ program other, (Step.check program).apply c = c.withReports
      (c.diagnostics ++ (check (c.fresh other) program).diagnostics) := by
  intro c
  have hbuilt : c.Built := built_run (.new source filename kind) steps
  refine ⟨hbuilt.counts, fun next => ⟨(built_run hbuilt next).counts, ?_⟩, ?_, ?_⟩
  · exact diagnostics_prefix_run c next
  · intro d
    exact report_eq_withReports hbuilt d
  · intro program other
    exact check_eq_withReports hbuilt other program

/-- A report that was made as a warning. -/
def exampleReport : Diagnostic := .plain "another" "odd" .warning "odd" ⟨0, 9⟩

/-- The severity is set to that of errors, and the report stays a warning; what the rule reports
next is an error and stands behind it. -/
theorem run_keeps_three_steps :
    let run := (new exampleBlock.content "A.ts" .plain).run
    let c := run [.setSeverity .error, .report exampleReport, .check exampleScript]
    c.diagnostics.map (fun d => (d.severity, d.span)) =
        [(.warning, ⟨0, 9⟩), (.error, ⟨18, 24⟩)] ∧
      c.errorCount = 1 ∧ c.warningCount = 1 ∧ c.severity = .error := by
  intro run c
  obtain ⟨-, -, hreport, -⟩ :=
    run_keeps exampleBlock.content "A.ts" .plain [.setSeverity .error]
  obtain ⟨-, -, -, hcheck⟩ :=
    run_keeps exampleBlock.content "A.ts" .plain [.setSeverity .error, .report exampleReport]
  have hreported : (run [.setSeverity .error, .report exampleReport]).diagnostics =
      [exampleReport] :=
    congrArg diagnostics (hreport exampleReport)
  have hc : c = _ := hcheck exampleScript "B.ts"
  rw [hc, withReports, hreported]
  refine ⟨?_, ?_, ?_, rfl⟩ <;> decide

end EmitLint.Context
