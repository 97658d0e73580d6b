/-
# The reports of one run

A rule is given a context and answers with one.  Here the answer is put as a
list: `reports c es` are the reports on the declarations `es`, and they are
what a run appends (`check_diagnostics`).  Nothing else in the context that a
report depends on changes on the way.
-/
import EmitLint.Proofs.Syntax.Rewriting
import EmitLint.Rule.EmitValidator

namespace EmitLint.EmitValidator

open Component Syntax

/-! ## Verdicts on like values -/

/-- Both verdicts are of one kind. -/
inductive SameVerdict : Validation → Validation → Prop
  | hasValidator : SameVerdict .hasValidator .hasValidator
  | missing : SameVerdict .missing .missing
  | skipped {s s' : Span} : SameVerdict (.skipped s) (.skipped s')

theorem SameVerdict.symm {v w : Validation} (h : SameVerdict v w) : SameVerdict w v := by
  cases h with
  | hasValidator => exact .hasValidator
  | missing => exact .missing
  | skipped => exact .skipped

theorem SameVerdict.trans {u v w : Validation} (h : SameVerdict u v) (h' : SameVerdict v w) :
    SameVerdict u w := by
  cases h with
  | hasValidator => exact h'
  | missing => exact h'
  | skipped =>
      cases h' with
      | skipped => exact .skipped

section
variable {n n' k k' : Option String} {s s' : Span} {e e' : Expr}

/-- A value is judged by its head. -/
theorem sameVerdict_exprHead :
    SameVerdict (classify ⟨n, k, some e, s⟩) (classify ⟨n', k', some (exprHead e), s'⟩) := by
  cases e with
  | name u text =>
      show SameVerdict (if _ then _ else _) (if _ then _ else _)
      split
      · exact .missing
      · exact .hasValidator
  | null u => exact .skipped
  | function u fn => exact .hasValidator
  | arrow u fn => exact .hasValidator
  | _ => exact .missing

theorem sameVerdict_value (h : exprHead e = exprHead e') :
    SameVerdict (classify ⟨n, k, some e, s⟩) (classify ⟨n', k', some e', s'⟩) := by
  have hhead : SameVerdict (classify ⟨n, k, some e, s⟩) (classify ⟨n, k, some (exprHead e'), s⟩) :=
    h ▸ sameVerdict_exprHead
  exact hhead.trans sameVerdict_exprHead.symm

end

/-! ## Reports -/

/-- What a report says, and not where. -/
def gist (d : Diagnostic) : String × Option String × Severity × String :=
  (d.messageId, d.subject, d.severity, d.message)

/-- The reports on declarations. -/
def reports (c : Context) (es : List Emit) : List Diagnostic := es.filterMap (diagnostic? c)

section
variable {c : Context} {es : List Emit} {d : Diagnostic}

theorem reports_cons (c : Context) (e : Emit) (es : List Emit) :
    reports c (e :: es) = (diagnostic? c e).toList ++ reports c es := by
  rw [reports, List.filterMap_cons]
  cases diagnostic? c e <;> rfl

/-- A report depends on the name of the rule and the severity, and on nothing else. -/
theorem diagnostic?_congr {c c' : Context} (hrule : c.rule = c'.rule)
    (hseverity : c.severity = c'.severity) (e : Emit) : diagnostic? c e = diagnostic? c' e := by
  rw [diagnostic?, diagnostic?, Context.diagnostic, Context.diagnostic, Context.diagnostic,
    Context.diagnostic, hrule, hseverity]

theorem report_diagnostics (c : Context) (d : Diagnostic) :
    (c.report d).diagnostics = c.diagnostics ++ [d] := by
  unfold Context.report
  split <;> rfl

theorem report_rule (c : Context) (d : Diagnostic) : (c.report d).rule = c.rule := by
  unfold Context.report
  split <;> rfl

theorem report_severity (c : Context) (d : Diagnostic) : (c.report d).severity = c.severity := by
  unfold Context.report
  split <;> rfl

theorem foldl_reportEmit (c : Context) (es : List Emit) :
    (es.foldl reportEmit c).diagnostics = c.diagnostics ++ reports c es := by
  induction es generalizing c with
  | nil => exact (List.append_nil _).symm
  | cons e es ih =>
      rw [List.foldl_cons, ih, reports, reports, List.filterMap_cons, reportEmit]
      cases h : diagnostic? c e with
      | none => rfl
      | some d =>
          have hcongr : diagnostic? (c.report d) = diagnostic? c :=
            funext (diagnostic?_congr (report_rule c d) (report_severity c d))
          rw [hcongr, report_diagnostics, List.append_assoc]
          rfl

theorem unfiltered_diagnostics (c : Context) (program : Program) :
    (unfiltered c program).diagnostics = c.diagnostics ++ reports c (emitsOf c.mode program) :=
  foldl_reportEmit c (emitsOf c.mode program)

/-- A run appends the reports on the declarations of the program. -/
theorem check_diagnostics (program : Program) (h : mentionsEmits c.source = true) :
    (check c program).diagnostics = c.diagnostics ++ reports c (emitsOf c.mode program) := by
  rw [check, if_pos h, unfiltered_diagnostics]

theorem check_of_not_mentions (program : Program) (h : mentionsEmits c.source ≠ true) :
    check c program = c := if_neg h

/-- What no report changes, no run changes. -/
theorem check_unchanged {α : Type} {f : Context → α} (hreport : ∀ c d, f (c.report d) = f c)
    (c : Context) (program : Program) : f (check c program) = f c := by
  have hfold : ∀ (es : List Emit) (c : Context), f (es.foldl reportEmit c) = f c := by
    intro es
    induction es with
    | nil => exact fun _ => rfl
    | cons e es ih =>
        intro c
        rw [List.foldl_cons, ih, reportEmit]
        split
        · exact hreport c _
        · rfl
  unfold check
  split
  · exact hfold _ c
  · rfl

theorem mem_reports : d ∈ reports c es ↔ ∃ e ∈ es, diagnostic? c e = some d := List.mem_filterMap

/-- The two kinds of reports. -/
theorem diagnostic?_eq_some {e : Emit} (h : diagnostic? c e = some d) :
    (classify e = .missing ∧ d = ((c.diagnostic "missing" (missingMessage e.displayName)
      e.span).withSubject e.displayName)) ∨
    ∃ t, classify e = .skipped t ∧ d = (((c.diagnostic "skipped" (skippedMessage e.displayName)
      e.span).withSuggestion (suggestion t)).withSubject e.displayName) := by
  unfold diagnostic? at h
  cases hclass : classify e with
  | hasValidator => rw [hclass] at h; cases h
  | missing => rw [hclass] at h; exact .inl ⟨rfl, (Option.some.inj h).symm⟩
  | skipped t => rw [hclass] at h; exact .inr ⟨t, rfl, (Option.some.inj h).symm⟩

end
end EmitLint.EmitValidator
