/-
# Counts that are kept up to date

The numbers of errors and warnings are kept beside the reports: in the context
while the rules run, and then in the result, also when the results of several
blocks are merged.  Main statements: `Linter.counts_lintScript` and
`Linter.counts_lintSfc`.  They are always the numbers of the reports of each
severity.

This holds for any rules, as long as these take in their reports by
`Context.report`; for a rule has no other way to the reports in its context.
`Context.Built` lists what can be done with one.
-/
import EmitLint.Linter

namespace EmitLint

/-! ## What rules can do -/

/-- A context as a rule may leave it: a new one, with reports taken in and any of the other fields
set anew. -/
inductive Context.Built : Context → Prop
  | new (source filename : String) (kind : ScriptKind) : Built (.new source filename kind)
  | report {c : Context} (d : Diagnostic) : Built c → Built (c.report d)
  | set {c : Context} (source filename : String) (kind : ScriptKind) (componentFile : Bool)
      (rule : String) (severity : Severity) : Built c →
      Built { c with source, filename, kind, componentFile, rule, severity }

theorem Context.Built.counts {c : Context} (h : c.Built) : c.Counts := by
  induction h with
  | new source filename kind => exact counts_new source filename kind
  | report d _ ih => exact counts_report ih d
  | set _ _ _ _ _ _ _ ih => exact ih

/-- The rule does with a context what can be done with one. -/
def Rule.Lawful (rule : Rule) : Prop :=
  ∀ c program, c.Built → (rule.check c program).Built

theorem EmitValidator.built_reportEmit {c : Context} (h : c.Built) (e : Component.Emit) :
    (reportEmit c e).Built := by
  unfold reportEmit
  split
  · exact .report _ h
  · exact h

theorem EmitValidator.built_foldl_reportEmit {c : Context} (h : c.Built)
    (es : List Component.Emit) : (es.foldl reportEmit c).Built := by
  induction es generalizing c with
  | nil => exact h
  | cons e es ih => exact ih (built_reportEmit h e)

theorem EmitValidator.lawful_rule : rule.Lawful := by
  intro c program h
  show (check c program).Built
  unfold check
  split
  · exact built_foldl_reportEmit h _
  · exact h

/-! ## Counts of lists -/

theorem Severity.countIn_append (severity : Severity) (as bs : List Diagnostic) :
    severity.countIn (as ++ bs) = severity.countIn as + severity.countIn bs :=
  List.countP_append

theorem Severity.countIn_shift (severity : Severity) (ds : List Diagnostic) (offset : Nat) :
    severity.countIn (ds.map (·.shift offset)) = severity.countIn ds := by
  rw [countIn, List.countP_map]
  rfl

/-! ## Results -/

namespace LintResult

/-- The counts are those of the reports. -/
def Counts (r : LintResult) : Prop :=
  r.errorCount = Severity.error.countIn r.diagnostics ∧
    r.warningCount = Severity.warning.countIn r.diagnostics

theorem counts_empty (filename : String) : (empty filename).Counts := ⟨rfl, rfl⟩

theorem counts_merge {a b : LintResult} (ha : a.Counts) (hb : b.Counts) : (a.merge b).Counts := by
  constructor
  · rw [merge, Severity.countIn_append, ha.1, hb.1]
  · rw [merge, Severity.countIn_append, ha.2, hb.2]

theorem counts_shift {r : LintResult} (h : r.Counts) (offset : Nat) : (r.shift offset).Counts := by
  constructor
  · rw [shift, Severity.countIn_shift]
    exact h.1
  · rw [shift, Severity.countIn_shift]
    exact h.2

/-- The counts follow from the reports. -/
theorem eq_of_counts {r r' : LintResult} (hr : r.Counts) (hr' : r'.Counts)
    (hfilename : r.filename = r'.filename) (hdiagnostics : r.diagnostics = r'.diagnostics) :
    r = r' := by
  have herrors : r.errorCount = r'.errorCount := by rw [hr.1, hr'.1, hdiagnostics]
  have hwarnings : r.warningCount = r'.warningCount := by rw [hr.2, hr'.2, hdiagnostics]
  cases r
  cases r'
  rw [mk.injEq]
  exact ⟨hfilename, hdiagnostics, herrors, hwarnings⟩

end LintResult

/-! ## What a linter counts -/

namespace Linter

variable {l : Linter} {source filename : String}

theorem built_runRule {rule : Rule} (hrule : rule.Lawful) {c : Context} (h : c.Built)
    (program : Syntax.Program) : (l.runRule program c rule).Built := by
  unfold runRule
  split
  · exact hrule _ program (.set c.source c.filename c.kind c.componentFile _ _ h)
  · exact h

theorem built_runRules (hlawful : ∀ rule ∈ l.registry, rule.Lawful) {c : Context} (h : c.Built)
    (program : Syntax.Program) : (l.runRules c program).Built := by
  unfold runRules
  generalize l.registry = registry at hlawful
  induction registry generalizing c with
  | nil => exact h
  | cons rule registry ih =>
      obtain ⟨hrule, hrest⟩ := List.forall_mem_cons.mp hlawful
      exact ih (built_runRule hrule h program) hrest

theorem counts_lintSource (hlawful : ∀ rule ∈ l.registry, rule.Lawful) (source filename : String)
    (kind : ScriptKind) (dialect : Syntax.Dialect) (componentFile : Bool) :
    (l.lintSource source filename kind dialect componentFile).Counts := by
  unfold lintSource
  split
  · exact LintResult.counts_empty filename
  · rename_i program _
    have hnew : ((Context.new source filename kind).withComponentFile componentFile).Built :=
      .set source filename kind componentFile "" .warning (.new source filename kind)
    exact (built_runRules hlawful hnew program).counts

theorem counts_lintScript (hlawful : ∀ rule ∈ l.registry, rule.Lawful) (source filename : String)
    (kind : ScriptKind) : (l.lintScript source filename kind).Counts :=
  counts_lintSource hlawful source filename kind _ _

theorem counts_lintBlock (hlawful : ∀ rule ∈ l.registry, rule.Lawful) (filename : String)
    (b : Sfc.ScriptBlock) : (l.lintBlock filename b).Counts :=
  LintResult.counts_shift (counts_lintSource hlawful b.content filename b.kind _ _) b.offset

/-- However many blocks are merged. -/
theorem counts_foldl_merge (hlawful : ∀ rule ∈ l.registry, rule.Lawful) (filename : String)
    (blocks : List Sfc.ScriptBlock) {r : LintResult} (h : r.Counts) :
    (blocks.foldl (fun r b => r.merge (l.lintBlock filename b)) r).Counts := by
  induction blocks generalizing r with
  | nil => exact h
  | cons b blocks ih => exact ih (LintResult.counts_merge h (counts_lintBlock hlawful filename b))

theorem counts_lintSfc (hlawful : ∀ rule ∈ l.registry, rule.Lawful) {r : LintResult}
    (h : l.lintSfc source filename = .ok r) : r.Counts := by
  rw [lintSfc] at h
  cases hblocks : Sfc.extractScriptBlocks source with
  | error e =>
      rw [hblocks] at h
      cases h
  | ok blocks =>
      rw [hblocks] at h
      obtain rfl := Except.ok.inj h
      exact counts_foldl_merge hlawful filename blocks (LintResult.counts_empty filename)

end Linter
end EmitLint
