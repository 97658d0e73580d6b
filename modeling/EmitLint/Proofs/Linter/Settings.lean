/-
# What settings change

A linter that has the rule on emit validators any number of times, under any
configuration.  Main statement: `settings_gate_and_label`.  The configuration
decides whether the rule runs and how gravely it reports, by its setting for this
rule and by nothing else.  What is reported is what the rule reports by default,
once for each time that it stands in the registry, block after block.
-/
import EmitLint.Proofs.Linter.Counts
import EmitLint.Proofs.Sfc.EntryPoints

namespace EmitLint

/-- The report under another severity. -/
def Diagnostic.withSeverity (d : Diagnostic) (severity : Severity) : Diagnostic :=
  { d with severity }

/-- A result with these reports under one severity; without one, there are none. -/
def LintResult.labelled (filename : String) (severity? : Option Severity)
    (ds : List Diagnostic) : LintResult :=
  match severity? with
  | some severity =>
      { filename
        diagnostics := ds.map (·.withSeverity severity)
        errorCount := if severity = .error then ds.length else 0
        warningCount := if severity = .warning then ds.length else 0 }
  | none => .empty filename

/-- The list so many times, one behind the other. -/
def copies {α : Type} (n : Nat) (as : List α) : List α := (List.replicate n as).flatten

section
variable {α β : Type}

theorem copies_zero (as : List α) : copies 0 as = [] := rfl

theorem copies_succ (n : Nat) (as : List α) : copies (n + 1) as = as ++ copies n as := by
  rw [copies, List.replicate_succ, List.flatten_cons, copies]

theorem copies_nil (n : Nat) : copies n ([] : List α) = [] := List.flatten_replicate_nil

theorem map_copies (f : α → β) (n : Nat) (as : List α) :
    (copies n as).map f = copies n (as.map f) := by
  rw [copies, List.map_flatten, List.map_replicate, copies]

end

/-! ## One run of the rule -/

namespace EmitValidator

open Component Syntax

variable {c : Context} {program : Program}

/-- The context in which the rule runs. -/
def atWork (c : Context) (severity : Severity) : Context :=
  { c with rule := info.name, severity }

/-- What a run of the rule appends. -/
def findings (c : Context) (program : Program) : List Diagnostic :=
  if mentionsEmits c.source then reports c (emitsOf c.mode program) else []

theorem check_findings (c : Context) (program : Program) :
    (check c program).diagnostics = c.diagnostics ++ findings c program := by
  unfold findings
  split
  · rename_i hmentions
    exact check_diagnostics program hmentions
  · rename_i hmentions
    rw [check_of_not_mentions program hmentions, List.append_nil]

theorem report_source (c : Context) (d : Diagnostic) : (c.report d).source = c.source := by
  unfold Context.report
  split <;> rfl

/-- A further run finds what the first one found. -/
theorem findings_again (c : Context) (severity : Severity) (program : Program) :
    findings (atWork (check (atWork c severity) program) severity) program =
      findings (atWork c severity) program := by
  have hsource : (check (atWork c severity) program).source = c.source :=
    check_unchanged report_source _ program
  have hmode : (check (atWork c severity) program).mode = c.mode :=
    check_unchanged report_mode _ program
  have hreports : diagnostic? (atWork (check (atWork c severity) program) severity) =
      diagnostic? (atWork c severity) :=
    funext (diagnostic?_congr rfl rfl)
  show (if mentionsEmits (check (atWork c severity) program).source then
    (emitsOf (check (atWork c severity) program).mode program).filterMap _ else []) = _
  rw [hsource, hmode, hreports]
  rfl

/-- The severity of a run is a label on its reports. -/
theorem findings_atWork (c : Context) (severity other : Severity) (program : Program) :
    findings (atWork c severity) program =
      (findings (atWork c other) program).map (·.withSeverity severity) := by
  have hdiagnostic : ∀ e, diagnostic? (atWork c severity) e =
      (diagnostic? (atWork c other) e).map (·.withSeverity severity) := by
    intro e
    unfold diagnostic?
    cases classify e <;> rfl
  show (if mentionsEmits c.source then (emitsOf c.mode program).filterMap _ else []) =
    (if mentionsEmits c.source then (emitsOf c.mode program).filterMap _ else []).map _
  split
  · rw [List.map_filterMap, funext hdiagnostic]
  · rfl

end EmitValidator

/-! ## Copies of the rule -/

namespace Linter

open EmitValidator

/-- A linter that has the rule on emit validators so many times. -/
def ofCopies (n : Nat) (config : Config)
    (parse : Syntax.Dialect → String → Option Syntax.Program)
    (dialectOf? : String → Option Syntax.Dialect) : Linter :=
  ⟨List.replicate n rule, config, parse, dialectOf?⟩

/-- The severity that a rule reports with, if it would run. -/
def severity? (l : Linter) (info : RuleMeta) : Option Severity :=
  if l.isRuleEnabled info.name then l.config.severityFor info else none

variable {n : Nat} {config : Config} {parse : Syntax.Dialect → String → Option Syntax.Program}
  {dialectOf? : String → Option Syntax.Dialect}

theorem lawful_ofCopies : ∀ rule ∈ (ofCopies n config parse dialectOf?).registry, rule.Lawful := by
  intro rule hrule
  obtain rfl := (List.mem_replicate.mp hrule).2
  exact lawful_rule

theorem isRuleEnabled_ofCopies (n : Nat) (config : Config)
    (parse : Syntax.Dialect → String → Option Syntax.Program)
    (dialectOf? : String → Option Syntax.Dialect) :
    (ofCopies n config parse dialectOf?).isRuleEnabled info.name =
      (n != 0 && (config.severityFor info).isSome) := by
  cases n with
  | zero => rfl
  | succ n =>
      have hget : (ofCopies (n + 1) config parse dialectOf?).registry.get? info.name =
          some rule := by
        rw [ofCopies, List.replicate_succ, Registry.get?, List.find?_cons]
        rfl
      rw [isRuleEnabled, hget]
      rfl

theorem severityFor_eq_none :
    config.severityFor info = none ↔ config.rules.get? info.name = some .off := by
  unfold Config.severityFor
  cases config.rules.get? info.name with
  | none => simp
  | some setting => cases setting <;> simp [Setting.severity?]

/-- A rule that stands nowhere reports nothing, whatever the severity. -/
theorem labelled_severity? (filename : String) (n : Nat) (config : Config) {ds : List Diagnostic}
    (hds : n = 0 → ds = []) :
    LintResult.labelled filename ((ofCopies n config parse dialectOf?).severity? info) ds =
      .labelled filename (config.severityFor info) ds := by
  rw [severity?, isRuleEnabled_ofCopies]
  show LintResult.labelled filename (if _ then config.severityFor info else none) ds = _
  cases n with
  | zero =>
      rw [hds rfl]
      cases config.severityFor info <;> simp [LintResult.labelled, LintResult.empty]
  | succ n => cases config.severityFor info <;> rfl

/-- The runs append what the first one does, again and again. -/
theorem foldl_runRule (l : Linter) (program : Syntax.Program) {severity : Severity}
    (h : l.config.severityFor info = some severity) (n : Nat) (c : Context) :
    ((List.replicate n rule).foldl (l.runRule program) c).diagnostics = c.diagnostics ++
      copies n (findings (atWork c severity) program) := by
  have hrun : ∀ c, l.runRule program c rule = check (atWork c severity) program := by
    intro c
    unfold runRule
    show (match l.config.severityFor info with | some _ => _ | none => _ : Context) = _
    rw [h]
    rfl
  induction n generalizing c with
  | zero => exact (List.append_nil _).symm
  | succ n ih =>
      rw [List.replicate_succ, List.foldl_cons, ih, hrun, findings_again, check_findings,
        copies_succ, List.append_assoc]
      rfl

theorem foldl_runRule_of_off (l : Linter) (program : Syntax.Program)
    (h : l.config.severityFor info = none) (n : Nat) (c : Context) :
    (List.replicate n rule).foldl (l.runRule program) c = c := by
  have hrun : l.runRule program c rule = c := by
    unfold runRule
    show (match l.config.severityFor info with | some _ => _ | none => _ : Context) = _
    rw [h]
  induction n with
  | zero => rfl
  | succ n ih => rw [List.replicate_succ, List.foldl_cons, hrun, ih]

theorem countIn_map_withSeverity (severity other : Severity) (ds : List Diagnostic) :
    other.countIn (ds.map (·.withSeverity severity)) =
      if severity = other then ds.length else 0 := by
  rw [Severity.countIn, List.countP_map]
  split
  · rename_i heq
    rw [List.countP_eq_length]
    exact fun _ _ => beq_iff_eq.mpr heq
  · rename_i hne
    rw [List.countP_eq_zero]
    exact fun _ _ h => hne (beq_iff_eq.mp h)

theorem counts_labelled (filename : String) (s? : Option Severity) (ds : List Diagnostic) :
    (LintResult.labelled filename s? ds).Counts := by
  cases s? with
  | none => exact LintResult.counts_empty filename
  | some severity =>
      exact ⟨(countIn_map_withSeverity severity .error ds).symm,
        (countIn_map_withSeverity severity .warning ds).symm⟩

theorem filename_labelled (filename : String) (s? : Option Severity) (ds : List Diagnostic) :
    (LintResult.labelled filename s? ds).filename = filename := by
  cases s? <;> rfl

variable (n config parse dialectOf?)

/-- The reports on a script are those of the rule by default, so many times and under the severity
of the rule. -/
theorem lintSource_ofCopies (source filename : String) (kind : ScriptKind)
    (dialect : Syntax.Dialect) (componentFile : Bool) :
    (ofCopies n config parse dialectOf?).lintSource source filename kind dialect componentFile =
      .labelled filename (config.severityFor info)
        (copies n ((Linter.new parse dialectOf?).lintSource source filename kind dialect
          componentFile).diagnostics) := by
  refine LintResult.eq_of_counts (counts_lintSource lawful_ofCopies _ _ _ _ _)
    (counts_labelled _ _ _) ?_ ?_
  · rw [filename_lintSource, filename_labelled]
  · cases hparse : parse dialect source with
    | none =>
        rw [lintSource_of_none (l := ofCopies n config parse dialectOf?) hparse,
          lintSource_of_none (l := Linter.new parse dialectOf?) hparse, copies_nil]
        cases config.severityFor info <;> rfl
    | some program =>
        let c : Context := (Context.new source filename kind).withComponentFile componentFile
        have hrun : ∀ l : Linter, l.parse = parse →
            (l.lintSource source filename kind dialect componentFile).diagnostics =
              (l.runRules c program).diagnostics := by
          rintro l rfl
          rw [lintSource, hparse]
        have hbase : ((Linter.new parse dialectOf?).lintSource source filename kind dialect
            componentFile).diagnostics = findings (atWork c .warning) program := by
          rw [hrun _ rfl, runRules]
          have hdefault : (Linter.new parse dialectOf?).config.severityFor info =
              some .warning := rfl
          exact (foldl_runRule (Linter.new parse dialectOf?) program hdefault 1 c).trans
            (List.append_nil _)
        rw [hrun _ rfl, hbase, runRules]
        cases hseverity : config.severityFor info with
        | none =>
            exact congrArg (·.diagnostics)
              (foldl_runRule_of_off (ofCopies n config parse dialectOf?) program hseverity n c)
        | some severity =>
            refine (foldl_runRule (ofCopies n config parse dialectOf?) program hseverity n
              c).trans ?_
            show [] ++ copies n _ = (copies n _).map _
            rw [List.nil_append, map_copies, findings_atWork c severity .warning]

/-! ## Blocks -/

theorem lintBlock_ofCopies (filename : String) (b : Sfc.ScriptBlock) :
    (ofCopies n config parse dialectOf?).lintBlock filename b =
      .labelled filename (config.severityFor info)
        (copies n ((Linter.new parse dialectOf?).lintBlock filename b).diagnostics) := by
  have hshift : ∀ s? ds, (LintResult.labelled filename s? ds).shift b.offset =
      .labelled filename s? (ds.map (·.shift b.offset)) := by
    intro s? ds
    cases s? with
    | none => rfl
    | some severity => simp [LintResult.labelled, LintResult.shift, Diagnostic.withSeverity,
        Diagnostic.shift, Function.comp_def]
  rw [lintBlock, lintSource_ofCopies, hshift, map_copies]
  rfl

theorem filename_foldl_merge (l : Linter) (filename : String) (blocks : List Sfc.ScriptBlock)
    (r : LintResult) :
    (blocks.foldl (fun r b => r.merge (l.lintBlock filename b)) r).filename = r.filename := by
  induction blocks generalizing r with
  | nil => rfl
  | cons b blocks ih => rw [List.foldl_cons, ih, LintResult.merge]

theorem foldl_merge_ofCopies (filename : String) (blocks : List Sfc.ScriptBlock) :
    blocks.foldl (fun r b => r.merge ((ofCopies n config parse dialectOf?).lintBlock filename b))
        (LintResult.empty filename) =
      .labelled filename (config.severityFor info)
        (blocks.flatMap fun b =>
          copies n ((Linter.new parse dialectOf?).lintBlock filename b).diagnostics) := by
  refine LintResult.eq_of_counts
    (counts_foldl_merge lawful_ofCopies filename blocks (LintResult.counts_empty filename))
    (counts_labelled _ _ _) ?_ ?_
  · rw [filename_foldl_merge, filename_labelled, LintResult.empty]
  · rw [foldl_merge]
    simp only [lintBlock_ofCopies]
    cases config.severityFor info with
    | none => simp [LintResult.labelled, LintResult.empty]
    | some severity => simp [LintResult.labelled, LintResult.empty, List.map_flatMap]

theorem lintSfc_eq (l : Linter) (source filename : String) :
    l.lintSfc source filename = (Sfc.extractScriptBlocks source).map fun blocks =>
      blocks.foldl (fun r b => r.merge (l.lintBlock filename b)) (.empty filename) := by
  rw [lintSfc]
  cases Sfc.extractScriptBlocks source <;> rfl

theorem lintSfc_eq_error (l : Linter) {source filename : String} {e : Sfc.ScriptError} :
    l.lintSfc source filename = .error e ↔ Sfc.extractScriptBlocks source = .error e := by
  rw [lintSfc_eq]
  cases Sfc.extractScriptBlocks source <;> simp [Except.map]

/-- A registry with any number of copies of the rule, under any configuration.  The rule runs unless
there is no copy or the configuration turns it off.  What is reported is what the rule reports by
default, block after block and for each block as often as there are copies, with the severity of
the rule in place of the default one; without a severity, it is nothing.  Settings for other rules
change nothing; and where script blocks cannot be located, the error is the same for all rules and
settings. -/
theorem settings_gate_and_label :
    ((ofCopies n config parse dialectOf?).isRuleEnabled info.name = false ↔
      n = 0 ∨ config.rules.get? info.name = some .off) ∧
    (∀ source filename kind, (ofCopies n config parse dialectOf?).lintScript source filename kind =
      .labelled filename ((ofCopies n config parse dialectOf?).severity? info)
        (copies n ((Linter.new parse dialectOf?).lintScript source filename kind).diagnostics)) ∧
    (∀ source filename, (ofCopies n config parse dialectOf?).lintSfc source filename =
      (Sfc.extractScriptBlocks source).map fun blocks =>
        .labelled filename ((ofCopies n config parse dialectOf?).severity? info)
          (blocks.flatMap fun b =>
            copies n ((Linter.new parse dialectOf?).lintBlock filename b).diagnostics)) ∧
    (∀ config' : Config, config'.rules.get? info.name = config.rules.get? info.name →
      (ofCopies n config' parse dialectOf?).lintScript =
        (ofCopies n config parse dialectOf?).lintScript ∧
      (ofCopies n config' parse dialectOf?).lintSfc =
        (ofCopies n config parse dialectOf?).lintSfc) ∧
    ∀ (registry : Registry) (config' : Config) (source filename : String) (e : Sfc.ScriptError),
      (⟨registry, config', parse, dialectOf?⟩ : Linter).lintSfc source filename = .error e ↔
        (Linter.new parse dialectOf?).lintSfc source filename = .error e := by
  refine ⟨?_, ?_, ?_, ?_, ?_⟩
  · rw [isRuleEnabled_ofCopies, ← severityFor_eq_none]
    cases n <;> cases config.severityFor info <;> simp
  · intro source filename kind
    rw [labelled_severity? filename n config (fun hn => hn ▸ copies_zero _)]
    exact lintSource_ofCopies n config parse dialectOf? source filename kind _ _
  · intro source filename
    rw [lintSfc_eq]
    refine congrArg (Except.map · _) (funext fun blocks => ?_)
    rw [foldl_merge_ofCopies, labelled_severity? filename n config]
    rintro rfl
    exact List.flatMap_eq_nil_iff.mpr fun b _ => copies_zero _
  · intro config' hget
    have hseverity : config'.severityFor info = config.severityFor info := by
      rw [Config.severityFor, Config.severityFor, hget]
    constructor
    · funext source filename kind
      rw [lintScript, lintSource_ofCopies, lintScript, lintSource_ofCopies, hseverity]
      rfl
    · funext source filename
      rw [lintSfc_eq, lintSfc_eq]
      simp only [foldl_merge_ofCopies, hseverity]
  · intro registry config' source filename e
    rw [lintSfc_eq_error, lintSfc_eq_error]

/-- The rule reports errors. -/
def strictConfig : Config := .set .empty info.name .error

/-- Two copies of the rule report the same error twice, whether another rule is off or not. -/
theorem settings_gate_and_label_twice :
    (strictConfig.set "vue/another" .off).rules.get? info.name =
      strictConfig.rules.get? info.name ∧
    ((ofCopies 2 (strictConfig.set "vue/another" .off) exampleScriptLinter.parse
        exampleScriptLinter.dialectOf?).lintSfc exampleFile "A.vue").map
      (fun r => (r.errorCount, r.warningCount, r.diagnostics.map fun d => (d.severity, d.span))) =
      .ok (2, 0, [(.error, ⟨26, 32⟩), (.error, ⟨26, 32⟩)]) := by
  have hget : (strictConfig.set "vue/another" .off).rules.get? info.name =
      strictConfig.rules.get? info.name := by
    rw [Config.set, RuleMap.get?_set, if_neg (by decide)]
  obtain ⟨-, -, hsfc, hother, -⟩ :=
    settings_gate_and_label 2 strictConfig exampleScriptLinter.parse
      exampleScriptLinter.dialectOf?
  refine ⟨hget, ?_⟩
  rw [(hother _ hget).2, hsfc, extractScriptBlocks_exampleFile]
  rfl

end Linter
end EmitLint
