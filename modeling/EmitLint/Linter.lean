/-
# The linter

A linter runs the rules of its registry over scripts, with the severities of
its configuration.  What it knows of scripts are two of its fields: `parse`
gives the tree of a text or `none` when the text cannot be read, and
`dialectOf?` gives the dialect that a file name tells.  Everything said here
holds for any such functions.

A single-file component is cut into its script blocks.  Each block is linted
like a file of its own, and what is reported then moves to where the block
stands.
-/
import EmitLint.Config.File
import EmitLint.Rule.EmitValidator
import EmitLint.Sfc.Block

namespace EmitLint

/-- What linting one file gave. -/
structure LintResult where
  filename : String
  diagnostics : List Diagnostic
  errorCount : Nat
  warningCount : Nat

namespace LintResult

/-- A file with nothing to report. -/
def empty (filename : String) : LintResult := ⟨filename, [], 0, 0⟩

def hasErrors (r : LintResult) : Bool := r.errorCount > 0

def hasDiagnostics (r : LintResult) : Bool := !r.diagnostics.isEmpty

/-- Append the reports of another part of the file. -/
def merge (a b : LintResult) : LintResult where
  filename := a.filename
  diagnostics := a.diagnostics ++ b.diagnostics
  errorCount := a.errorCount + b.errorCount
  warningCount := a.warningCount + b.warningCount

/-- The reports seen from a file in which `offset` bytes stand in front. -/
def shift (r : LintResult) (offset : Nat) : LintResult :=
  { r with diagnostics := r.diagnostics.map (·.shift offset) }

end LintResult

/-- What the error of a file that cannot be linted says. -/
def Sfc.ScriptError.lintMessage (e : Sfc.ScriptError) : String :=
  s!"SFC parse error: {e.message}"

/-- The rules that are known. -/
def Registry.all : Registry := [EmitValidator.rule]

/-- Rules, their settings, and what reads scripts. -/
structure Linter where
  registry : Registry
  config : Config
  parse : Syntax.Dialect → String → Option Syntax.Program
  dialectOf? : String → Option Syntax.Dialect

namespace Linter

/-- All rules at their default severities. -/
def new (parse : Syntax.Dialect → String → Option Syntax.Program)
    (dialectOf? : String → Option Syntax.Dialect) : Linter :=
  ⟨.all, .empty, parse, dialectOf?⟩

/-- Use another configuration. -/
def withConfig (l : Linter) (config : Config) : Linter := { l with config }

/-- Use another registry. -/
def withRegistry (l : Linter) (registry : Registry) : Linter := { l with registry }

/-- A rule of this name would run. -/
def isRuleEnabled (l : Linter) (name : String) : Bool :=
  match l.registry.get? name with
  | some rule => (l.config.severityFor rule.info).isSome
  | none => false

/-- Run one rule, unless it is off. -/
def runRule (l : Linter) (program : Syntax.Program) (c : Context) (rule : Rule) : Context :=
  match l.config.severityFor rule.info with
  | some severity => rule.check { c with rule := rule.info.name, severity } program
  | none => c

/-- Run the rules in order. -/
def runRules (l : Linter) (c : Context) (program : Syntax.Program) : Context :=
  l.registry.foldl (l.runRule program) c

/-- Lint one script; one that cannot be read has nothing to report. -/
def lintSource (l : Linter) (source filename : String) (kind : ScriptKind)
    (dialect : Syntax.Dialect) (componentFile : Bool) : LintResult :=
  match l.parse dialect source with
  | none => .empty filename
  | some program =>
      let c := l.runRules ((Context.new source filename kind).withComponentFile componentFile)
        program
      ⟨filename, c.diagnostics, c.errorCount, c.warningCount⟩

/-- The dialect of a file, TypeScript when its name does not tell. -/
def dialectOf (l : Linter) (filename : String) : Syntax.Dialect :=
  (l.dialectOf? filename).getD .ts

/-- Lint a script that is a file of its own. -/
def lintScript (l : Linter) (source filename : String) (kind : ScriptKind) : LintResult :=
  l.lintSource source filename kind (l.dialectOf filename) (isComponentFilename filename)

/-- Lint one script block; its reports stand where it stands in the file. -/
def lintBlock (l : Linter) (filename : String) (b : Sfc.ScriptBlock) : LintResult :=
  (l.lintSource b.content filename b.kind b.dialect true).shift b.offset

/-- Lint a single-file component. -/
def lintSfc (l : Linter) (source filename : String) : Except Sfc.ScriptError LintResult := do
  let blocks ← Sfc.extractScriptBlocks source
  return blocks.foldl (fun r b => r.merge (l.lintBlock filename b)) (.empty filename)

/-- Lint one file of a batch; a component whose script blocks cannot be
located has nothing to report. -/
def lintFile (l : Linter) (filename source : String) : LintResult :=
  if filename.endsWith ".vue" then
    match l.lintSfc source filename with
    | .ok r => r
    | .error _ => .empty filename
  else l.lintScript source filename .plain

/-- Lint a batch of files, each given by its name and its text. -/
def lintFiles (l : Linter) (files : List (String × String)) : List LintResult × Summary :=
  let results := files.map fun f => l.lintFile f.1 f.2
  let total := results.foldl (fun s r => r.diagnostics.foldl Summary.add s) Summary.empty
  (results, { total with files := files.length })

end Linter
end EmitLint
