/-
# Batches

Many files are linted in one go, and their reports counted once more for the
summary.  Main statement: `results_of_batch`.  Each file has its own result, to
which the other files add nothing; what a result counts are its reports; and the
summary adds up what the results count, in whatever order the files come.
-/
import EmitLint.Proofs.Linter.Counts
import EmitLint.Proofs.Sfc.EntryPoints
import Mathlib.Algebra.BigOperators.Group.List.Basic
import Mathlib.Algebra.Ring.Nat

namespace EmitLint

/-! ## One file -/

/-- What the result for a file, its name and its text, may be. -/
inductive Linter.ResultOf (l : Linter) (file : String × String) : LintResult → Prop
  | component {r : LintResult} : file.1.endsWith ".vue" = true →
      l.lintSfc file.2 file.1 = .ok r → ResultOf l file r
  /-- The script blocks of a component cannot be located. -/
  | skipped {e : Sfc.ScriptError} : file.1.endsWith ".vue" = true →
      l.lintSfc file.2 file.1 = .error e → ResultOf l file (.empty file.1)
  | script : file.1.endsWith ".vue" = false →
      ResultOf l file (l.lintScript file.2 file.1 .plain)

namespace Linter

variable {l : Linter} {file : String × String} {r : LintResult} {files files' : List (String × String)}

/-- There is just one result that a file may have. -/
theorem resultOf_iff : l.ResultOf file r ↔ r = l.lintFile file.1 file.2 := by
  unfold lintFile
  constructor
  · intro h
    cases h with
    | component hvue hr => rw [if_pos hvue, hr]
    | skipped hvue he => rw [if_pos hvue, he]
    | script hvue => rw [if_neg (by rw [hvue]; exact Bool.false_ne_true)]
  · rintro rfl
    split
    · rename_i hvue
      split
      · exact .component hvue ‹_›
      · exact .skipped hvue ‹_›
    · rename_i hvue
      exact .script (Bool.eq_false_iff.mpr hvue)

theorem counts_of_resultOf (hlawful : ∀ rule ∈ l.registry, rule.Lawful) (h : l.ResultOf file r) :
    r.Counts := by
  cases h with
  | component _ hr => exact counts_lintSfc hlawful hr
  | skipped _ _ => exact LintResult.counts_empty file.1
  | script _ => exact counts_lintScript hlawful file.2 file.1 .plain

end Linter

/-! ## The summary -/

/-- The totals of several results. -/
def Summary.ofResults (results : List LintResult) : Summary where
  errors := (results.map (·.errorCount)).sum
  warnings := (results.map (·.warningCount)).sum
  files := results.length

theorem Summary.ofResults_perm {rs rs' : List LintResult} (h : rs.Perm rs') :
    ofResults rs = ofResults rs' := by
  rw [ofResults, ofResults, (h.map _).sum_eq, (h.map _).sum_eq, h.length_eq]

/-- To count the reports of all results is to add up their counts. -/
theorem Summary.foldl_results {results : List LintResult} (h : ∀ r ∈ results, r.Counts)
    (s : Summary) :
    results.foldl (fun s r => r.diagnostics.foldl add s) s =
      { errors := s.errors + (ofResults results).errors
        warnings := s.warnings + (ofResults results).warnings
        files := s.files } := by
  induction results generalizing s with
  | nil => rfl
  | cons r results ih =>
      obtain ⟨⟨herrors, hwarnings⟩, hrest⟩ := List.forall_mem_cons.mp h
      rw [List.foldl_cons, ih hrest, foldl_add, ← herrors, ← hwarnings]
      simp only [ofResults, List.map_cons, List.sum_cons, Nat.add_assoc]

/-! ## The batch -/

namespace Linter

variable {l : Linter} {files files' : List (String × String)}

theorem resultOf_lintFiles (l : Linter) (files : List (String × String)) :
    List.Forall₂ l.ResultOf files (l.lintFiles files).1 :=
  List.forall₂_map_right_iff.mpr (List.forall₂_same.mpr fun _ _ => resultOf_iff.mpr rfl)

theorem counts_lintFiles (hlawful : ∀ rule ∈ l.registry, rule.Lawful)
    (files : List (String × String)) : ∀ r ∈ (l.lintFiles files).1, r.Counts := by
  intro r hr
  obtain ⟨file, -, rfl⟩ := List.mem_map.mp hr
  exact counts_of_resultOf hlawful (resultOf_iff.mpr rfl)

theorem summary_lintFiles (hlawful : ∀ rule ∈ l.registry, rule.Lawful)
    (files : List (String × String)) :
    (l.lintFiles files).2 = Summary.ofResults (l.lintFiles files).1 := by
  have htotal := Summary.foldl_results (counts_lintFiles hlawful files) .empty
  have hlength : (l.lintFiles files).1.length = files.length := List.length_map _
  rw [lintFiles] at htotal hlength ⊢
  dsimp only at htotal hlength ⊢
  rw [htotal, ← hlength]
  simp only [Summary.empty, Nat.zero_add, Summary.ofResults]

theorem perm_lintFiles (l : Linter) (h : files.Perm files') :
    (files.zip (l.lintFiles files).1).Perm (files'.zip (l.lintFiles files').1) := by
  have hzip : ∀ fs : List (String × String),
      fs.zip (l.lintFiles fs).1 = fs.map fun f => (f, l.lintFile f.1 f.2) := by
    intro fs
    have hzip : (fs.map id).zip (fs.map fun f => l.lintFile f.1 f.2) =
        fs.map fun f => (f, l.lintFile f.1 f.2) := List.zip_map'
    rwa [List.map_id] at hzip
  rw [hzip, hzip]
  exact h.map _

/-- Each file of a batch has the result that it has by itself, in the order of the files.  In all
results the counts are those of the reports, and in the summary they are the sums of those in the
results.  If the files are put into another order, so are the results, and the summary is the
same. -/
theorem results_of_batch (hlawful : ∀ rule ∈ l.registry, rule.Lawful)
    (files : List (String × String)) :
    (List.Forall₂ l.ResultOf files (l.lintFiles files).1 ∧
      ∀ file r r', l.ResultOf file r → l.ResultOf file r' → r = r') ∧
    ((∀ r ∈ (l.lintFiles files).1, r.Counts) ∧
      (∀ source filename kind, (l.lintScript source filename kind).Counts) ∧
      ∀ source filename r, l.lintSfc source filename = .ok r → r.Counts) ∧
    (l.lintFiles files).2 =
      { errors := ((l.lintFiles files).1.map (·.errorCount)).sum
        warnings := ((l.lintFiles files).1.map (·.warningCount)).sum
        files := files.length } ∧
    ∀ files', files.Perm files' →
      (files.zip (l.lintFiles files).1).Perm (files'.zip (l.lintFiles files').1) ∧
        (l.lintFiles files).2 = (l.lintFiles files').2 := by
  refine ⟨⟨resultOf_lintFiles l files, ?_⟩, ⟨counts_lintFiles hlawful files, ?_, ?_⟩, ?_, ?_⟩
  · intro file r r' h h'
    rw [resultOf_iff.mp h, resultOf_iff.mp h']
  · exact counts_lintScript hlawful
  · exact fun _ _ _ => counts_lintSfc hlawful
  · rw [summary_lintFiles hlawful, Summary.ofResults, (resultOf_lintFiles l files).length_eq]
  · intro files' hperm
    refine ⟨perm_lintFiles l hperm, ?_⟩
    rw [summary_lintFiles hlawful, summary_lintFiles hlawful]
    exact Summary.ofResults_perm (hperm.map _)

/-- A component and a script of its own, with one report each. -/
theorem results_of_batch_pair :
    (∀ rule ∈ exampleScriptLinter.registry, rule.Lawful) ∧
    (exampleScriptLinter.lintFiles
      [("A.vue", exampleFile), ("b.ts", exampleBlock.content)]).2 = ⟨0, 2, 2⟩ := by
  have hlawful : ∀ rule ∈ exampleScriptLinter.registry, rule.Lawful := by
    intro rule hrule
    obtain rfl := List.mem_singleton.mp hrule
    exact EmitValidator.lawful_rule
  have hvue : "A.vue".endsWith ".vue" = true :=
    String.Slice.endsWith_string_iff.mpr ⟨['A'], by simp⟩
  have hts : "b.ts".endsWith ".vue" = false := by
    refine Bool.eq_false_iff.mpr fun h => ?_
    have hsuffix : ['.', 'v', 'u', 'e'] <:+ ['b', '.', 't', 's'] := by
      simpa using String.Slice.endsWith_string_iff.mp h
    exact absurd hsuffix (by decide)
  have hcomponent : exampleScriptLinter.ResultOf ("A.vue", exampleFile)
      (exampleScriptLinter.lintBlock "A.vue" exampleBlock) :=
    .component hvue (lintSfc_of_single extractScriptBlocks_exampleFile)
  have hresults : (exampleScriptLinter.lintFiles
      [("A.vue", exampleFile), ("b.ts", exampleBlock.content)]).1 =
      [exampleScriptLinter.lintBlock "A.vue" exampleBlock,
        exampleScriptLinter.lintScript exampleBlock.content "b.ts" .plain] :=
    congrArg₂ (fun r r' => [r, r']) (resultOf_iff.mp hcomponent).symm
      (resultOf_iff.mp (.script hts)).symm
  refine ⟨hlawful, ?_⟩
  rw [(results_of_batch hlawful _).2.2.1, hresults]
  rfl

end Linter
end EmitLint
