/-
# Totals

How many errors and warnings a list of reports holds, and the running total
over the files of a batch.
-/
import EmitLint.Report.Diagnostic

namespace EmitLint

/-- Number of reports of one severity. -/
def Severity.countIn (severity : Severity) (ds : List Diagnostic) : Nat :=
  ds.countP fun d => d.severity == severity

/-- Totals of a batch. -/
structure Summary where
  errors : Nat
  warnings : Nat
  files : Nat
deriving DecidableEq, Repr

namespace Summary

/-- The totals before anything was seen. -/
def empty : Summary := ⟨0, 0, 0⟩

/-- Count one more report. -/
def add (s : Summary) (d : Diagnostic) : Summary :=
  match d.severity with
  | .error => { s with errors := s.errors + 1 }
  | .warning => { s with warnings := s.warnings + 1 }

def hasErrors (s : Summary) : Bool := s.errors > 0

/-- Counting one by one gives the counts of the whole list. -/
theorem foldl_add (s : Summary) (ds : List Diagnostic) :
    ds.foldl add s =
      { errors := s.errors + Severity.error.countIn ds
        warnings := s.warnings + Severity.warning.countIn ds
        files := s.files } := by
  induction ds generalizing s with
  | nil => simp [Severity.countIn]
  | cons d ds ih =>
    rw [List.foldl_cons, ih]
    cases h : d.severity <;> simp [add, h, Severity.countIn] <;> omega

end Summary
end EmitLint
