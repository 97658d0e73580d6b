/-
# Taking suggestions one after the other

Lint a text, take the first suggestion that is offered, and begin again with
the text that this gives.  The loop ends when nothing is offered any more, or
after a given number of rounds.
-/
import EmitLint.Linter

namespace EmitLint.FixLoop

/-- One round: how many reports there were, the subject of the report whose
suggestion was taken, and the text afterwards. -/
structure Round where
  reports : Nat
  subject : Option String
  source : String
deriving DecidableEq, Repr

/-- The first report that has a suggestion, and its first suggestion. -/
def firstSuggestion? (ds : List Diagnostic) : Option (Diagnostic × Fix) :=
  ds.findSome? fun d => d.suggestions.head?.map fun f => (d, f)

/-- The rounds from a text on, at most `limit` many; an error of the linter
ends them all. -/
def rounds {ε : Type} (lint : String → Except ε LintResult) :
    Nat → String → Except ε (List Round)
  | 0, _ => .ok []
  | limit + 1, source => do
      let reports := (← lint source).diagnostics
      match firstSuggestion? reports with
      | none => return [⟨reports.length, none, source⟩]
      | some (d, suggestion) =>
          let after := (suggestion.apply source).getD source
          return ⟨reports.length, d.subject, after⟩ :: (← rounds lint limit after)

end EmitLint.FixLoop
