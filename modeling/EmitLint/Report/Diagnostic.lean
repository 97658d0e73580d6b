/-
# Diagnostics

One report about a node of a script: which rule speaks, how gravely, about
what and where, and what could be done about it.  A `fix` is safe to make
unasked; `suggestions` want a human's consent.

A `Notice` is the same report cut down for display beside source lines.
-/
import EmitLint.Report.Fix
import EmitLint.Report.Severity

namespace EmitLint

/-- One report of a rule. -/
structure Diagnostic where
  rule : String
  messageId : String
  subject : Option String
  severity : Severity
  message : String
  span : Span
  fix : Option Fix
  suggestions : List Fix
deriving DecidableEq, Repr, Inhabited

namespace Diagnostic

/-- A report with neither subject nor remedies. -/
def plain (rule messageId : String) (severity : Severity) (message : String) (span : Span) :
    Diagnostic :=
  { rule, messageId, subject := none, severity, message, span, fix := none, suggestions := [] }

/-- Say what the report is about. -/
def withSubject (d : Diagnostic) (subject : String) : Diagnostic :=
  { d with subject := some subject }

/-- Offer one more suggestion. -/
def withSuggestion (d : Diagnostic) (suggestion : Fix) : Diagnostic :=
  { d with suggestions := d.suggestions ++ [suggestion] }

def hasFix (d : Diagnostic) : Bool := d.fix.isSome

def hasSuggestions (d : Diagnostic) : Bool := !d.suggestions.isEmpty

/-- The report, and every edit in it, seen from a text in which `offset`
bytes stand in front. -/
def shift (d : Diagnostic) (offset : Nat) : Diagnostic :=
  { d with
    span := d.span.shift offset
    fix := d.fix.map (·.shift offset)
    suggestions := d.suggestions.map (·.shift offset) }

end Diagnostic

/-- A stretch of source to underline. -/
structure Label where
  offset : Nat
  length : Nat
deriving DecidableEq, Repr

/-- A report cut down for display. -/
structure Notice where
  text : String
  severity : Severity
  help : Option String
  labels : List Label
deriving DecidableEq, Repr

/-- The first suggestion's message becomes the help line. -/
def Diagnostic.notice (d : Diagnostic) : Notice where
  text := d.message
  severity := d.severity
  help := d.suggestions.head?.map (·.message)
  labels := [⟨d.span.start, d.span.stop - d.span.start⟩]

end EmitLint
