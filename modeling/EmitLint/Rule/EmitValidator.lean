/-
# The rule on emit validators

Every emit should be declared with a function that validates its payload.
An emit without one is `missing` it.  One declared with `null` says that it
wants none and is `skipped`; for it the rule suggests a validator that takes
no parameters and accepts everything.

A name other than `undefined` is trusted to refer to a function.

Before it walks a script, the rule looks for the words that a declaration
cannot do without; a script without them has nothing to report
(`mentionsEmits`).  `unfiltered` is the rule without this look ahead.
-/
import EmitLint.Component.Emit
import EmitLint.Rule.Basic
import EmitLint.Text.Occurs

namespace EmitLint.EmitValidator

open Component Syntax

/-- What is known about the rule. -/
def info : RuleMeta where
  name := "vue/require-emit-validator"
  description := "Require type definitions in emits"
  category := .uncategorized
  fixable := false
  hasSuggestions := true
  defaultSeverity := .warning

/-- How an emit stands with its validator. -/
inductive Validation
  | hasValidator
  | missing
  /-- Declared with the `null` at a span. -/
  | skipped (null : Span)
deriving DecidableEq, Repr

/-- Judge a declaration by its value. -/
def classify (e : Emit) : Validation :=
  match e.value with
  | some (.name _ text) => if text = "undefined" then .missing else .hasValidator
  | some (.arrow ..) | some (.function ..) => .hasValidator
  | some (.null s) => .skipped s
  | _ => .missing

/-- The validator that is suggested. -/
def replacement : String := "() => true"

def suggestionMessage : String := "Replace with a validator function with no parameters."

def missingMessage (name : String) : String :=
  s!"Emit \"{name}\" should define at least its validator function."

def skippedMessage (name : String) : String :=
  s!"Emit \"{name}\" should not skip validation, or you may define a validator " ++
    "function with no parameters."

/-- The suggestion to put the validator in place of a `null`. -/
def suggestion (null : Span) : Fix := .single suggestionMessage ⟨null, replacement⟩

/-- The report on one declaration, if there is anything to say. -/
def diagnostic? (c : Context) (e : Emit) : Option Diagnostic :=
  let name := e.displayName
  match classify e with
  | .hasValidator => none
  | .missing =>
      some ((c.diagnostic "missing" (missingMessage name) e.span).withSubject name)
  | .skipped null =>
      some (((c.diagnostic "skipped" (skippedMessage name) e.span).withSuggestion
        (suggestion null)).withSubject name)

/-- Report on one declaration. -/
def reportEmit (c : Context) (e : Emit) : Context :=
  match diagnostic? c e with
  | some d => c.report d
  | none => c

/-- The declarations of a program. -/
def emitsOf (m : Mode) (program : Program) : List Emit := (sites m program).flatMap Site.emits

/-- Report on every declaration of a program. -/
def unfiltered (c : Context) (program : Program) : Context :=
  (emitsOf c.mode program).foldl reportEmit c

/-- The source holds one of the words `emits` and `defineEmits`. -/
def mentionsEmits (source : String) : Bool :=
  let cs := source.toList
  Text.occursIn "emits".toList cs || Text.occursIn "defineEmits".toList cs

/-- The rule at work. -/
def check (c : Context) (program : Program) : Context :=
  if mentionsEmits c.source then unfiltered c program else c

/-- The rule. -/
def rule : Rule := ⟨info, check⟩

end EmitLint.EmitValidator
