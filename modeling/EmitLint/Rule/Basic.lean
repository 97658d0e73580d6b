/-
# Rules and registries

A rule is what is known about it and what it does: it is given a context and
a program, and answers with the context that has its reports taken in.  A
registry is a list of rules, which run in that order; the same rule may
stand in it several times.
-/
import EmitLint.Context
import EmitLint.Rule.Meta

namespace EmitLint

/-- A check of scripts. -/
structure Rule where
  info : RuleMeta
  check : Context → Syntax.Program → Context

/-- The rules that run, in order. -/
abbrev Registry := List Rule

namespace Registry

/-- The first rule of a name. -/
def get? (r : Registry) (name : String) : Option Rule := r.find? fun rule => rule.info.name == name

/-- Add a rule at the end. -/
def register (r : Registry) (rule : Rule) : Registry := r ++ [rule]

/-- The names of the rules, in order. -/
def names (r : Registry) : List String := r.map fun rule => rule.info.name

theorem get?_isSome_iff (r : Registry) (name : String) :
    (r.get? name).isSome ↔ name ∈ r.names := by
  simp [get?, names]

end Registry
end EmitLint
