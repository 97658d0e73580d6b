/-
# Targets of assignments

An assignment begins like any other expression.  Only at its sign is it
known that what was read is a target, so a target is an expression seen
anew: a name, a member, or an array or object literal read as a pattern.
-/
import EmitLint.Syntax.Tree

namespace EmitLint.Syntax.Expr

/-- A name or a member. -/
def isReference : Expr → Bool
  | name .. | member .. | index .. | privateMember .. => true
  | _ => false

/-- The target that an expression is, if it is a name or a member.  It can
stand in parentheses, and types can be written at it. -/
def reference? : Expr → Option Pattern
  | name s text => some (.name s text)
  | wrapped _ .parens inner => inner.reference?
  | wrapped s w inner =>
      if inner.unwrap.isReference then some (.target (.wrapped s w inner)) else none
  | e => if e.isReference then some (.target e) else none

mutual

/-- The target that an expression is.  Values behind `=` in object literals
are found by the offset of their property. -/
def target? (defaults : List (Nat × Expr)) : Expr → Option Pattern
  | array _ elements => (elementTargets? defaults elements).map .array
  | object _ properties => (propertyTargets? defaults properties).map .object
  | e => e.reference?

/-- The target that an expression is, with its default. -/
def defaultTarget? (defaults : List (Nat × Expr)) : Expr → Option Pattern
  | assign _ op target value => if op = "=" then some (.withDefault target value) else none
  | array _ elements => (elementTargets? defaults elements).map .array
  | object _ properties => (propertyTargets? defaults properties).map .object
  | e => e.reference?

/-- The targets that the elements of an array are.  Three dots stand at the
end only. -/
def elementTargets? (defaults : List (Nat × Expr)) : List Element → Option (List Pattern)
  | [] => some []
  | .hole _ :: es => (elementTargets? defaults es).map (.hole :: ·)
  | .item e :: es => do
      let p ← e.defaultTarget? defaults
      return p :: (← elementTargets? defaults es)
  | [.spread _ e] => do return [.rest (← e.target? defaults)]
  | .spread .. :: _ => none

/-- The targets that the properties of an object are. -/
def propertyTargets? (defaults : List (Nat × Expr)) : List Property → Option (List Pattern)
  | [] => some []
  | .entry s k e :: ps => do
      let p ← e.defaultTarget? defaults
      let p := match defaults.lookup s.start with
        | some value => .withDefault p value
        | none => p
      return .entry k p :: (← propertyTargets? defaults ps)
  | [.spread _ e] => do return [.rest (← e.target? defaults)]
  | .spread .. :: _ => none

end
end EmitLint.Syntax.Expr
