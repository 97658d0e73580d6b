/-
# Addresses of nodes

Two nodes of a tree can be equal, spans and all, and still be two.  What tells
them apart is where they hang in the tree: the `Address` of a node says which
child of which child of the root it is.

Main statement: `holder_unique`.  An expression, whatever wrappers are around it,
is a part of one node only that is no expression itself; and so an expression
that is the value of a property is not the argument of a call as well.
-/
import EmitLint.Proofs.Syntax.Node
import Mathlib.Data.List.Basic

namespace EmitLint.Syntax

/-- The way down to a node: at each step, the number of the child to go to. -/
abbrev Address := List Nat

namespace Node

/-- The node at an address. -/
def at? : Node → Address → Option Node
  | n, [] => some n
  | n, i :: rest =>
      match n.children[i]? with
      | some c => at? c.2 rest
      | none => none

variable {n x : Node} {a : Address} {i : Nat}

@[simp] theorem at?_nil (n : Node) : n.at? [] = some n := rfl

theorem at?_cons (n : Node) (i : Nat) (b : Address) :
    n.at? (i :: b) = n.children[i]?.bind fun c => c.2.at? b := by
  rw [at?]
  cases n.children[i]? <;> rfl

theorem at?_cons_of_child {p : Position} (h : n.children[i]? = some (p, x)) (b : Address) :
    n.at? (i :: b) = x.at? b := by
  rw [at?_cons, h, Option.bind_some]

theorem at?_append (n : Node) (a b : Address) : n.at? (a ++ b) = (n.at? a).bind (·.at? b) := by
  induction a generalizing n with
  | nil => rfl
  | cons i a ih =>
      rw [List.cons_append, at?_cons, at?_cons, Option.bind_assoc]
      exact congrArg _ (funext fun c => ih c.2)

theorem at?_append_of_at? (h : n.at? a = some x) (b : Address) : n.at? (a ++ b) = x.at? b := by
  rw [at?_append, h, Option.bind_some]

end Node

/-! ## Wrapped expressions -/

/-- The way from an expression to what is left of it without its wrappers. -/
def Expr.unwrapAt : Expr → Address
  | wrapped _ _ inner => 0 :: inner.unwrapAt
  | _ => []

theorem Expr.unwrapAt_of_isBare {e : Expr} (h : e.IsBare) : e.unwrapAt = [] := by
  cases e <;> first | rfl | exact h.elim

namespace Node

variable {n : Node} {a b : Address}

theorem at?_unwrapAt (e : Expr) : (expr e).at? e.unwrapAt = some (expr e.unwrap) := by
  induction e using Expr.induction_unwrap with
  | bare e hbare => rw [Expr.unwrapAt_of_isBare hbare, Expr.unwrap_of_isBare hbare, at?_nil]
  | wrapped s w inner ih => exact ih

/-- On the way there are wrappers only. -/
theorem at?_of_prefix_unwrapAt {e : Expr} (h : b <+: e.unwrapAt) :
    ∃ e', (expr e).at? b = some (expr e') := by
  induction e using Expr.induction_unwrap generalizing b with
  | bare e hbare =>
      rw [Expr.unwrapAt_of_isBare hbare] at h
      obtain rfl := List.prefix_nil.mp h
      exact ⟨e, rfl⟩
  | wrapped s w inner ih =>
      cases b with
      | nil => exact ⟨_, rfl⟩
      | cons i b =>
          obtain ⟨rfl, hb⟩ := List.cons_prefix_cons.mp h
          exact ih hb

/-! ## What an expression is a part of -/

/-- What is at the one address is, without its wrappers, the expression that is a part of the
node at the other; and that node is no expression. -/
def Holds (n : Node) (holder a : Address) : Prop :=
  ∃ x i p e, n.at? holder = some x ∧ (∀ e', x ≠ expr e') ∧
    x.children[i]? = some (p, expr e) ∧ a = holder ++ i :: e.unwrapAt

theorem Holds.append {r : Node} (hn : r.at? b = some n) {holder : Address}
    (h : n.Holds holder a) : r.Holds (b ++ holder) (b ++ a) := by
  obtain ⟨x, i, p, e, hx, hnot, hchild, rfl⟩ := h
  refine ⟨x, i, p, e, ?_, hnot, hchild, (List.append_assoc _ _ _).symm⟩
  rw [at?_append_of_at? hn, hx]

/-- An expression is a part of one such node only. -/
theorem holder_unique {holder holder' : Address} (h : n.Holds holder a)
    (h' : n.Holds holder' a) : holder = holder' := by
  -- From the upper of the two nodes down to the expression there are expressions only.
  have hle : ∀ {q q' : Address}, n.Holds q a → n.Holds q' a → q <+: q' → q = q' := by
    rintro q q' ⟨x, i, p, e, hx, -, hchild, rfl⟩ ⟨x', i', p', e', hx', hnot, -, ha⟩ ⟨r, rfl⟩
    cases r with
    | nil => exact (List.append_nil q).symm
    | cons j r =>
        rw [List.append_assoc, List.append_cancel_left_eq, List.cons_append] at ha
        obtain ⟨rfl, hr⟩ := List.cons.inj ha
        obtain ⟨e'', he⟩ := at?_of_prefix_unwrapAt (e := e) ⟨_, hr.symm⟩
        rw [at?_append_of_at? hx, at?_cons_of_child hchild, he] at hx'
        exact absurd (Option.some.inj hx').symm (hnot e'')
  have hprefix : holder <+: a ∧ holder' <+: a := by
    obtain ⟨_, _, _, _, _, _, _, ha⟩ := h
    obtain ⟨_, _, _, _, _, _, _, ha'⟩ := h'
    exact ⟨⟨_, ha.symm⟩, ⟨_, ha'.symm⟩⟩
  rcases List.prefix_or_prefix_of_prefix hprefix.1 hprefix.2 with hq | hq
  · exact hle h h' hq
  · exact (hle h' h hq).symm

end Node
end EmitLint.Syntax
