/-
# Putting wrappers into a tree

A wrapper can be put around every expression.  `Rewrapped Kept` relates a tree
to the trees that come from it in this way, with wrappers at any number of
places and any number of them at each; spans may differ everywhere.  `Kept`
tells of which children this is not allowed: around these no wrapper is put,
while below them the tree is as free as anywhere.

Main statement: `Rewrapped.unwrap`.  Under the wrappers, old and new, the two
expressions agree.
-/
import EmitLint.Proofs.Syntax.Rewriting

namespace EmitLint.Syntax

/-- Children that are kept are of the head that they were. -/
def KeepsParts (Kept : Node → Position × Node → Prop) (n n' : Node) : Prop :=
  List.Forall₂ (fun c c' => Kept n c → c.2.head = c'.2.head) n.children n'.children

/-- The second tree comes from the first one by putting wrappers around
expressions. -/
inductive Rewrapped (Kept : Node → Position × Node → Prop) : Node → Node → Prop
  | around {e e' : Expr} {s : Span} {w : Wrapper} :
      Rewrapped Kept (.expr e) (.expr e') → Rewrapped Kept (.expr e) (.expr (.wrapped s w e'))
  | inside {n n' : Node} : n.head = n'.head → KeepsParts Kept n n' →
      List.Forall₂ (Rewrapped Kept) n.parts n'.parts → Rewrapped Kept n n'

namespace Rewrapped
variable {Kept : Node → Position × Node → Prop} {n n' : Node} {e e' : Expr}

/-- No wrapper has to be put anywhere. -/
theorem refl (Kept : Node → Position × Node → Prop) (n : Node) : Rewrapped Kept n n := by
  induction n using Node.induction_children with
  | step n ih =>
      refine .inside rfl (List.forall₂_same.mpr fun _ _ _ => rfl) (List.forall₂_same.mpr ?_)
      intro x hx
      obtain ⟨c, hc, rfl⟩ := List.mem_map.mp hx
      exact ih c hc

/-- Wrappers are put below one child, or around it if it need not be kept. -/
theorem child {p : Position} {x x' : Node} (before after : List (Position × Node))
    (hhead : n.head = n'.head) (hn : n.children = before ++ (p, x) :: after)
    (hn' : n'.children = before ++ (p, x') :: after) (hx : Rewrapped Kept x x')
    (hkept : Kept n (p, x) → x.head = x'.head) : Rewrapped Kept n n' := by
  refine .inside hhead ?_ ?_
  · rw [KeepsParts, hn, hn']
    refine List.rel_append (List.forall₂_same.mpr fun _ _ _ => rfl) (.cons hkept ?_)
    exact List.forall₂_same.mpr fun _ _ _ => rfl
  · rw [Node.parts, Node.parts, hn, hn', List.map_append, List.map_append, List.map_cons,
      List.map_cons]
    refine List.rel_append ?_ (.cons hx ?_) <;> exact List.forall₂_same.mpr fun y _ => refl Kept y

theorem of_not_expr (h : Rewrapped Kept n n') (hn : ∀ e, n ≠ .expr e) :
    Agree (Rewrapped Kept) n n' := by
  cases h with
  | around _ => exact absurd rfl (hn _)
  | inside hhead _ hparts => exact ⟨hhead, hparts⟩

theorem keepsParts_of_not_expr (h : Rewrapped Kept n n') (hn : ∀ e, n ≠ .expr e) :
    KeepsParts Kept n n' := by
  cases h with
  | around _ => exact absurd rfl (hn _)
  | inside _ hkept _ => exact hkept

/-- No wrapper has been put around an expression that is none itself. -/
theorem of_isBare (h : Rewrapped Kept (.expr e) (.expr e')) (hbare : e'.IsBare) :
    Agree (Rewrapped Kept) (.expr e) (.expr e') := by
  cases h with
  | around _ => exact hbare.elim
  | inside hhead _ hparts => exact ⟨hhead, hparts⟩

/-- Under the wrappers the expressions agree. -/
theorem unwrap (h : Rewrapped Kept (.expr e) (.expr e')) :
    Agree (Rewrapped Kept) (.expr e.unwrap) (.expr e'.unwrap) := by
  induction e' using Expr.induction_unwrap generalizing e with
  | bare e' hbare =>
      have hagree := h.of_isBare hbare
      have hbare₀ : e.IsBare := by
        rw [← isBare_exprHead, Node.expr.inj hagree.head, isBare_exprHead]
        exact hbare
      rw [Expr.unwrap_of_isBare hbare, Expr.unwrap_of_isBare hbare₀]
      exact hagree
  | wrapped s w inner ih =>
      cases h with
      | around hinner => exact ih hinner
      | inside hhead _ hparts =>
          cases e with
          | wrapped s₀ w₀ inner₀ =>
              show Agree (Rewrapped Kept) (.expr inner₀.unwrap) (.expr inner.unwrap)
              exact ih (List.forall₂_cons.mp hparts).1
          | _ => cases hhead

theorem head_unwrap (h : Rewrapped Kept (.expr e) (.expr e')) :
    exprHead e.unwrap = exprHead e'.unwrap :=
  Node.expr.inj h.unwrap.head

end Rewrapped
end EmitLint.Syntax
