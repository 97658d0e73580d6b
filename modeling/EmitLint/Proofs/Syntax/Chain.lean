/-
# Optional chains made plain

An optional chain is a chain of calls, member accesses and non-null assertions, at
least one of them with `?.`, inside of one `chain` node.  Without `?.` the same links
stand there without that node.  `Unchained Drops` relates a tree to the tree in which
the chains that `Drops` picks are made plain in this way; spans may differ everywhere.

A chain that is called, or that is all of another chain, has parentheses around it in
every script, for otherwise it would go on; so in these two positions no bare chain is
made plain.

Main statement: `Unchained.unwrap`.  Under the wrappers the two expressions agree, or
the one is a chain that was made plain and the other one a link.
-/
import EmitLint.Proofs.Syntax.Rewriting

namespace EmitLint.Syntax

/-- A call or an access, or non-null assertions behind one. -/
def Expr.IsLink : Expr → Prop
  | .call .. | .member .. | .index .. | .privateMember .. => True
  | .wrapped _ .nonNull inner => inner.IsLink
  | _ => False

/-- The links of a chain without `?.`; what they begin with stays as it is. -/
def Expr.unmarked : Expr → Expr
  | .call s _ callee t args => .call s false callee.unmarked t args
  | .member s _ base property => .member s false base.unmarked property
  | .index s _ base key => .index s false base.unmarked key
  | .privateMember s _ base field => .privateMember s false base.unmarked field
  | .wrapped s .nonNull inner => .wrapped s .nonNull inner.unmarked
  | e => e

namespace Expr
variable {e e' : Expr}

/-- What links have and keep when one more is put behind them, all have; and so does what they
begin with, if it is no link. -/
theorem induction_links {motive : Expr → Prop}
    (call : ∀ s o callee t args, motive callee → motive (.call s o callee t args))
    (member : ∀ s o base property, motive base → motive (.member s o base property))
    (index : ∀ s o base key, motive base → motive (.index s o base key))
    (privateMember : ∀ s o base field, motive base → motive (.privateMember s o base field))
    (asserted : ∀ s inner, motive inner → motive (.wrapped s .nonNull inner))
    (start : ∀ e, e.unmarked = e → motive e) : ∀ e, motive e
  | .call s o callee t args => call s o callee t args
      (induction_links call member index privateMember asserted start callee)
  | .member s o base property => member s o base property
      (induction_links call member index privateMember asserted start base)
  | .index s o base key => index s o base key
      (induction_links call member index privateMember asserted start base)
  | .privateMember s o base field => privateMember s o base field
      (induction_links call member index privateMember asserted start base)
  | .wrapped s w inner => by
      cases w with
      | nonNull =>
          exact asserted s inner
            (induction_links call member index privateMember asserted start inner)
      | _ => exact start _ rfl
  | .name .. | .null .. | .string .. | .number .. | .atom .. | .template .. | .tagged ..
  | .array .. | .object .. | .function .. | .arrow .. | .classExpr .. | .new .. | .chain ..
  | .importCall .. | .unary .. | .update .. | .binary .. | .privateIn .. | .conditional ..
  | .assign .. | .sequence .. | .await .. | .yield .. | .instantiation .. | .jsx .. =>
      start _ rfl

theorem sizeOf_unmarked (e : Expr) : sizeOf e.unmarked = sizeOf e := by
  induction e using induction_links with
  | start e h => rw [h]
  | _ => simp_all [unmarked]

theorem IsLink.unmarked (h : e.IsLink) : e.unmarked.IsLink := by
  induction e using induction_links with
  | asserted s inner ih => exact ih h
  | start e heq =>
      rw [heq]
      exact h
  | _ => trivial

/-- A call or an access is told by its head. -/
theorem IsLink.of_head (h : e.IsLink) (hbare : e.IsBare) (hhead : exprHead e = exprHead e') :
    e'.IsLink := by
  cases e <;> first | exact h.elim | exact hbare.elim | (cases e' <;> trivial)

end Expr

/-- The second tree comes from the first one by making the chains plain that are picked. -/
inductive Unchained (Drops : Node → Prop) : Node → Node → Prop
  | dropped {s : Span} {body : Expr} {n' : Node} :
      Drops (.expr (.chain s body)) → body.IsLink →
      Unchained Drops (.expr body.unmarked) n' → Unchained Drops (.expr (.chain s body)) n'
  | inside {n n' : Node} : ¬ Drops n → n.head = n'.head →
      (∀ c ∈ n.children, c.1 = .callee ∨ c.1 = .chained → ¬ Drops c.2) →
      List.Forall₂ (Unchained Drops) n.parts n'.parts → Unchained Drops n n'

namespace Unchained
variable {Drops : Node → Prop} {n n' : Node} {e e' : Expr}

/-- Where nothing is picked, nothing changes. -/
theorem refl (h : ∀ x ∈ n.nodes, ¬ Drops x) : Unchained Drops n n := by
  induction n using Node.induction_children with
  | step n ih =>
      refine .inside (h n (Node.self_mem_nodes n)) rfl ?_ (List.forall₂_same.mpr ?_)
      · intro c hc _
        exact h c.2 (Node.child_mem_nodes hc)
      · intro x hx
        obtain ⟨c, hc, rfl⟩ := List.mem_map.mp hx
        exact ih c hc fun y hy => h y (Node.mem_nodes_of_child hc hy)

/-- What is not picked differs in its parts. -/
theorem agree (h : Unchained Drops n n') (hn : ¬ Drops n) : Agree (Unchained Drops) n n' := by
  cases h with
  | dropped hdrops _ _ => exact absurd hdrops hn
  | inside _ hhead _ hparts => exact ⟨hhead, hparts⟩

/-- In the two positions nothing is picked. -/
theorem not_drops (h : Unchained Drops n n') (hn : ¬ Drops n) :
    ∀ c ∈ n.children, c.1 = .callee ∨ c.1 = .chained → ¬ Drops c.2 := by
  cases h with
  | dropped hdrops _ _ => exact absurd hdrops hn
  | inside _ _ hkept _ => exact hkept

/-- Only chains are picked. -/
theorem agree_of_not_chain (h : Unchained Drops n n') (hn : ∀ s b, n ≠ .expr (.chain s b)) :
    Agree (Unchained Drops) n n' := by
  cases h with
  | dropped _ _ _ => exact absurd rfl (hn _ _)
  | inside _ hhead _ hparts => exact ⟨hhead, hparts⟩

theorem not_chain_of_isLink (h : e.IsLink) (s : Span) (b : Expr) :
    Node.expr e ≠ .expr (.chain s b) := by
  rintro ⟨rfl⟩
  exact h

/-- A link stays a link. -/
theorem isLink (h : Unchained Drops (.expr e) (.expr e')) (hlink : e.IsLink) : e'.IsLink := by
  have hagree := h.agree_of_not_chain (not_chain_of_isLink hlink)
  induction e using Expr.induction_unwrap generalizing e' with
  | bare e hbare => exact hlink.of_head hbare (Node.expr.inj hagree.head)
  | wrapped s w inner ih =>
      cases w with
      | nonNull =>
          obtain ⟨hhead, hparts⟩ := hagree
          cases e' with
          | wrapped s' w' inner' =>
              obtain rfl : Wrapper.nonNull = w' := (Expr.wrapped.inj (Node.expr.inj hhead)).2.1
              have hinner : Unchained Drops (.expr inner) (.expr inner') :=
                (List.forall₂_cons.mp hparts).1
              show inner'.IsLink
              exact ih hinner hlink (hinner.agree_of_not_chain (not_chain_of_isLink hlink))
          | _ => cases hhead
      | _ => exact hlink.elim

/-- An expression agrees with what becomes of it, or it is a chain that becomes a link. -/
theorem cases_expr (h : Unchained Drops (.expr e) (.expr e')) :
    Agree (Unchained Drops) (.expr e) (.expr e') ∨ (∃ s b, e = .chain s b) ∧ e'.IsLink := by
  cases h with
  | dropped _ hlink hbody => exact .inr ⟨⟨_, _, rfl⟩, isLink hbody hlink.unmarked⟩
  | inside _ hhead _ hparts => exact .inl ⟨hhead, hparts⟩

end Unchained

/-- Under its assertions a link is a call or an access. -/
theorem Expr.IsLink.unwrap {e : Expr} (h : e.IsLink) : e.unwrap.IsLink := by
  induction e using Expr.induction_unwrap with
  | bare e hbare =>
      rw [Expr.unwrap_of_isBare hbare]
      exact h
  | wrapped s w inner ih =>
      cases w with
      | nonNull => exact ih h
      | _ => exact h.elim

namespace Unchained
variable {Drops : Node → Prop} {e e' : Expr}

/-- Under the wrappers the expressions agree, or one is a chain and the other a link. -/
theorem unwrap (h : Unchained Drops (.expr e) (.expr e')) :
    Agree (Unchained Drops) (.expr e.unwrap) (.expr e'.unwrap) ∨
      (∃ s b, e.unwrap = .chain s b) ∧ e'.unwrap.IsLink := by
  induction e using Expr.induction_unwrap generalizing e' with
  | bare e hbare =>
      rw [Expr.unwrap_of_isBare hbare]
      rcases h.cases_expr with hagree | ⟨hchain, hlink⟩
      · have hbare' : e'.IsBare := by
          rw [← isBare_exprHead, ← Node.expr.inj hagree.head, isBare_exprHead]
          exact hbare
        rw [Expr.unwrap_of_isBare hbare']
        exact .inl hagree
      · exact .inr ⟨hchain, hlink.unwrap⟩
  | wrapped s w inner ih =>
      obtain ⟨hhead, hparts⟩ := h.agree_of_not_chain fun _ _ => nofun
      cases e' with
      | wrapped s' w' inner' =>
          have hinner : Unchained Drops (.expr inner) (.expr inner') :=
            (List.forall₂_cons.mp hparts).1
          show Agree (Unchained Drops) (.expr inner.unwrap) (.expr inner'.unwrap) ∨
            (∃ s b, inner.unwrap = .chain s b) ∧ inner'.unwrap.IsLink
          exact ih hinner
      | _ => cases hhead

end Unchained
end EmitLint.Syntax
