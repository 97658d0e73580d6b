/-
# A program with one `null` settled

The rule suggests to put a function that accepts everything in place of a
`null`.  `Settled t` relates the trees of a script before and after: below the
`null` at `t`, or the wrappers around it, stands such a function; all else is
as before, but for spans, which move.

Main statement: `settled_sites`.  The sites of the settled program are those of
the program, one for one and in order, each with its parts settled; what they
declare is compared in `settled_emits`.
-/
import EmitLint.Proofs.Component.Compare
import EmitLint.Rule.EmitValidator

namespace EmitLint.EmitValidator

open Component Syntax

/-- The `null` at a span, but for wrappers around it. -/
def IsNullAt (t : Span) (n : Node) : Prop := ∃ e, n = .expr e ∧ e.unwrap = .null t

/-- An arrow function without parameters, whose body is an expression without
parts such as `true`.  Wrappers may stand around both. -/
def AcceptsAll (e : Expr) : Prop :=
  ∃ s r body a, e.unwrap = .arrow s (.mk [] [.expression r body]) ∧ body.unwrap = .atom a

/-- The second tree is the first one with the `null` at `t` settled. -/
def Settled (t : Span) : Node → Node → Prop :=
  Rewritten (IsNullAt t) fun _ n' => ∃ e, n' = .expr e ∧ AcceptsAll e

section
variable {t : Span} {n n' : Node} {e e' : Expr}

/-! ## Settled expressions -/

/-- Either the `null` is all of the expression, or it lies in its parts. -/
theorem settled_expr (h : Settled t (.expr e) n') :
    ∃ e', n' = .expr e' ∧ (e.unwrap = .null t ∧ AcceptsAll e' ∨
      e.unwrap ≠ .null t ∧ Agree (Settled t) (.expr e) (.expr e')) := by
  cases h with
  | here hredex hreplaced =>
      obtain ⟨e₁, heq, hnull⟩ := hredex
      obtain rfl := Node.expr.inj heq
      obtain ⟨e', rfl, haccepts⟩ := hreplaced
      exact ⟨e', rfl, .inl ⟨hnull, haccepts⟩⟩
  | inside hnot hhead hparts =>
      obtain ⟨e', rfl, -⟩ := expr_of_head hhead
      exact ⟨e', rfl, .inr ⟨fun hnull => hnot ⟨e, rfl, hnull⟩, hhead, hparts⟩⟩

theorem settled_cases (h : Settled t (.expr e) (.expr e')) :
    e.unwrap = .null t ∧ AcceptsAll e' ∨
      e.unwrap ≠ .null t ∧ Agree (Settled t) (.expr e) (.expr e') := by
  obtain ⟨e₁, heq, h⟩ := settled_expr h
  obtain rfl := Node.expr.inj heq
  exact h

/-- What is no expression is settled in its parts. -/
theorem settled_parts (h : Settled t n n') (hn : ∀ e, n ≠ .expr e) :
    Agree (Settled t) n n' :=
  h.of_not_redex fun ⟨e, he, _⟩ => hn e he

theorem settled_bare (hbare : e.IsBare) (h : Settled t (.expr e) (.expr e')) :
    Settled t (.expr e) (.expr e'.unwrap) := by
  rcases settled_cases h with ⟨hnull, s, r, body, a, harrow, hbody⟩ | ⟨-, hhead, -⟩
  · refine .here ⟨e, rfl, hnull⟩ ⟨e'.unwrap, rfl, s, r, body, a, ?_, hbody⟩
    rw [Expr.unwrap_unwrap, harrow]
  · have hbare' : e'.IsBare := by
      rw [← isBare_exprHead, ← Node.expr.inj hhead, isBare_exprHead]
      exact hbare
    rw [Expr.unwrap_of_isBare hbare']
    exact h

/-- Wrappers do not matter. -/
theorem settled_unwrap (h : Settled t (.expr e) (.expr e')) :
    Settled t (.expr e.unwrap) (.expr e'.unwrap) := by
  induction e using Expr.induction_unwrap generalizing e' with
  | bare e hbare =>
      rw [Expr.unwrap_of_isBare hbare]
      exact settled_bare hbare h
  | wrapped s w inner ih =>
      rcases settled_cases h with ⟨hnull, s, r, body, a, harrow, hbody⟩ | ⟨-, hhead, hparts⟩
      · refine .here ⟨inner.unwrap, rfl, ?_⟩ ⟨e'.unwrap, rfl, s, r, body, a, ?_, hbody⟩
        · rw [Expr.unwrap_unwrap, ← hnull, Expr.unwrap]
        · rw [Expr.unwrap_unwrap, harrow]
      · cases e' with
        | wrapped s' w' inner' =>
            show Settled t (.expr inner.unwrap) (.expr inner'.unwrap)
            have hinner : Settled t (.expr inner) (.expr inner') :=
              (List.forall₂_cons.mp hparts).1
            exact ih hinner
        | _ => cases hhead

/-- What a head tells, and a `null` and a wrapped expression and a function do
not have, stays as it was. -/
theorem settled_congr {α : Type} {f : Expr → Option α} (hf : ∀ e, f (exprHead e) = f e)
    (hnull : ∀ s, f (.null s) = none) (harrow : ∀ s fn, f (.arrow s fn) = none)
    (hwrapped : ∀ s w inner, f (.wrapped s w inner) = none)
    (h : Settled t (.expr e) (.expr e')) : f e = f e' := by
  rcases settled_cases h with ⟨hunwrap, s, r, body, a, hunwrap', -⟩ | ⟨-, hhead, -⟩
  · have he : f e = none := by
      cases e with
      | wrapped s w inner => exact hwrapped s w inner
      | null s => exact hnull s
      | _ => cases hunwrap
    have he' : f e' = none := by
      cases e' with
      | wrapped s w inner => exact hwrapped s w inner
      | arrow s fn => exact harrow s fn
      | _ => cases hunwrap'
    rw [he, he']
  · rw [← hf e, Node.expr.inj hhead, hf e']

/-! ## Settling as a likeness -/

theorem settled_literalText? (h : Settled t (.expr e) (.expr e')) :
    literalText? e = literalText? e' :=
  settled_congr literalText?_exprHead (fun _ => rfl) (fun _ _ => rfl) (fun _ _ _ => rfl) h

theorem settled_keyName? {k k' : Key} (h : Settled t (.key k) (.key k')) :
    keyName? k = keyName? k' := by
  obtain ⟨hhead, hparts⟩ := settled_parts h fun _ => Node.noConfusion
  cases k <;> cases k' <;> try cases hhead
  case name.name => rfl
  case privateName.privateName => rfl
  case expr.expr e e' => exact settled_literalText? (List.forall₂_cons.mp hparts).1

/-- Neither a `null` nor a function is an array or an object. -/
theorem settled_value (h : Settled t (.expr e) (.expr e')) :
    Agree (Settled t) (.expr e.unwrap) (.expr e'.unwrap) ∨
      ¬ IsCollection e.unwrap ∧ ¬ IsCollection e'.unwrap := by
  rcases settled_cases (settled_unwrap h) with ⟨hnull, s, r, body, a, harrow, -⟩ | ⟨-, hagree⟩
  · rw [Expr.unwrap_unwrap] at hnull harrow
    rw [hnull, harrow]
    exact .inr ⟨id, id⟩
  · exact .inl hagree

theorem settled_likeness (t : Span) : Likeness (Settled t) :=
  ⟨settled_parts, settled_keyName?, settled_value⟩

/-! ## Settled sites -/

theorem settled_name? (h : Settled t (.expr e) (.expr e')) : name? e = name? e' :=
  settled_congr name?_exprHead (fun _ => rfl) (fun _ _ => rfl) (fun _ _ _ => rfl) h

theorem settled_member? (h : Settled t (.expr e) (.expr e')) : member? e = member? e' :=
  settled_congr member?_exprHead (fun _ => rfl) (fun _ _ => rfl) (fun _ _ _ => rfl) h

theorem settled_receiver? (h : Settled t (.expr e) (.expr e')) : receiver? e = receiver? e' := by
  have hmember := settled_member? h
  rcases settled_cases h with ⟨hnull, -⟩ | ⟨-, hhead, hparts⟩
  · have hnone : member? e = none := by
      cases e <;> first | rfl | cases hnull
    rw [receiver?_eq_none hnone, receiver?_eq_none (hmember.symm.trans hnone)]
  · cases e with
    | member s o object property =>
        cases e' with
        | member s' o' object' property' =>
            exact settled_name? (settled_unwrap (List.forall₂_cons.mp hparts).1)
        | _ => cases hhead
    | _ => exact (receiver?_eq_none hmember.symm).symm

theorem settled_field? (h : Settled t (.expr e) (.expr e')) : field? e = field? e' :=
  settled_congr field?_exprHead (fun _ => rfl) (fun _ _ => rfl) (fun _ _ _ => rfl) h

theorem settled_privateLike (h : Settled t (.expr e) (.expr e')) :
    PrivateLike (Settled t) e e' := by
  rcases settled_cases h with ⟨hnull, -⟩ | ⟨-, hagree⟩
  · have hnone : field? e = none := by
      cases e <;> first | rfl | cases hnull
    exact .inl ⟨hnone, (settled_field? h).symm.trans hnone⟩
  · exact .inr hagree

theorem settled_steady (h : Agree (Settled t) n n') :
    List.Forall₂ (Steady (Settled t)) n.children n'.children := by
  refine h.children.imp ?_
  rintro ⟨p, x⟩ ⟨p', x'⟩ ⟨-, hx⟩
  constructor
  · rintro f f' ⟨⟩ ⟨⟩
    exact ⟨settled_name? hx, settled_receiver? hx, settled_member? hx⟩
  · rintro b b' ⟨⟩ ⟨⟩
    exact settled_privateLike hx

theorem exprSites_of_acceptsAll (m : Mode) (h : AcceptsAll e) : exprSites m e = [] := by
  obtain ⟨s, r, body, a, harrow, hbody⟩ := h
  have hnil : exprSites m body = [] := by
    rw [← exprSites_unwrap, hbody, exprSites]
  rw [← exprSites_unwrap, harrow]
  simp [exprSites, functionSites, stmtSites, hnil]

/-- The sites of a settled tree are those of the tree, settled. -/
theorem settled_sites (m : Mode) (h : Settled t n n') :
    List.Forall₂ (SiteRel (Settled t)) (n.sites m) (n'.sites m) := by
  induction n using Node.induction_size generalizing n' with
  | step n ih =>
      by_cases hn : IsNullAt t n
      · obtain ⟨e, rfl, hnull⟩ := hn
        obtain ⟨e', rfl, ⟨-, haccepts⟩ | ⟨hnot, -⟩⟩ := settled_expr h
        · rw [Node.sites_expr, Node.sites_expr, exprSites_of_acceptsAll m haccepts,
            ← exprSites_unwrap, hnull, exprSites]
          exact .nil
        · exact absurd hnull hnot
      · have hagree := h.of_not_redex hn
        have hsteady := settled_steady hagree
        rw [Node.sites_eq, Node.sites_eq]
        refine List.rel_append ((settled_likeness t).ownSites m hagree hsteady) ?_
        have hwalked : List.Forall₂ (fun x x' => sizeOf x < sizeOf n ∧ Settled t x x')
            n.walked n'.walked :=
          (List.forall₂_and_left _ _).mpr ⟨fun x => Node.sizeOf_walked, rel_walked hagree hsteady⟩
        exact List.rel_flatMap hwalked fun x x' hx => ih x hx.1 hx.2

end
end EmitLint.EmitValidator
