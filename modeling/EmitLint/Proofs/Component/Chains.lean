/-
# Optional chains and sites

The walk has two lists of forms: one for expressions, and one for what a chain is
around.  They should list the same children.  They differ in one form: a private
member is passed and its object visited where it is all of a chain, and left out
anywhere else (`lost_site`).

Main statement: `sites_of_unchained_iff`.  Whatever chains of a script are made plain,
the sites stay the same but for what is made plain inside of them, unless one of these
chains, at a place where the walk comes to it, is all of a private member in whose
object there is a site; then that site is lost.
-/
import EmitLint.Proofs.Component.Compare
import EmitLint.Proofs.Component.Forms
import EmitLint.Proofs.Syntax.Chain

namespace EmitLint.Component

open Syntax

/-- The node is a picked chain that is all of a private member, whose object is the expression. -/
inductive PicksField (Drops : Node → Prop) : Node → Expr → Prop
  | mk {s t : Span} {o : Bool} {object : Expr} {field : String} :
      Drops (.expr (.chain s (.privateMember t o object field))) →
      PicksField Drops (.expr (.chain s (.privateMember t o object field))) object

/-- Wherever the walk comes to such a chain, there is no site in the object. -/
def SparesSites (Drops : Node → Prop) (m : Mode) (n : Node) : Prop :=
  ∀ x object, PicksField Drops x object → n.Visits x → exprSites m object = []

section
variable {Drops : Node → Prop} {m : Mode} {n n' x : Node} {e e' : Expr}

/-! ## The walk along a chain -/

theorem visits_iff : n.Visits x ↔ x = n ∨ ∃ c ∈ n.walked, c.Visits x := by
  constructor
  · exact Node.visits_cases
  · intro h
    rcases h with rfl | ⟨c, hc, hx⟩
    · exact Node.visits_self x
    · exact Node.visits_of_walked hc hx

/-- The marks do not change which chains the walk comes to. -/
theorem visits_unmarked {s : Span} {b : Expr} (e : Expr) :
    (Node.expr e.unmarked).Visits (.expr (.chain s b)) ↔
      (Node.expr e).Visits (.expr (.chain s b)) := by
  induction e using Expr.induction_links with
  | start e h => rw [h]
  | call s o callee t args ih =>
      rw [Expr.unmarked, visits_iff, visits_iff (n := .expr (.call s o callee t args))]
      simp [Node.walked, Node.children, exprChildren, Position.isWalked, ih]
  | member s o base property ih =>
      rw [Expr.unmarked, visits_iff, visits_iff (n := .expr (.member s o base property))]
      simp [Node.walked, Node.children, exprChildren, Position.isWalked, ih]
  | index s o base key ih =>
      rw [Expr.unmarked, visits_iff, visits_iff (n := .expr (.index s o base key))]
      simp [Node.walked, Node.children, exprChildren, Position.isWalked, ih]
  | privateMember s o base field ih =>
      rw [Expr.unmarked, visits_iff, visits_iff (n := .expr (.privateMember s o base field))]
      simp [Node.walked, Node.children, exprChildren, Position.isWalked]
  | asserted s inner ih =>
      rw [Expr.unmarked, visits_iff, visits_iff (n := .expr (.wrapped s .nonNull inner))]
      simp [Node.walked, Node.children, exprChildren, Position.isWalked, ih]

theorem name?_unwrap_unmarked (e : Expr) : name? e.unmarked.unwrap = name? e.unwrap := by
  induction e using Expr.induction_links with
  | start e h => rw [h]
  | asserted s inner ih => exact ih
  | _ => rfl

theorem sameWords_unmarked (e : Expr) : SameWords e.unmarked e := by
  induction e using Expr.induction_links with
  | start e h =>
      rw [h]
      exact ⟨rfl, rfl, rfl⟩
  | member s o base property ih => exact ⟨rfl, name?_unwrap_unmarked base, rfl⟩
  | _ => exact ⟨rfl, rfl, rfl⟩

/-- The marks do not change the sites. -/
theorem exprSites_unmarked (m : Mode) (e : Expr) : exprSites m e.unmarked = exprSites m e := by
  induction e using Expr.induction_links with
  | start e h => rw [h]
  | call s o callee t args ih =>
      have hwords := sameWords_unmarked callee
      rw [Expr.unmarked, exprSites, exprSites, ih, callSite_eq, callSite_eq, hwords.name,
        hwords.receiver, hwords.member]
  | member s o base property ih => rw [Expr.unmarked, exprSites, exprSites, ih]
  | index s o base key ih => rw [Expr.unmarked, exprSites, exprSites, ih]
  | privateMember s o base field ih => rw [Expr.unmarked, exprSites, exprSites]
  | asserted s inner ih => rw [Expr.unmarked, exprSites, exprSites, ih]

/-- A chain has the sites of its links, unless it is all of a private member. -/
theorem exprSites_chain (m : Mode) {s : Span} {body : Expr} (h : field? body = none) :
    exprSites m (.chain s body) = exprSites m body := by
  cases body <;> first | rfl | exact nomatch h

/-! ## Trees with plain chains are alike -/

theorem literalText?_of_isLink (h : e.IsLink) : literalText? e = none := by
  cases e <;> first | rfl | exact h.elim

theorem name?_of_isLink (h : e.IsLink) : name? e = none := by
  cases e <;> first | rfl | exact h.elim

theorem not_isCollection_of_isLink (h : e.IsLink) : ¬ IsCollection e := by
  cases e <;> first | exact not_false | exact h.elim

theorem unchained_keyName? {k k' : Key} (h : Unchained Drops (.key k) (.key k')) :
    keyName? k = keyName? k' := by
  obtain ⟨hhead, hparts⟩ := h.agree_of_not_chain fun _ _ => Node.noConfusion
  cases k <;> cases k' <;> try cases hhead
  case name.name => rfl
  case privateName.privateName => rfl
  case expr.expr v v' =>
      have hvalue : Unchained Drops (.expr v) (.expr v') := (List.forall₂_cons.mp hparts).1
      rw [keyName?, keyName?]
      rcases hvalue.cases_expr with hagree | ⟨⟨s, b, rfl⟩, hlink⟩
      · rw [← literalText?_exprHead v, Node.expr.inj hagree.head, literalText?_exprHead]
      · rw [literalText?_of_isLink hlink]
        rfl

theorem unchained_likeness (Drops : Node → Prop) : Likeness (Unchained Drops) := by
  refine ⟨?_, unchained_keyName?, ?_⟩
  · intro n n' h hn
    exact h.agree_of_not_chain fun s b => hn (.chain s b)
  · intro e e' h
    rcases h.unwrap with hagree | ⟨⟨s, b, hchain⟩, hlink⟩
    · exact .inl hagree
    · rw [hchain]
      exact .inr ⟨not_false, not_isCollection_of_isLink hlink⟩

theorem unchained_name?_unwrap (h : Unchained Drops (.expr e) (.expr e')) :
    name? e.unwrap = name? e'.unwrap := by
  rcases h.unwrap with hagree | ⟨⟨s, b, hchain⟩, hlink⟩
  · rw [← name?_exprHead, Node.expr.inj hagree.head, name?_exprHead]
  · rw [hchain, name?_of_isLink hlink]
    rfl

/-- A callee that is not picked keeps its words, also where its receiver is a chain. -/
theorem unchained_words (h : Agree (Unchained Drops) (.expr e) (.expr e')) : SameWords e e' := by
  have hhead : exprHead e = exprHead e' := Node.expr.inj h.head
  have hmember : member? e = member? e' := by
    rw [← member?_exprHead, hhead, member?_exprHead]
  refine ⟨?_, ?_, hmember⟩
  · rw [← name?_exprHead, hhead, name?_exprHead]
  · cases e with
    | member s o base property =>
        cases e' with
        | member s' o' base' property' =>
            exact unchained_name?_unwrap (List.forall₂_cons.mp h.parts).1
        | _ => cases hhead
    | _ => exact (receiver?_eq_none hmember.symm).symm

theorem unchained_privateLike (h : Agree (Unchained Drops) (.expr e) (.expr e')) :
    PrivateLike (Unchained Drops) e e' := by
  cases hfield : field? e with
  | some field => exact .inr h
  | none =>
      refine .inl ⟨hfield, ?_⟩
      rw [← field?_exprHead, ← Node.expr.inj h.head, field?_exprHead, hfield]

theorem unchained_steady (h : Unchained Drops n n') (hn : ¬ Drops n) :
    List.Forall₂ (Steady (Unchained Drops)) n.children n'.children := by
  have hchildren : List.Forall₂
      (fun c c' => c ∈ n.children ∧ c.1 = c'.1 ∧ Unchained Drops c.2 c'.2)
      n.children n'.children :=
    (List.forall₂_and_left _ _).mpr ⟨fun _ => id, (h.agree hn).children⟩
  refine hchildren.imp ?_
  rintro ⟨p, x⟩ ⟨p', x'⟩ ⟨hmem, -, hx⟩
  constructor
  · rintro f f' ⟨⟩ ⟨⟩
    exact unchained_words (hx.agree (h.not_drops hn _ hmem (.inl rfl)))
  · rintro b b' ⟨⟩ ⟨⟩
    exact unchained_privateLike (hx.agree (h.not_drops hn _ hmem (.inr rfl)))

/-! ## Which sites are kept -/

/-- What is found in the second tree is some of what is found in the first one; it is all of it
exactly if the condition holds. -/
def Keeps (R : Site → Site → Prop) (all : Prop) (ss ss' : List Site) : Prop :=
  ∃ kept, kept.Sublist ss ∧ List.Forall₂ R kept ss' ∧ (kept = ss ↔ all)

section Keeps
variable {R : Site → Site → Prop} {all all₁ all₂ : Prop} {ss ss' ts ts' : List Site}

theorem keeps_of_forall₂ (h : List.Forall₂ R ss ss') : Keeps R True ss ss' :=
  ⟨ss, List.Sublist.refl ss, h, iff_of_true rfl trivial⟩

theorem Keeps.congr (h : Keeps R all₁ ss ss') (hall : all₁ ↔ all₂) : Keeps R all₂ ss ss' := by
  obtain ⟨kept, hsub, hrel, hkept⟩ := h
  exact ⟨kept, hsub, hrel, hkept.trans hall⟩

theorem Keeps.append (h : Keeps R all₁ ss ss') (h' : Keeps R all₂ ts ts') :
    Keeps R (all₁ ∧ all₂) (ss ++ ts) (ss' ++ ts') := by
  obtain ⟨kept, hsub, hrel, hkept⟩ := h
  obtain ⟨kept', hsub', hrel', hkept'⟩ := h'
  refine ⟨kept ++ kept', hsub.append hsub', List.rel_append hrel hrel', ?_⟩
  rw [← hkept, ← hkept']
  constructor
  · intro heq
    -- Two parts that are not longer than the parts of the whole are these parts.
    have hlength := congrArg List.length heq
    rw [List.length_append, List.length_append] at hlength
    have hle := hsub.length_le
    have hle' := hsub'.length_le
    exact ⟨hsub.eq_of_length (by omega), hsub'.eq_of_length (by omega)⟩
  · rintro ⟨rfl, rfl⟩
    rfl

theorem keeps_flatMap {xs xs' : List Node} {P : Node → Prop} {f f' : Node → List Site}
    (h : List.Forall₂ (fun x x' => Keeps R (P x) (f x) (f' x')) xs xs') :
    Keeps R (∀ x ∈ xs, P x) (xs.flatMap f) (xs'.flatMap f') := by
  induction h with
  | nil => exact (keeps_of_forall₂ .nil).congr (by simp)
  | cons hx _ ih => exact (hx.append ih).congr List.forall_mem_cons.symm

/-- All is kept exactly if what is found in both trees is the same. -/
theorem Keeps.forall₂_iff (h : Keeps R all ss ss') : List.Forall₂ R ss ss' ↔ all := by
  obtain ⟨kept, hsub, hrel, hkept⟩ := h
  rw [← hkept]
  constructor
  · intro hall
    exact hsub.eq_of_length (hrel.length_eq.trans hall.length_eq.symm)
  · rintro rfl
    exact hrel

end Keeps

/-! ## One chain, and the whole walk -/

theorem sparesSites_of_not_drops (hn : ¬ Drops n) :
    SparesSites Drops m n ↔ ∀ c ∈ n.walked, SparesSites Drops m c := by
  constructor
  · intro h c hc x object hx hvisits
    exact h x object hx (Node.visits_of_walked hc hvisits)
  · intro h x object hx hvisits
    rcases Node.visits_cases hvisits with rfl | ⟨c, hc, hcx⟩
    · cases hx with
      | mk hdrops => exact absurd hdrops hn
    · exact h c hc x object hx hcx

/-- What is spared in a chain that is no mere private member is spared in its links. -/
theorem sparesSites_chain {s : Span} {body : Expr} (hfield : field? body = none) :
    SparesSites Drops m (.expr (.chain s body)) ↔ SparesSites Drops m (.expr body.unmarked) := by
  have hwalked : (Node.expr (.chain s body)).walked = [.expr body] := by
    cases body <;> first | rfl | exact nomatch hfield
  refine forall₂_congr fun x object => forall_congr' fun hx => ?_
  cases hx with
  | @mk u t o object field hdrops =>
      rw [visits_unmarked, visits_iff, hwalked]
      have hne : Node.expr (.chain u (.privateMember t o object field)) ≠ .expr (.chain s body) := by
        rintro heq
        obtain ⟨-, rfl⟩ := Expr.chain.inj (Node.expr.inj heq)
        exact nomatch hfield
      simp [hne]

/-- In a chain that is all of a private member the sites of the object are not spared. -/
theorem sparesSites_field {s t : Span} {o : Bool} {object : Expr} {field : String}
    (hdrops : Drops (.expr (.chain s (.privateMember t o object field)))) :
    SparesSites Drops m (.expr (.chain s (.privateMember t o object field))) ↔
      exprSites m object = [] := by
  constructor
  · intro h
    exact h _ object (.mk hdrops) (Node.visits_self _)
  · intro hnil x other hx hvisits
    -- What the walk finds further down, it finds in the object.
    have hsub := Node.sites_sublist_of_visits (m := m) hvisits
    cases hx with
    | mk _ =>
        rw [Node.sites_expr, Node.sites_expr, exprSites, exprSites, hnil] at hsub
        exact List.sublist_nil.mp hsub

/-- What becomes of a private member is one, and has no sites. -/
theorem unchained_sites_eq_nil (h : Unchained Drops (.expr e) n')
    (hn : ∀ s b, Node.expr e ≠ .expr (.chain s b)) (hfield : (field? e).isSome) :
    n'.sites m = [] := by
  obtain ⟨e', rfl, hhead⟩ := expr_of_head (h.agree_of_not_chain hn).head
  have hfield' : (field? e').isSome := by
    rw [← field?_exprHead, ← hhead, field?_exprHead]
    exact hfield
  rw [Node.sites_expr]
  cases e' <;> first | rfl | exact nomatch hfield'

/-- The walk through the second tree finds some of the sites, and all of them exactly if they are
spared. -/
theorem keeps_sites (m : Mode) (h : Unchained Drops n n') :
    Keeps (SiteRel (Unchained Drops)) (SparesSites Drops m n) (n.sites m) (n'.sites m) := by
  induction n using Node.induction_size generalizing n' with
  | step n ih =>
      cases h with
      | @dropped s body n' hdrops hlink hbody =>
          have hsmaller : sizeOf (Node.expr body.unmarked) < sizeOf (Node.expr (.chain s body)) := by
            simp +arith [Expr.sizeOf_unmarked]
          have hkeeps := ih (.expr body.unmarked) hsmaller hbody
          cases hfield : field? body with
          | none =>
              rw [Node.sites_expr, exprSites_unmarked, ← exprSites_chain m (s := s) hfield] at hkeeps
              exact hkeeps.congr (sparesSites_chain hfield).symm
          | some field =>
              cases body with
              | privateMember t o object f =>
                  rw [Node.sites_expr, exprSites,
                    unchained_sites_eq_nil hbody (Unchained.not_chain_of_isLink hlink.unmarked) rfl]
                  refine ⟨[], List.nil_sublist _, .nil, ?_⟩
                  rw [sparesSites_field hdrops, eq_comm]
              | _ => cases hfield
      | inside hn hhead hkept hparts =>
          have h : Unchained Drops n n' := .inside hn hhead hkept hparts
          have hagree := h.agree hn
          have hsteady := unchained_steady h hn
          rw [Node.sites_eq, Node.sites_eq]
          have hown : Keeps (SiteRel (Unchained Drops)) True (n.ownSites m) (n'.ownSites m) :=
            keeps_of_forall₂ ((unchained_likeness Drops).ownSites m hagree hsteady)
          have hwalked : List.Forall₂ (fun x x' => x ∈ n.walked ∧ Unchained Drops x x')
              n.walked n'.walked :=
            (List.forall₂_and_left _ _).mpr ⟨fun _ => id, rel_walked hagree hsteady⟩
          have hinner : List.Forall₂
              (fun x x' => Keeps (SiteRel (Unchained Drops)) (SparesSites Drops m x)
                (x.sites m) (x'.sites m)) n.walked n'.walked :=
            hwalked.imp fun x x' hx => ih x (Node.sizeOf_walked hx.1) hx.2
          refine (hown.append (keeps_flatMap hinner)).congr ?_
          rw [true_and]
          exact (sparesSites_of_not_drops hn).symm

end

/-- Where picked chains of a program are made plain, the sites are the same as before, but for
chains made plain inside of them, exactly if there is no site in the object of a private member
that is all of a picked chain to which the walk comes. -/
theorem sites_of_unchained_iff {Drops : Node → Prop} (m : Mode) {program program' : Program}
    (h : Unchained Drops program.root program'.root) :
    List.Forall₂ (SiteRel (Unchained Drops)) (sites m program) (sites m program') ↔
      SparesSites Drops m program.root :=
  (keeps_sites m h).forall₂_iff

/-- All chains are picked. -/
def IsChain : Node → Prop
  | .expr (.chain ..) => True
  | _ => False

/-- The script `app?.mixin({})`, or what stands in the place of the chain. -/
def mixinScript (value : Expr) : Program := ⟨[.expression ⟨0, 14⟩ value]⟩

/-- The links of `app?.mixin({})`. -/
def mixinCall : Expr :=
  .call ⟨0, 14⟩ false (.member ⟨0, 10⟩ true (.name ⟨0, 3⟩ "app") "mixin") false
    [.item (.object ⟨11, 13⟩ [])]

/-- The chain is no private member, so its site is not lost. -/
theorem sites_of_unchained_mixin :
    Unchained IsChain (mixinScript (.chain ⟨0, 14⟩ mixinCall)).root
      (mixinScript mixinCall.unmarked).root ∧
    (sites ⟨.plain, true⟩ (mixinScript mixinCall.unmarked)).length = 1 ∧
    SparesSites IsChain ⟨.plain, true⟩ (mixinScript (.chain ⟨0, 14⟩ mixinCall)).root := by
  have hplain : Unchained IsChain (.expr mixinCall.unmarked) (.expr mixinCall.unmarked) := by
    refine Unchained.refl ?_
    simp [mixinCall, Expr.unmarked, Node.nodes_expr, Node.nodes_element, exprChildren,
      elementChildren, partsAt, IsChain]
  have h : Unchained IsChain (mixinScript (.chain ⟨0, 14⟩ mixinCall)).root
      (mixinScript mixinCall.unmarked).root := by
    refine .inside ?_ rfl ?_ (.cons (.inside ?_ rfl ?_ (.cons (.dropped ?_ ?_ hplain) .nil)) .nil)
    all_goals simp [IsChain, mixinScript, mixinCall, Expr.IsLink, Node.children, stmtChildren,
      partsAt, Program.root]
  refine ⟨h, rfl, (sites_of_unchained_iff ⟨.plain, true⟩ h).mp ?_⟩
  exact .cons (.options .nil) .nil

/-- The script `class A { #o; f() { return value } }`, where the value ends there. -/
def returning (stop : Nat) (value : Expr) : Program :=
  ⟨[.classDecl ⟨0, stop + 4⟩ (.mk [] none
    [.field [] (.privateName ⟨10, 12⟩ "o") none,
      .method [] (.name ⟨14, 15⟩ "f") (.mk [] [.returns ⟨20, stop⟩ (some value)])])]⟩

/-- A call with a component, and `?.#o` behind it. -/
def fieldChain : Expr := .chain ⟨27, 64⟩ (.privateMember ⟨27, 64⟩ true unvisitedCall "o")

/-- The same with `.#o`. -/
def plainField (stop : Nat) : Expr := .privateMember ⟨27, stop⟩ false unvisitedCall "o"

/-- The component is found where there is a chain, and lost in the plain member. -/
theorem lost_site :
    Unchained IsChain (returning 64 fieldChain).root (returning 63 (plainField 63)).root ∧
    (sites ⟨.plain, true⟩ (returning 64 fieldChain)).length = 1 ∧
    sites ⟨.plain, true⟩ (returning 63 (plainField 63)) = [] := by
  have hplain : Unchained IsChain (.expr (plainField 64)) (.expr (plainField 63)) := by
    have hcall : Unchained IsChain (.expr unvisitedCall) (.expr unvisitedCall) := by
      refine .refl ?_
      simp [unvisitedCall, Node.nodes_expr, Node.nodes_element, Node.nodes_property,
        Node.nodes_key, exprChildren, elementChildren, propertyChildren, keyChildren, partsAt,
        IsChain]
    refine .inside ?_ rfl ?_ (.cons hcall .nil)
    all_goals simp [plainField, unvisitedCall, IsChain, Node.children, exprChildren]
  have hmember : Unchained IsChain
      (.member (.field [] (.privateName ⟨10, 12⟩ "o") none))
      (.member (.field [] (.privateName ⟨10, 12⟩ "o") none)) := by
    refine .inside not_false rfl ?_ (.cons (.inside not_false rfl ?_ .nil) .nil)
    all_goals simp [Node.children, memberChildren, keyChildren, partsAt]
  have hkey : Unchained IsChain (.key (.name ⟨14, 15⟩ "f")) (.key (.name ⟨14, 15⟩ "f")) := by
    refine .inside not_false rfl ?_ .nil
    simp [Node.children, keyChildren]
  refine ⟨?_, rfl, rfl⟩
  refine .inside not_false rfl ?_ (.cons ?_ .nil)
  · simp [returning, Program.root, Node.children, partsAt]
  refine .inside not_false rfl ?_ (.cons ?_ .nil)
  · simp [Node.children, stmtChildren]
  refine .inside not_false rfl ?_ (.cons hmember (.cons ?_ .nil))
  · simp [Node.children, classChildren, partsAt]
  refine .inside not_false rfl ?_ (.cons hkey (.cons ?_ .nil))
  · simp [Node.children, memberChildren, partsAt]
  refine .inside not_false rfl ?_ (.cons ?_ .nil)
  · simp [Node.children, functionChildren, partsAt]
  refine .inside not_false rfl ?_ (.cons (.dropped trivial trivial hplain) .nil)
  simp [Node.children, stmtChildren, partsAt]

end EmitLint.Component
