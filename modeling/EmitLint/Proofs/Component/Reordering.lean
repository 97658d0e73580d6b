/-
# Reordering the entries of collections

Nothing in a definition of emits says which entry comes first, and so nothing
should depend on it but the order in which entries are reported.  `Reordered`
relates a tree to the trees that come from it by permuting the entries of arrays
and objects, at the addresses at which this is allowed; an entry takes its inside
along, where the same may be done again.  Spans may differ everywhere.

Main statements: `Moves.sites` and `sparesOptions_definitionsAt`.  As long as no
options object is touched, the sites of the two trees are the same, but for their
order and for what is permuted below them.  An options object has to be left
alone, since of two properties called `emits` the first one counts; and it is, if
only definitions of emits are permuted, since none of them is an options object.
-/
import EmitLint.Proofs.Component.Compare
import EmitLint.Proofs.Component.Located
import EmitLint.Proofs.Component.Ownership
import Mathlib.Data.List.Perm.Basic

namespace EmitLint.Syntax

open Component

/-! ## Shuffled lists -/

/-- The members are related one by one, and then put into any order. -/
def Shuffled {α β : Type} (R : α → β → Prop) (as : List α) (bs : List β) : Prop :=
  ∃ cs, List.Forall₂ R as cs ∧ cs.Perm bs

namespace Shuffled
variable {α β γ δ : Type} {R : α → β → Prop} {S : γ → δ → Prop} {as as' : List α} {bs bs' : List β}

theorem of_forall₂ (h : List.Forall₂ R as bs) : Shuffled R as bs := ⟨bs, h, .refl _⟩

theorem perm (h : Shuffled R as bs) (hperm : bs.Perm bs') : Shuffled R as bs' := by
  obtain ⟨cs, hcs, hbs⟩ := h
  exact ⟨cs, hcs, hbs.trans hperm⟩

theorem append (h : Shuffled R as bs) (h' : Shuffled R as' bs') :
    Shuffled R (as ++ as') (bs ++ bs') := by
  obtain ⟨cs, hcs, hbs⟩ := h
  obtain ⟨cs', hcs', hbs'⟩ := h'
  exact ⟨cs ++ cs', List.rel_append hcs hcs', hbs.append hbs'⟩

theorem filterMap {f : α → Option γ} {g : β → Option δ} (h : Shuffled R as bs)
    (hfg : ∀ a b, R a b → Option.Rel S (f a) (g b)) :
    Shuffled S (as.filterMap f) (bs.filterMap g) := by
  obtain ⟨cs, hcs, hbs⟩ := h
  exact ⟨cs.filterMap g, List.rel_filterMap (fun a b => hfg a b) hcs, hbs.filterMap g⟩

theorem flatMap {f : α → List γ} {g : β → List δ} (h : Shuffled R as bs)
    (hfg : ∀ a ∈ as, ∀ b, R a b → Shuffled S (f a) (g b)) :
    Shuffled S (as.flatMap f) (bs.flatMap g) := by
  obtain ⟨cs, hcs, hbs⟩ := h
  refine perm ?_ (hbs.flatMap_right g)
  clear hbs
  induction hcs with
  | nil => exact of_forall₂ .nil
  | @cons a c as cs hac _ ih =>
      rw [List.flatMap_cons, List.flatMap_cons]
      refine append (hfg a List.mem_cons_self c hac) (ih fun a ha => ?_)
      exact hfg a (List.mem_cons_of_mem _ ha)

end Shuffled

/-! ## Reordered trees -/

/-- An array or an object. -/
def Node.IsCollection (n : Node) : Prop := ∃ e, n = .expr e ∧ Component.IsCollection e

mutual

/-- The second tree comes from the first one by permuting the entries of arrays and objects that
are at free addresses. -/
inductive Reordered : (Address → Prop) → Node → Node → Prop
  | kept {Free : Address → Prop} {n n' : Node} : n.head = n'.head →
      PartsReordered Free 0 n.parts n'.parts → Reordered Free n n'
  | permuted {Free : Address → Prop} {n n' : Node} {parts : List Node} : n.head = n'.head →
      n.IsCollection → Free [] → PartsReordered Free 0 n.parts parts → parts.Perm n'.parts →
      Reordered Free n n'

/-- Each part is reordered by itself; the first one listed is the part of this number. -/
inductive PartsReordered : (Address → Prop) → Nat → List Node → List Node → Prop
  | nil {Free : Address → Prop} {i : Nat} : PartsReordered Free i [] []
  | cons {Free : Address → Prop} {i : Nat} {x y : Node} {xs ys : List Node} :
      Reordered (fun a => Free (i :: a)) x y → PartsReordered Free (i + 1) xs ys →
      PartsReordered Free i (x :: xs) (y :: ys)

end

/-- No options object is free, nor what could be one. -/
def SparesOptions (Free : Address → Prop) (n : Node) : Prop :=
  ∀ a x p, n.at? a = some x → OptionsIn x p → ¬ Free (a ++ siteAddress x)

/-- The second tree comes from the first one by permuting entries, but not those of options
objects. -/
def Moves (n n' : Node) : Prop := ∃ Free, SparesOptions Free n ∧ Reordered Free n n'

variable {Free : Address → Prop} {n n' x : Node} {e e' : Expr} {a : Address}

theorem SparesOptions.at? (h : SparesOptions Free n) (hx : n.at? a = some x) :
    SparesOptions (fun b => Free (a ++ b)) x := by
  intro b y p hy hp
  show ¬ Free (a ++ (b ++ siteAddress y))
  rw [← List.append_assoc]
  exact h (a ++ b) y p (by rw [Node.at?_append_of_at? hx, hy]) hp

theorem Node.at?_of_part {i : Nat} (h : n.parts[i]? = some x) : n.at? [i] = some x := by
  rw [parts, List.getElem?_map, Option.map_eq_some_iff] at h
  obtain ⟨⟨p, y⟩, hchild, rfl⟩ := h
  rw [at?_cons_of_child hchild, at?_nil]

theorem not_isCollection_of_not_expr (h : ∀ e, n ≠ .expr e) : ¬ n.IsCollection := by
  rintro ⟨e, rfl, -⟩
  exact h e rfl

theorem isCollection_expr : (Node.expr e).IsCollection ↔ IsCollection e := by
  constructor
  · rintro ⟨e', he, hcollection⟩
    exact Node.expr.inj he ▸ hcollection
  · exact fun h => ⟨e, rfl, h⟩

theorem PartsReordered.length_eq {i : Nat} {xs ys : List Node}
    (h : PartsReordered Free i xs ys) : xs.length = ys.length := by
  induction xs generalizing i ys with
  | nil =>
      cases h with
      | nil => rfl
  | cons x xs ih =>
      cases h with
      | cons _ hxs => exact congrArg (· + 1) (ih hxs)

theorem PartsReordered.part {i k : Nat} {xs ys : List Node} {y : Node}
    (h : PartsReordered Free i xs ys) (hx : xs[k]? = some x) (hy : ys[k]? = some y) :
    Reordered (fun a => Free ((i + k) :: a)) x y := by
  induction xs generalizing i k ys with
  | nil => cases hx
  | cons x₀ xs ih =>
      cases h with
      | cons hhead hxs =>
          cases k with
          | zero =>
              obtain rfl := Option.some.inj hx
              obtain rfl := Option.some.inj hy
              exact hhead
          | succ k =>
              have hpart := ih hxs hx hy
              rwa [Nat.add_right_comm] at hpart

namespace Reordered

theorem head (h : Reordered Free n n') : n.head = n'.head := by
  cases h with
  | kept hhead _ => exact hhead
  | permuted hhead _ _ _ _ => exact hhead

/-- Where nothing is permuted, the parts are reordered in their places. -/
theorem part (h : Reordered Free n n') (hn : ¬ (n.IsCollection ∧ Free [])) {i : Nat} {y : Node}
    (hx : n.parts[i]? = some x) (hy : n'.parts[i]? = some y) :
    Reordered (fun a => Free (i :: a)) x y := by
  cases h with
  | kept _ hparts =>
      have hpart := hparts.part hx hy
      rwa [Nat.zero_add] at hpart
  | permuted _ hcollection hfree _ _ => exact absurd ⟨hcollection, hfree⟩ hn

theorem leaf (hhead : n.head = n'.head) (hn : n.parts = []) : Reordered Free n n' := by
  have hn' : n'.parts = [] := by
    have hpositions : n.children.map (·.1) = n'.children.map (·.1) := by
      rw [← Node.positions_head, hhead, Node.positions_head]
    rw [Node.parts, List.map_eq_nil_iff] at hn ⊢
    rwa [hn, eq_comm, List.map_nil, List.map_eq_nil_iff] at hpositions
  refine .kept hhead ?_
  rw [hn, hn']
  exact .nil

/-- Below wrappers. -/
theorem unwrap (h : Reordered Free (.expr e) (.expr e')) :
    Reordered (fun a => Free (e.unwrapAt ++ a)) (.expr e.unwrap) (.expr e'.unwrap) := by
  induction e using Expr.induction_unwrap generalizing e' Free with
  | bare e hbare =>
      have hbare' : e'.IsBare := by
        rw [← isBare_exprHead, ← Node.expr.inj h.head, isBare_exprHead]
        exact hbare
      rw [Expr.unwrapAt_of_isBare hbare, Expr.unwrap_of_isBare hbare, Expr.unwrap_of_isBare hbare']
      exact h
  | wrapped s w inner ih =>
      have hhead := h.head
      cases e' with
      | wrapped s' w' inner' =>
          exact ih (h.part (fun hn => isCollection_expr.mp hn.1) (i := 0) rfl rfl)
      | _ => cases hhead

end Reordered

/-! ## Moved trees -/

namespace Moves

theorem head (h : Moves n n') : n.head = n'.head := by
  obtain ⟨_, -, h⟩ := h
  exact h.head

theorem of_parts {i : Nat} {xs ys : List Node} (h : PartsReordered Free i xs ys)
    (hspares : ∀ k x, xs[k]? = some x → SparesOptions (fun a => Free ((i + k) :: a)) x) :
    List.Forall₂ Moves xs ys := by
  refine List.forall₂_iff_get.mpr ⟨h.length_eq, fun k hk hk' => ?_⟩
  have hx : xs[k]? = some xs[k] := List.getElem?_eq_getElem hk
  exact ⟨_, hspares k _ hx, h.part hx (List.getElem?_eq_getElem hk')⟩

end Moves

theorem SparesOptions.parts (h : SparesOptions Free n) (k : Nat) (x : Node)
    (hx : n.parts[k]? = some x) : SparesOptions (fun a => Free ((0 + k) :: a)) x := by
  rw [Nat.zero_add]
  exact h.at? (Node.at?_of_part hx)

/-- Where nothing is permuted, the parts are in their places. -/
theorem Reordered.agree (h : Reordered Free n n') (hspares : SparesOptions Free n)
    (hn : ¬ (n.IsCollection ∧ Free [])) : Agree Moves n n' := by
  cases h with
  | kept hhead hparts => exact ⟨hhead, Moves.of_parts hparts hspares.parts⟩
  | permuted _ hcollection hfree _ _ => exact absurd ⟨hcollection, hfree⟩ hn

namespace Moves

/-- The parts are moved in turn, and are themselves in any order. -/
theorem parts (h : Moves n n') : Shuffled Moves n.parts n'.parts := by
  obtain ⟨Free, hspares, h⟩ := h
  cases h with
  | kept _ hparts => exact .of_forall₂ (of_parts hparts hspares.parts)
  | permuted _ _ _ hparts hperm => exact ⟨_, of_parts hparts hspares.parts, hperm⟩

theorem agree (h : Moves n n') (hn : ¬ n.IsCollection) : Agree Moves n n' := by
  obtain ⟨Free, hspares, h⟩ := h
  exact h.agree hspares fun hfree => hn hfree.1

theorem unwrap (h : Moves (.expr e) (.expr e')) : Moves (.expr e.unwrap) (.expr e'.unwrap) := by
  obtain ⟨Free, hspares, h⟩ := h
  exact ⟨_, hspares.at? (Node.at?_unwrapAt e), h.unwrap⟩

theorem head_unwrap (h : Moves (.expr e) (.expr e')) : exprHead e.unwrap = exprHead e'.unwrap :=
  Node.expr.inj h.unwrap.head

theorem keyName? {k k' : Key} (h : Moves (.key k) (.key k')) :
    Component.keyName? k = Component.keyName? k' := by
  obtain ⟨hhead, hparts⟩ := h.agree (not_isCollection_of_not_expr fun _ => Node.noConfusion)
  cases k <;> cases k' <;> try cases hhead
  case name.name => rfl
  case privateName.privateName => rfl
  case expr.expr e e' =>
      have hvalue := (List.forall₂_cons.mp hparts).1.head
      rw [Component.keyName?, Component.keyName?, ← literalText?_exprHead e,
        Node.expr.inj hvalue, literalText?_exprHead]

theorem property {p p' : Property} (h : Moves (.property p) (.property p')) :
    PropertyRel Moves p p' :=
  propertyRel_of_agree keyName? (h.agree (not_isCollection_of_not_expr fun _ => Node.noConfusion))

theorem element {b b' : Element} (h : Moves (.element b) (.element b')) : ElementRel Moves b b' :=
  elementRel_of_agree (h.agree (not_isCollection_of_not_expr fun _ => Node.noConfusion))

/-- A callee has kept its words. -/
theorem words (h : Moves (.expr e) (.expr e')) : SameWords e e' := by
  refine sameWords_of_head (Node.expr.inj h.head) ?_
  rintro s s' o o' object object' property property' rfl rfl
  have hagree := h.agree fun hcollection => isCollection_expr.mp hcollection
  exact (List.forall₂_cons.mp hagree.parts).1.head_unwrap

/-- Around a private member a chain stays. -/
theorem privateLike (h : Moves (.expr e) (.expr e')) : PrivateLike Moves e e' := by
  by_cases hcollection : IsCollection e
  · refine .inl ?_
    have hfield : field? e = field? e' := by
      rw [← field?_exprHead, Node.expr.inj h.head, field?_exprHead]
    rw [← hfield]
    cases e <;> first | exact ⟨rfl, rfl⟩ | exact hcollection.elim
  · exact .inr (h.agree fun hn => hcollection (isCollection_expr.mp hn))

theorem steady (h : Agree Moves n n') : List.Forall₂ (Steady Moves) n.children n'.children := by
  refine h.children.imp ?_
  rintro ⟨p, x⟩ ⟨p', x'⟩ ⟨-, hx⟩
  constructor
  · rintro f f' ⟨⟩ ⟨⟩
    exact words hx
  · rintro b b' ⟨⟩ ⟨⟩
    exact privateLike hx

end Moves
end EmitLint.Syntax

namespace EmitLint.Component

open Syntax

variable {Free : Address → Prop} {m : Mode} {n n' : Node} {e e' : Expr} {s s' : Site}

/-! ## The site that a node is -/

theorem rel_objectSite (hspares : SparesOptions Free (.expr e))
    (h : Reordered Free (.expr e) (.expr e'))
    (hfree : ∀ t ps, e.unwrap = .object t ps → ¬ Free e.unwrapAt) :
    List.Forall₂ (SiteRel Moves) (objectSite e) (objectSite e') := by
  unfold objectSite
  split
  · rename_i t ps hobject
    have hagree : Agree Moves (.expr e.unwrap) (.expr e'.unwrap) := by
      refine h.unwrap.agree (hspares.at? (Node.at?_unwrapAt e)) fun hn => hfree t ps hobject ?_
      rw [← List.append_nil e.unwrapAt]
      exact hn.2
    rw [hobject] at hagree
    obtain ⟨t', ps', hobject', hps⟩ := hagree.object
    rw [hobject']
    exact .cons (.options hps) .nil
  · rename_i hnot
    have hhead : exprHead e.unwrap = exprHead e'.unwrap := Node.expr.inj h.unwrap.head
    split
    · rename_i t' ps' hobject'
      rw [hobject'] at hhead
      cases he : e.unwrap with
      | object t ps => exact absurd he (hnot t ps)
      | _ => rw [he] at hhead; cases hhead
    · exact .nil

/-- The argument that a function takes for an options object. -/
theorem rel_argumentSite (hspares : SparesOptions Free n) (h : Reordered Free n n')
    (htakes : TakesOptions n) {i : Nat} {arg arg' : Option Element}
    (haddress : siteAddress n = argumentAddress i arg)
    (hrel : Option.Rel (fun b b' => Moves (.element b) (.element b')) arg arg')
    (hchild : ∀ b, arg = some b → n.children[i]? = some (.part, .element b))
    (hchild' : ∀ b, arg' = some b → n'.children[i]? = some (.part, .element b)) :
    List.Forall₂ (SiteRel Moves) (argumentSite arg) (argumentSite arg') := by
  have hn : ¬ n.IsCollection := by
    rintro ⟨e, rfl, hcollection⟩
    cases htakes <;> exact hcollection
  cases hrel with
  | none => exact .nil
  | @some b b' hb =>
      cases hb.element with
      | @item e e' _ =>
          have hpart : n.parts[i]? = some (.element (.item e)) := by
            rw [Node.parts, List.getElem?_map, hchild _ rfl, Option.map_some]
          have hpart' : n'.parts[i]? = some (.element (.item e')) := by
            rw [Node.parts, List.getElem?_map, hchild' _ rfl, Option.map_some]
          have hitem := h.part (fun hfree => hn hfree.1) hpart hpart'
          have hvalue : Reordered (fun a => Free (i :: 0 :: a)) (.expr e) (.expr e') := by
            refine hitem.part (fun hfree => ?_) (i := 0) rfl rfl
            exact not_isCollection_of_not_expr (fun _ => Node.noConfusion) hfree.1
          have hbelow : SparesOptions (fun a => Free (i :: 0 :: a)) (.expr e) :=
            (hspares.at? (Node.at?_of_part hpart)).at? (a := [0]) rfl
          refine rel_objectSite hbelow hvalue fun t ps hobject => ?_
          obtain ⟨-, holder, hin⟩ := located_of_argument htakes haddress hchild ⟨e, rfl, hobject⟩
          have hfree := hspares [] n holder rfl hin
          rw [haddress] at hfree
          exact hfree
      | spread => exact .nil
      | hole => exact .nil

theorem siteAddress_of_method {c : Span} {o t : Bool} {callee : Expr} {args : List Element}
    (h : name? callee = none) :
    siteAddress (.expr (.call c o callee t args)) = argumentAddress args.length args.getLast? := by
  cases callee <;> first | rfl | cases h

section
variable {c c' : Span} {o o' t : Bool} {callee callee' : Expr} {args args' : List Element}

theorem rel_callNode (m : Mode) (hspares : SparesOptions Free (.expr (.call c o callee t args)))
    (h : Reordered Free (.expr (.call c o callee t args))
      (.expr (.call c' o' callee' t args'))) :
    List.Forall₂ (SiteRel Moves) (callSite m c callee t args) (callSite m c' callee' t args') := by
  have hagree := h.agree hspares fun hn => isCollection_expr.mp hn.1
  obtain ⟨hcallee, hparts⟩ := List.forall₂_cons.mp hagree.parts
  have hargs := rel_args hparts
  refine rel_callSite hcallee.words ?_ (fun _ => .emitsCall hargs) ?_ ?_
  · cases hargs <;> rfl
  · intro f hname hf
    cases callee with
    | name u g =>
        obtain rfl := Option.some.inj hname
        refine rel_argumentSite hspares h (.call fun u' heq => ?_) (siteAddress_of_definer hf)
          (rel_head? hargs) (fun b => child_of_head? rfl) fun b => child_of_head? rfl
        exact hf (Expr.name.inj heq).2
    | _ => cases hname
  · intro hname
    refine rel_argumentSite hspares h (.call fun u' heq => ?_) (siteAddress_of_method hname)
      (rel_getLast? hargs) (fun b => child_of_getLast? rfl) fun b hb => ?_
    · rw [heq] at hname
      cases hname
    · rw [hargs.length_eq]
      exact child_of_getLast? rfl hb

theorem rel_newNode (hspares : SparesOptions Free (.expr (.new c callee args)))
    (h : Reordered Free (.expr (.new c callee args)) (.expr (.new c' callee' args'))) :
    List.Forall₂ (SiteRel Moves) (newSite callee args) (newSite callee' args') := by
  have hagree := h.agree hspares fun hn => isCollection_expr.mp hn.1
  obtain ⟨hcallee, hparts⟩ := List.forall₂_cons.mp hagree.parts
  rw [newSite_eq, newSite_eq, ← hcallee.words.name]
  split
  · exact rel_argumentSite hspares h .new rfl (rel_head? (rel_args hparts))
      (fun b => child_of_head? rfl) fun b => child_of_head? rfl
  · exact .nil

theorem rel_exportNode {value value' : Expr}
    (hspares : SparesOptions Free (.stmt (.exportDefault c value)))
    (h : Reordered Free (.stmt (.exportDefault c value)) (.stmt (.exportDefault c' value'))) :
    List.Forall₂ (SiteRel Moves) (objectSite value) (objectSite value') := by
  have hvalue : Reordered (fun a => Free (0 :: a)) (.expr value) (.expr value') := by
    refine h.part (fun hfree => ?_) (i := 0) rfl rfl
    exact not_isCollection_of_not_expr (fun _ => Node.noConfusion) hfree.1
  have hholds : (Node.stmt (.exportDefault c value)).Holds [] (0 :: value.unwrapAt) :=
    ⟨_, 0, .part, value, rfl, fun _ => Node.noConfusion, rfl, rfl⟩
  exact rel_objectSite (hspares.at? (a := [0]) rfl) hvalue fun _ _ _ =>
    hspares [] _ [] rfl (.exported rfl hholds)

end

/-- Both nodes are the same sites. -/
theorem rel_ownSites (m : Mode) (hspares : SparesOptions Free n) (h : Reordered Free n n') :
    List.Forall₂ (SiteRel Moves) (n.ownSites m) (n'.ownSites m) := by
  cases sameForm_of_head h.head with
  | call => exact rel_callNode m hspares h
  | new => exact rel_newNode hspares h
  | exported =>
      have hsites := rel_exportNode hspares h
      show List.Forall₂ _ (if m.componentFile then _ else _) (if m.componentFile then _ else _)
      split
      · exact hsites
      · exact .nil
  | other hn hn' =>
      rw [hn, hn']
      exact .nil

end EmitLint.Component

namespace EmitLint.Syntax

open Component

variable {n n' : Node} {e e' : Expr} {s s' : Site}

/-! ## The whole walk -/

/-- The walk goes into all entries of a collection. -/
theorem walked_of_isCollection (h : n.IsCollection) : n.walked = n.parts := by
  obtain ⟨e, rfl, he⟩ := h
  cases e with
  | array t els => simp [Node.walked, Node.parts, Node.children, exprChildren, Position.isWalked]
  | object t ps => simp [Node.walked, Node.parts, Node.children, exprChildren, Position.isWalked]
  | _ => exact he.elim

theorem isCollection_exprHead (e : Expr) : IsCollection (exprHead e) ↔ IsCollection e := by
  cases e <;> exact Iff.rfl

theorem isCollection_of_head (h : n.head = n'.head) (hn : n.IsCollection) : n'.IsCollection := by
  obtain ⟨e, rfl, he⟩ := hn
  obtain ⟨e', rfl, hhead⟩ := expr_of_head h
  refine ⟨e', rfl, ?_⟩
  rwa [← isCollection_exprHead, ← hhead, isCollection_exprHead]

namespace Moves

theorem walked (h : Moves n n') : Shuffled Moves n.walked n'.walked := by
  by_cases hn : n.IsCollection
  · rw [walked_of_isCollection hn, walked_of_isCollection (isCollection_of_head h.head hn)]
    exact h.parts
  · exact .of_forall₂ (rel_walked (h.agree hn) (steady (h.agree hn)))

/-- The sites of a tree are shuffled with its entries, and their parts are in their places. -/
theorem sites (m : Mode) (h : Moves n n') :
    Shuffled (SiteRel Moves) (n.sites m) (n'.sites m) := by
  induction n using Node.induction_size generalizing n' with
  | step n ih =>
      rw [Node.sites_eq, Node.sites_eq]
      -- What the node is by itself is not touched; only where the walk goes next is shuffled.
      refine Shuffled.append ?_ (h.walked.flatMap fun x hx y hxy => ?_)
      · obtain ⟨Free, hspares, hreordered⟩ := h
        exact .of_forall₂ (rel_ownSites m hspares hreordered)
      · exact ih x (Node.sizeOf_walked hx) hxy

/-! ## The declarations of a site -/

end Moves

theorem definitionNodes_of_isCollection (h : IsCollection e.unwrap) :
    definitionNodes e = (Node.expr e.unwrap).parts := by
  rw [definitionNodes]
  cases he : e.unwrap with
  | array t els => simp [Node.parts, Node.children, exprChildren]
  | object t ps => simp [Node.parts, Node.children, exprChildren]
  | _ => rw [he] at h; exact h.elim

theorem definitionNodes_of_not_isCollection (h : ¬ IsCollection e.unwrap) :
    definitionNodes e = [] := by
  rw [definitionNodes]
  cases he : e.unwrap with
  | array t els =>
      rw [he] at h
      exact absurd trivial h
  | object t ps =>
      rw [he] at h
      exact absurd trivial h
  | _ => rfl

namespace Moves

theorem definitionNodes (h : Moves (.expr e) (.expr e')) :
    Shuffled Moves (Component.definitionNodes e) (Component.definitionNodes e') := by
  have hsame : IsCollection e.unwrap ↔ IsCollection e'.unwrap := by
    rw [← isCollection_exprHead, h.head_unwrap, isCollection_exprHead]
  by_cases hcollection : IsCollection e.unwrap
  · rw [definitionNodes_of_isCollection hcollection,
      definitionNodes_of_isCollection (hsame.mp hcollection)]
    exact h.unwrap.parts
  · rw [definitionNodes_of_not_isCollection hcollection,
      definitionNodes_of_not_isCollection fun h => hcollection (hsame.mpr h)]
    exact .of_forall₂ .nil

/-- The entries that declare the emits of a site are shuffled. -/
theorem declaring (h : SiteRel Moves s s') : Shuffled Moves s.declaring s'.declaring := by
  have hrel := rel_definition? h (fun _ _ => property) fun _ _ => element
  unfold Site.declaring
  generalize s.definition? = v at hrel
  generalize s'.definition? = v' at hrel
  cases hrel with
  | none => exact .of_forall₂ .nil
  | some hv => exact hv.definitionNodes

end Moves
end EmitLint.Syntax

namespace EmitLint.Component

open Syntax

/-! ## Where the definitions are -/

/-- The way from the node that a site is to its definition without wrappers. -/
def Site.definitionAddress (definition : Expr) : Site → Address
  | options _ ps => ps.findIdx (fun p => (emitsValue? p).isSome) :: 1 :: definition.unwrapAt
  | emitsCall .. => 1 :: 0 :: definition.unwrapAt

/-- The addresses of the definitions of emits that are found in a tree. -/
def definitionsAt (m : Mode) (n : Node) : List Address :=
  (sitesAt m n).filterMap fun found =>
    found.2.definition?.map fun v => found.1 ++ found.2.definitionAddress v

variable {m : Mode} {n x : Node} {s : Site} {v : Expr} {a : Address}

theorem mem_definitionsAt : a ∈ definitionsAt m n ↔
    ∃ b s v, (b, s) ∈ sitesAt m n ∧ s.definition? = some v ∧ a = b ++ s.definitionAddress v := by
  simp only [definitionsAt, List.mem_filterMap, Option.map_eq_some_iff, Prod.exists]
  constructor
  · rintro ⟨b, s, hs, v, hv, rfl⟩
    exact ⟨b, s, v, hs, hv, rfl⟩
  · rintro ⟨b, s, v, hs, hv, rfl⟩
    exact ⟨b, s, hs, v, hv, rfl⟩

/-- A definition is the value of a property, or an argument. -/
theorem part_of_definition (hs : s.Is x) (hv : s.definition? = some v) : ∃ i y j p,
    x.at? [i] = some y ∧ ((∃ q, y = .property q) ∨ ∃ b, y = .element b) ∧
      y.children[j]? = some (p, .expr v) ∧ s.definitionAddress v = i :: j :: v.unwrapAt := by
  cases hs with
  | @options t ps =>
      obtain ⟨before, q, after, rfl, hq, hbefore⟩ := List.findSome?_eq_some_iff.mp hv
      have hindex : (before ++ q :: after).findIdx (fun p => (emitsValue? p).isSome) =
          before.length := by
        have hnone : before.findIdx (fun p => (emitsValue? p).isSome) = before.length :=
          List.findIdx_eq_length_of_false fun p hp => by rw [hbefore p hp]; rfl
        rw [List.findIdx_append, hnone, if_neg (Nat.lt_irrefl _), List.findIdx_cons, hq]
        exact Nat.zero_add _
      have hat : (Node.expr (.object t (before ++ q :: after))).at? [before.length] =
          some (.property q) := by
        refine (Node.at?_cons_of_child (p := .part) ?_ []).trans (Node.at?_nil _)
        simp [Node.children, exprChildren, partsAt]
      cases q with
      | entry u key value =>
          rw [emitsValue?, Option.ite_none_right_eq_some] at hq
          obtain rfl := Option.some.inj hq.2
          refine ⟨before.length, _, 1, .part, hat, .inl ⟨_, rfl⟩, rfl, ?_⟩
          rw [Site.definitionAddress, hindex]
      | spread u value => cases hq
  | @emitsCall c f o t args =>
      cases args with
      | nil => cases t <;> cases hv
      | cons b rest =>
          cases b with
          | item e =>
              obtain rfl := Option.some.inj hv
              exact ⟨1, _, 0, .part, rfl, .inr ⟨_, rfl⟩, rfl, rfl⟩
          | spread u e => cases hv
          | hole u => cases hv

/-- At these addresses are the definitions of the sites, in their order. -/
theorem map_at?_definitionsAt (m : Mode) (n : Node) : (definitionsAt m n).map n.at? =
    ((n.sites m).filterMap Site.definition?).map fun v => some (.expr v.unwrap) := by
  rw [definitionsAt, ← map_snd_sitesAt, List.map_filterMap, List.filterMap_map, List.map_filterMap]
  refine List.filterMap_congr fun ⟨b, s⟩ hfound => ?_
  obtain ⟨x, hx, hs⟩ := exists_is_of_mem_sitesAt hfound
  show (s.definition?.map _).map _ = s.definition?.map _
  cases hv : s.definition? with
  | none => rfl
  | some v =>
      obtain ⟨i, y, j, p, hy, -, hchild, haddress⟩ := part_of_definition hs hv
      refine congrArg some ?_
      rw [Node.at?_append_of_at? hx, haddress, ← List.singleton_append,
        Node.at?_append_of_at? hy, Node.at?_cons_of_child hchild, Node.at?_unwrapAt]

theorem not_takesOptions (hs : s.Is x) : ¬ TakesOptions x := by
  intro htakes
  cases hs with
  | options => cases htakes
  | emitsCall =>
      cases htakes with
      | call hnot => exact hnot _ rfl

/-- No definition of emits is an options object as well, and so it may be reordered. -/
theorem sparesOptions_definitionsAt (m : Mode) (n : Node) :
    SparesOptions (· ∈ definitionsAt m n) n := by
  intro a x p hx hp hmem
  obtain ⟨b, s, v, hs, hv, heq⟩ := mem_definitionsAt.mp hmem
  obtain ⟨y, hy, his⟩ := exists_is_of_mem_sitesAt hs
  obtain ⟨i, z, j, q, hz, hkind, hchild, haddress⟩ := part_of_definition his hv
  -- If it were an options object as well, what holds the one would be what holds the other.
  have hnot : ∀ e, z ≠ .expr e := by
    rintro e rfl
    rcases hkind with ⟨_, h⟩ | ⟨_, h⟩ <;> cases h
  have hholds : y.Holds [i] (s.definitionAddress v) := ⟨z, j, q, v, hz, hnot, hchild, haddress⟩
  have hholder : a ++ p = b ++ [i] :=
    Node.holder_unique (heq ▸ hp.holds.append hx) (hholds.append hy)
  have hat : x.at? p = some z := by
    rw [← Node.at?_append_of_at? hx, hholder, Node.at?_append_of_at? hy, hz]
  cases hp with
  | argument htakes _ _ =>
      obtain rfl : a = b := List.append_inj_left' hholder rfl
      obtain rfl := Option.some.inj (hx.symm.trans hy)
      exact not_takesOptions his htakes
  | exported hexport _ =>
      obtain rfl := Option.some.inj (hexport ▸ hat)
      rcases hkind with ⟨_, h⟩ | ⟨_, h⟩ <;> cases h

end EmitLint.Component
