/-
# The order in which sites are found

The walk goes through a script from left to right, but where a call registers
a component, the object that it is handed last is found before the arguments in
front of it are looked at.  Main statement: `sites_in_order_iff`.  In a tree
whose spans are nested like its nodes, the sites come in the order of the text
exactly if no such call is visited with a site among the arguments in front
(`Overtakes`).  `overtaken_site` is a script with such a call.
-/
import EmitLint.Proofs.Rule.Placed
import Mathlib.Data.List.Permutation

namespace EmitLint.Syntax

/-! ## Spans that are nested like the nodes -/

namespace Node

/-- The spans in a tree, in the order of the nodes. -/
def spans (n : Node) : List Span := n.nodes.filterMap span?

/-- All that stands in one node ends where the other begins, or before. -/
def Before (a b : Node) : Prop := ∀ s ∈ a.spans, ∀ t ∈ b.spans, s.stop ≤ t.start

/-- What stands in a node has its span inside of that of the node, and the
parts of a node follow one another.  An expression takes up text, and an object
literal has its brace in front of its properties. -/
structure Nests (n : Node) : Prop where
  inside : ∀ s, n.span? = some s → ∀ t ∈ n.spans, t.Within s
  ordered : n.children.Pairwise fun a b => a.2.Before b.2
  solid : ∀ e, n = expr e → e.span.start < e.span.stop
  brace : ∀ s ps, n = expr (.object s ps) → ∀ p ∈ ps, s.start < p.span.start

/-- All spans of a tree are nested like its nodes. -/
def WellNested (n : Node) : Prop := ∀ x ∈ n.nodes, x.Nests

variable {n x : Node} {e : Expr} {s : Span}

theorem mem_spans : s ∈ n.spans ↔ ∃ x ∈ n.nodes, x.span? = some s := List.mem_filterMap

theorem span_mem_spans (h : expr e ∈ n.nodes) : e.span ∈ n.spans :=
  mem_spans.mpr ⟨expr e, h, rfl⟩

theorem WellNested.self (h : n.WellNested) : n.Nests := h n n.self_mem_nodes

theorem WellNested.of_mem (h : n.WellNested) (hx : x ∈ n.nodes) : x.WellNested :=
  fun y hy => h y (mem_nodes_trans hx hy)

theorem WellNested.solid (h : n.WellNested) (he : expr e ∈ n.nodes) :
    e.span.start < e.span.stop :=
  (h _ he).solid e rfl

theorem WellNested.child {c : Position × Node} (h : n.WellNested) (hc : c ∈ n.children) :
    c.2.WellNested :=
  h.of_mem (child_mem_nodes hc)

/-- Whether the spans of a node are nested, as a check. -/
def nests? (n : Node) : Bool :=
  (n.span?.all fun s => n.spans.all fun t => decide (t.Within s)) &&
    decide (n.children.Pairwise fun a b =>
      (a.2.spans.all fun s => b.2.spans.all fun t => decide (s.stop ≤ t.start)) = true) &&
    match n with
    | expr (.object s ps) =>
        decide (s.start < s.stop) && ps.all fun p => decide (s.start < p.span.start)
    | expr e => decide (e.span.start < e.span.stop)
    | _ => true

theorem nests_of_check (h : n.nests? = true) : n.Nests := by
  unfold nests? at h
  rw [Bool.and_eq_true, Bool.and_eq_true, decide_eq_true_iff] at h
  obtain ⟨⟨hinside, hordered⟩, hshape⟩ := h
  refine ⟨?_, ?_, ?_, ?_⟩
  · intro s hs t ht
    rw [hs, Option.all_some, List.all_eq_true] at hinside
    exact of_decide_eq_true (hinside t ht)
  · refine hordered.imp fun hab s hs t ht => ?_
    exact of_decide_eq_true (List.all_eq_true.mp (List.all_eq_true.mp hab s hs) t ht)
  · rintro e rfl
    cases e with
    | object => exact of_decide_eq_true (Bool.and_eq_true_iff.mp hshape).1
    | _ => exact of_decide_eq_true hshape
  · rintro s ps rfl p hp
    exact of_decide_eq_true (List.all_eq_true.mp (Bool.and_eq_true_iff.mp hshape).2 p hp)

theorem wellNested_of_check (h : n.nodes.all nests? = true) : n.WellNested :=
  fun x hx => nests_of_check (List.all_eq_true.mp h x hx)

theorem walked_mem_nodes (hx : x ∈ n.walked) : x ∈ n.nodes := by
  unfold walked at hx
  split at hx
  · have hbody : ∀ s t o object field, expr (.privateMember t o object field) ∈
        (expr (.chain s (.privateMember t o object field))).nodes :=
      fun _ _ _ _ _ => child_mem_nodes List.mem_cons_self
    rcases List.mem_cons.mp hx with rfl | hx
    · exact hbody ..
    · obtain rfl := List.mem_singleton.mp hx
      exact mem_nodes_trans (hbody ..) (child_mem_nodes List.mem_cons_self)
  · obtain ⟨p, hpx, -⟩ := mem_walkedAmong.mp hx
    exact child_mem_nodes hpx

theorem visits_mem_nodes (h : n.Visits x) : x ∈ n.nodes := by
  obtain ⟨trail, hplace, -⟩ := h
  exact List.mem_map.mpr ⟨(trail, x), hplace, rfl⟩

end Node
end EmitLint.Syntax

namespace EmitLint.Component

open Syntax

variable {m : Mode} {n x y : Node} {e : Expr} {a b : Site}

/-! ## Where a site stands -/

theorem object_mem_nodes {s : Span} {ps : List Property} (h : e.unwrap = .object s ps) :
    Node.expr (.object s ps) ∈ (Node.expr e).nodes :=
  h ▸ e.unwrap_mem_nodes

theorem object_of_isOptions {arg : Option Element} {args : List Element} {s : Span}
    {ps : List Property} (hargs : ∀ a ∈ args, Node.element a ∈ n.nodes)
    (harg : ∀ a ∈ arg, a ∈ args) (h : IsOptions arg s ps) :
    Node.expr (.object s ps) ∈ n.nodes := by
  obtain ⟨e, rfl, hobject⟩ := h
  refine Node.mem_nodes_trans (hargs _ (harg _ rfl)) ?_
  exact Node.mem_nodes_of_child List.mem_cons_self (object_mem_nodes hobject)

/-- What a node declares stands where some expression in it does. -/
theorem expr_of_declares (h : Declares m n a) :
    ∃ e, Node.expr e ∈ n.nodes ∧ e.span = a.span := by
  have hargs : ∀ {callee : Expr} {args : List Element},
      n.children = (.callee, .expr callee) :: partsAt .part .element args →
      ∀ a ∈ args, Node.element a ∈ n.nodes := by
    intro callee args hchildren a ha
    refine Node.child_mem_nodes (p := .part) ?_
    rw [hchildren]
    exact List.mem_cons_of_mem _ (mem_partsAt.mpr ⟨a, ha, rfl⟩)
  cases h with
  | definition _ hoptions =>
      exact ⟨.object _ _,
        object_of_isOptions (hargs rfl) (fun _ => List.mem_of_mem_head?) hoptions, rfl⟩
  | registration _ _ hoptions =>
      exact ⟨.object _ _,
        object_of_isOptions (hargs rfl) (fun _ => List.mem_of_mem_getLast?) hoptions, rfl⟩
  | application hoptions =>
      exact ⟨.object _ _,
        object_of_isOptions (hargs rfl) (fun _ => List.mem_of_mem_head?) hoptions, rfl⟩
  | emitsCall _ => exact ⟨_, Node.self_mem_nodes _, rfl⟩
  | exported _ hvalue =>
      exact ⟨.object _ _,
        Node.mem_nodes_of_child List.mem_cons_self (object_mem_nodes hvalue), rfl⟩

theorem expr_of_mem_sites (h : a ∈ n.sites m) :
    ∃ e, Node.expr e ∈ n.nodes ∧ e.span = a.span := by
  obtain ⟨place, hplace, -, hown⟩ := Node.mem_sites.mp h
  obtain ⟨e, he, hspan⟩ := expr_of_declares (mem_ownSites.mp hown)
  exact ⟨e, Node.mem_nodes_trans (List.mem_map.mpr ⟨place, hplace, rfl⟩) he, hspan⟩

theorem span_mem_spans_of_mem_sites (h : a ∈ n.sites m) : a.span ∈ n.spans := by
  obtain ⟨e, he, hspan⟩ := expr_of_mem_sites h
  exact hspan ▸ Node.span_mem_spans he

/-- What stands in front of a node starts before the sites in that node. -/
theorem start_lt_of_before (h : x.Before y) (hx : x.WellNested) (he : Node.expr e ∈ x.nodes)
    (hb : b ∈ y.sites m) : e.span.start < b.span.start := by
  have hsolid : e.span.start < e.span.stop := hx.solid he
  have hstop : e.span.stop ≤ b.span.start :=
    h _ (Node.span_mem_spans he) _ (span_mem_spans_of_mem_sites hb)
  omega

/-- An object literal starts before the sites in it. -/
theorem start_lt_of_unwrap {s : Span} {ps : List Property} (h : (Node.expr e).WellNested)
    (hobject : e.unwrap = .object s ps) (hb : b ∈ exprSites m e) : s.start < b.span.start := by
  rw [← exprSites_unwrap, hobject, exprSites, propertiesSites_eq] at hb
  obtain ⟨p, hp, hbp⟩ := List.mem_flatMap.mp hb
  have hnode : Node.expr (.object s ps) ∈ (Node.expr e).nodes := object_mem_nodes hobject
  have hproperty : Node.property p ∈ (Node.expr e).nodes :=
    Node.mem_nodes_trans hnode (Node.child_mem_nodes (mem_partsAt.mpr ⟨p, hp, rfl⟩))
  have hwithin : b.span.Within p.span :=
    (h _ hproperty).inside _ rfl _ (span_mem_spans_of_mem_sites (n := .property p) hbp)
  exact Nat.lt_of_lt_of_le ((h _ hnode).brace s ps rfl p hp) hwithin.1

/-! ## One node -/

/-- A call that registers a component, its last argument, while an argument in
front of that one holds a site. -/
inductive Overtakes (m : Mode) : Node → Prop
  | registration {c f s r : Span} {o p t : Bool} {receiver e : Expr} {name method : String}
      {front : List Element} {a : Element} {ps : List Property} :
      receiver.unwrap = .name r name →
      method = "component" ∨ method = "mixin" ∨ (name = "Vue" ∧ method = "extend") →
      e.unwrap = .object s ps → a ∈ front → elementSites m a ≠ [] →
      Overtakes m (.expr (.call c o (.member f p receiver method) t (front ++ [.item e])))

/-- These sites come in the order of the text. -/
def InOrder (ss : List Site) : Prop := ss.Pairwise fun a b => a.span.start < b.span.start

section Arguments
variable {s : Span} {ps : List Property} {callee : Expr} {args front : List Element}

/-- Argument after argument, as they stand in the text. -/
structure Arranged (args : List Element) : Prop where
  nested : ∀ a ∈ args, (Node.element a).WellNested
  ordered : args.Pairwise fun a b => (Node.element a).Before (.element b)

theorem arranged_of_children (h : n.WellNested)
    (hchildren : n.children = (.callee, .expr callee) :: partsAt .part .element args) :
    Arranged args ∧ ∀ a ∈ args, (Node.expr callee).Before (.element a) := by
  have hmem : ∀ a ∈ args, (Position.part, Node.element a) ∈ n.children := by
    intro a ha
    rw [hchildren]
    exact List.mem_cons_of_mem _ (mem_partsAt.mpr ⟨a, ha, rfl⟩)
  have hordered := h.self.ordered
  rw [hchildren, List.pairwise_cons, partsAt, List.pairwise_map] at hordered
  refine ⟨⟨fun a ha => h.child (hmem a ha), hordered.2⟩, fun a ha => ?_⟩
  exact hordered.1 _ (List.mem_map.mpr ⟨a, ha, rfl⟩)

/-- An object that is the first argument starts before all sites in the arguments. -/
theorem start_lt_of_head (h : Arranged args) (hoptions : IsOptions args.head? s ps)
    (hb : b ∈ args.flatMap (elementSites m)) : s.start < b.span.start := by
  obtain ⟨e, hhead, hobject⟩ := hoptions
  cases args with
  | nil => cases hhead
  | cons a rest =>
      obtain rfl := Option.some.inj hhead
      have he : (Node.element (.item e)).WellNested := h.nested _ List.mem_cons_self
      rw [List.flatMap_cons] at hb
      rcases List.mem_append.mp hb with hb | hb
      · exact start_lt_of_unwrap (he.child List.mem_cons_self) hobject hb
      · obtain ⟨a, ha, hba⟩ := List.mem_flatMap.mp hb
        have hbefore : (Node.element (.item e)).Before (.element a) :=
          List.rel_of_pairwise_cons h.ordered ha
        have hnode : Node.expr (.object s ps) ∈ (Node.element (.item e)).nodes :=
          Node.mem_nodes_of_child List.mem_cons_self (object_mem_nodes hobject)
        exact start_lt_of_before hbefore he hnode hba

/-- An object that is the last argument starts behind all sites in the arguments in front. -/
theorem lt_start_of_last {e : Expr} (h : Arranged (front ++ [.item e]))
    (hobject : e.unwrap = .object s ps) (hb : b ∈ front.flatMap (elementSites m)) :
    b.span.start < s.start := by
  obtain ⟨a, ha, hba⟩ := List.mem_flatMap.mp hb
  have hbefore : (Node.element a).Before (.element (.item e)) :=
    (List.pairwise_append.mp h.ordered).2.2 a ha _ List.mem_cons_self
  obtain ⟨x, hx, hspan⟩ := expr_of_mem_sites (n := .element a) hba
  have hobjectSpan : s ∈ (Node.element (.item e)).spans :=
    Node.span_mem_spans (e := .object s ps)
      (Node.mem_nodes_of_child List.mem_cons_self (object_mem_nodes hobject))
  have hsolid : x.span.start < x.span.stop :=
    (h.nested a (List.mem_append_left _ ha)).solid hx
  have hstop : x.span.stop ≤ s.start := hbefore _ (Node.span_mem_spans hx) _ hobjectSpan
  rw [← hspan]
  omega

end Arguments

/-- A name, and a method of something that is called by its name, hold no sites. -/
theorem exprSites_of_receiver {f r : Span} {p : Bool} {receiver : Expr} {name method : String}
    (h : receiver.unwrap = .name r name) : exprSites m (.member f p receiver method) = [] := by
  rw [exprSites, ← exprSites_unwrap, h, exprSites]

/-- The site that a node is starts before the sites in it. -/
theorem start_lt_of_ownSites (h : n.WellNested) (hnot : ¬ Overtakes m n) (ha : a ∈ n.ownSites m)
    (hb : b ∈ n.walked.flatMap (Node.sites m)) : a.span.start < b.span.start := by
  cases mem_ownSites.mp ha with
  | definition hname hoptions =>
      obtain ⟨harranged, -⟩ := arranged_of_children h rfl
      refine start_lt_of_head (m := m) harranged hoptions ?_
      simpa [Node.walked, Node.children, exprChildren, exprSites, Position.isWalked,
        List.flatMap_map] using hb
  | application hoptions =>
      obtain ⟨harranged, -⟩ := arranged_of_children h rfl
      refine start_lt_of_head (m := m) harranged hoptions ?_
      simpa [Node.walked, Node.children, exprChildren, exprSites, Position.isWalked,
        List.flatMap_map] using hb
  | @registration c f s r o p t receiver name method args ps hreceiver hmethod hoptions =>
      obtain ⟨harranged, -⟩ := arranged_of_children h rfl
      obtain ⟨e, hlast, hobject⟩ := hoptions
      obtain ⟨front, rfl⟩ := List.getLast?_eq_some_iff.mp hlast
      have hfront : front.flatMap (elementSites m) = [] := by
        rw [List.flatMap_eq_nil_iff]
        intro x hx
        by_contra hsites
        exact hnot (.registration hreceiver hmethod hobject hx hsites)
      have hbe : b ∈ exprSites m e := by
        simpa [Node.walked, Node.children, exprChildren, exprSites_of_receiver hreceiver,
          Position.isWalked, List.flatMap_map, hfront, elementSites] using hb
      have he : (Node.element (.item e)).WellNested :=
        harranged.nested _ (List.mem_append_right _ List.mem_cons_self)
      exact start_lt_of_unwrap (he.child List.mem_cons_self) hobject hbe
  | @emitsCall c f o t args hkind =>
      obtain ⟨-, hcallee⟩ := arranged_of_children h rfl
      have hbargs : b ∈ args.flatMap (elementSites m) := by
        simpa [Node.walked, Node.children, exprChildren, exprSites, Position.isWalked,
          List.flatMap_map] using hb
      obtain ⟨x, hx, hbx⟩ := List.mem_flatMap.mp hbargs
      have hname : (Node.expr (.name f "defineEmits")).WellNested := h.child List.mem_cons_self
      have hlt : f.start < b.span.start :=
        start_lt_of_before (hcallee x hx) hname (Node.self_mem_nodes _) hbx
      have hspan : f ∈ (Node.expr (.call c o (.name f "defineEmits") t args)).spans :=
        Node.span_mem_spans (e := .name f "defineEmits") (Node.child_mem_nodes List.mem_cons_self)
      have hwithin : f.Within c := h.self.inside _ rfl _ hspan
      exact Nat.lt_of_le_of_lt hwithin.1 hlt
  | exported hfile hvalue =>
      refine start_lt_of_unwrap (m := m) (h.child List.mem_cons_self) hvalue ?_
      simpa [Node.walked, Node.children, stmtChildren, Position.isWalked] using hb

/-- A node is one site at most. -/
theorem inOrder_ownSites (n : Node) : InOrder (n.ownSites m) := n.pairwise_ownSites _ m

/-! ## The whole walk -/

/-- Where the parts of a node have their sites in order, all of them together have. -/
theorem inOrder_walked (h : n.WellNested) (hparts : ∀ x ∈ n.walked, InOrder (x.sites m)) :
    InOrder (n.walked.flatMap (Node.sites m)) := by
  rw [InOrder, List.pairwise_flatMap]
  refine ⟨hparts, ?_⟩
  have hbefore : ∀ x y : Node, x ∈ n.nodes → x.Before y →
      ∀ a ∈ x.sites m, ∀ b ∈ y.sites m, a.span.start < b.span.start := by
    intro x y hx hxy a ha b hb
    obtain ⟨e, he, hspan⟩ := expr_of_mem_sites ha
    exact hspan ▸ start_lt_of_before hxy (h.of_mem hx) he hb
  unfold Node.walked
  split
  · -- A private member that is passed has no site by itself.
    rw [List.pairwise_cons]
    refine ⟨fun y _ a ha => ?_, List.pairwise_singleton _ _⟩
    rw [Node.sites_expr, exprSites] at ha
    exact absurd ha List.not_mem_nil
  · rw [Node.walkedAmong, List.pairwise_filterMap]
    refine (h.self.ordered).imp_of_mem ?_
    intro c d hc _ hcd x hx y hy
    obtain rfl := Option.some.inj (Option.ite_none_right_eq_some.mp hx).2
    obtain rfl := Option.some.inj (Option.ite_none_right_eq_some.mp hy).2
    exact hbefore _ _ (Node.child_mem_nodes hc) hcd

theorem inOrder_sites (h : n.WellNested) (hnot : ∀ x, n.Visits x → ¬ Overtakes m x) :
    InOrder (n.sites m) := by
  induction n using Node.induction_size with
  | step n ih =>
      rw [Node.sites_eq, InOrder, List.pairwise_append]
      refine ⟨inOrder_ownSites n, inOrder_walked h fun x hx => ?_, ?_⟩
      · exact ih x (Node.sizeOf_walked hx) (h.of_mem (Node.walked_mem_nodes hx))
          fun y hy => hnot y (Node.visits_of_walked hx hy)
      · exact fun a ha b hb => start_lt_of_ownSites h (hnot n n.visits_self) ha hb

theorem not_inOrder_of_overtakes (h : n.WellNested) (hover : Overtakes m n) :
    ¬ InOrder (n.sites m) := by
  intro hsorted
  cases hover with
  | @registration c f s r o p t receiver e name method front x ps hreceiver hmethod hobject hx
      hsites =>
      obtain ⟨harranged, -⟩ := arranged_of_children h rfl
      obtain ⟨b, hb⟩ := List.exists_mem_of_ne_nil _ hsites
      have hfront : b ∈ front.flatMap (elementSites m) := List.mem_flatMap.mpr ⟨x, hx, hb⟩
      have hown : Site.options s ps ∈ (Node.expr (.call c o (.member f p receiver method) t
          (front ++ [.item e]))).ownSites m :=
        mem_ownSites.mpr (.registration hreceiver hmethod ⟨e, by simp, hobject⟩)
      have hrest : b ∈ (Node.expr (.call c o (.member f p receiver method) t
          (front ++ [.item e]))).walked.flatMap (Node.sites m) := by
        simp only [Node.walked, Node.children, exprChildren, Node.walkedAmong_cons,
          Node.walkedAmong_partsAt, Position.isWalked, if_true, List.flatMap_append,
          List.flatMap_map, List.mem_append]
        exact .inr (.inl hfront)
      rw [Node.sites_eq, InOrder, List.pairwise_append] at hsorted
      have hlt : s.start < b.span.start := hsorted.2.2 _ hown b hrest
      have hgt : b.span.start < s.start := lt_start_of_last harranged hobject hfront
      omega

/-- In a tree whose spans are nested the sites come in the order of the text,
each starting behind the one before, exactly if the walk does not come to a call
that registers its last argument and has a site in an argument in front of it. -/
theorem sites_in_order_iff {program : Program} (h : program.root.WellNested) (m : Mode) :
    (sites m program).Pairwise (fun a b => a.span.start < b.span.start) ↔
      ∀ x, program.root.Visits x → ¬ Overtakes m x := by
  constructor
  · intro hsorted x hx hover
    have hsub : (x.sites m).Sublist (sites m program) := Node.sites_sublist_of_visits hx
    exact not_inOrder_of_overtakes (h.of_mem (Node.visits_mem_nodes hx)) hover
      (hsorted.sublist hsub)
  · exact inOrder_sites h

/-! ## A script with such a call -/

/-- The script `app.mixin(createApp({}), {})`. -/
def overtakingScript : Program :=
  ⟨[.expression ⟨0, 28⟩
    (.call ⟨0, 28⟩ false (.member ⟨0, 9⟩ false (.name ⟨0, 3⟩ "app") "mixin") false
      [.item (.call ⟨10, 23⟩ false (.name ⟨10, 19⟩ "createApp") false
        [.item (.object ⟨20, 22⟩ [])]),
       .item (.object ⟨25, 27⟩ [])])]⟩

theorem wellNested_overtakingScript : overtakingScript.root.WellNested :=
  Node.wellNested_of_check (by cbv)

theorem not_inOrder_overtakingScript :
    ¬ (sites ⟨.plain, true⟩ overtakingScript).Pairwise fun a b => a.span.start < b.span.start := by
  intro hsorted
  have hsites : sites ⟨.plain, true⟩ overtakingScript =
      [.options ⟨25, 27⟩ [], .options ⟨20, 22⟩ []] := rfl
  rw [hsites] at hsorted
  exact absurd (List.rel_of_pairwise_cons hsorted List.mem_cons_self) (by decide)

/-- The object that is handed over last is found first. -/
theorem overtaken_site :
    overtakingScript.root.WellNested ∧
    (sites ⟨.plain, true⟩ overtakingScript).map Site.span = [⟨25, 27⟩, ⟨20, 22⟩] ∧
    ¬ (sites ⟨.plain, true⟩ overtakingScript).Pairwise
      fun a b => a.span.start < b.span.start :=
  ⟨wellNested_overtakingScript, rfl, not_inOrder_overtakingScript⟩

/-- Some call in that script is to blame. -/
theorem sites_in_order_iff_overtaking :
    overtakingScript.root.WellNested ∧
    ∃ x, overtakingScript.root.Visits x ∧ Overtakes ⟨.plain, true⟩ x := by
  refine ⟨wellNested_overtakingScript, ?_⟩
  by_contra hnone
  refine not_inOrder_overtakingScript ?_
  refine (sites_in_order_iff wellNested_overtakingScript ⟨.plain, true⟩).mpr ?_
  intro x hx hover
  exact hnone ⟨x, hx, hover⟩

end EmitLint.Component
