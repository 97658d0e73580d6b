/-
# Where the walk goes

The walk of `EmitLint.Component.Site` is one function for every kind of
node.  Here it is taken apart into what a node is by itself, `ownSites`, and
where the walk goes from it, `walked`; `sites_eq` puts the two together
again.  Everything that is proved about the sites of a program starts from
there.

Main statement: `sites_eq_visibleSites`.  The sites of a tree are those that the
nodes are to which the walk comes; and the walk comes to a node exactly if no
position on the trail to it is one that the walk leaves out (`isWalkedTrail`).
Left out are patterns, parameters, keys, decorators, tagged templates,
accessors, `with`, JSX and some rarer positions, and the object of a private
member unless that member is all of an optional chain.
-/
import EmitLint.Component.Site
import EmitLint.Proofs.Syntax.Node
import Mathlib.Data.List.Basic

namespace EmitLint.Component

open Syntax

/-! ## Lists of parts -/

section Lists
variable (m : Mode)

@[simp] theorem optionSites_eq (o : Option Expr) :
    optionSites m o = o.toList.flatMap (exprSites m) := by
  cases o <;> simp [optionSites]

@[simp] theorem optionStmtSites_eq (o : Option Stmt) :
    optionStmtSites m o = o.toList.flatMap (stmtSites m) := by
  cases o <;> simp [optionStmtSites]

@[simp] theorem exprsSites_eq (es : List Expr) : exprsSites m es = es.flatMap (exprSites m) := by
  induction es with
  | nil => rfl
  | cons e es ih => rw [exprsSites, ih, List.flatMap_cons]

@[simp] theorem elementsSites_eq (es : List Element) :
    elementsSites m es = es.flatMap (elementSites m) := by
  induction es with
  | nil => rfl
  | cons e es ih => rw [elementsSites, ih, List.flatMap_cons]

@[simp] theorem propertiesSites_eq (ps : List Property) :
    propertiesSites m ps = ps.flatMap (propertySites m) := by
  induction ps with
  | nil => rfl
  | cons p ps ih => rw [propertiesSites, ih, List.flatMap_cons]

@[simp] theorem membersSites_eq (ms : List Member) :
    membersSites m ms = ms.flatMap (memberSites m) := by
  induction ms with
  | nil => rfl
  | cons e ms ih => rw [membersSites, ih, List.flatMap_cons]

@[simp] theorem stmtsSites_eq (ss : List Stmt) : stmtsSites m ss = ss.flatMap (stmtSites m) := by
  induction ss with
  | nil => rfl
  | cons s ss ih => rw [stmtsSites, ih, List.flatMap_cons]

@[simp] theorem declaratorsSites_eq (ds : List Declarator) :
    declaratorsSites m ds = ds.flatMap (declaratorSites m) := by
  induction ds with
  | nil => rfl
  | cons d ds ih => rw [declaratorsSites, ih, List.flatMap_cons]

@[simp] theorem casesSites_eq (cs : List Case) : casesSites m cs = cs.flatMap (caseSites m) := by
  induction cs with
  | nil => rfl
  | cons c cs ih => rw [casesSites, ih, List.flatMap_cons]

end Lists

/-- Wrappers hold no sites of their own. -/
theorem exprSites_unwrap (m : Mode) (e : Expr) : exprSites m e.unwrap = exprSites m e := by
  induction e using Expr.induction_unwrap with
  | bare e hbare => rw [Expr.unwrap_of_isBare hbare]
  | wrapped s w inner ih => rw [Expr.unwrap, ih, exprSites]

end EmitLint.Component

namespace EmitLint.Syntax

open Component

/-- The walk goes on into this position. -/
def Position.isWalked : Position → Bool
  | part | callee | chained => true
  | parameter | binding | key | keyValue | decorator | tagged | accessor | privateObject
  | privateTest | importArgument | updated | instantiated | embedded | exported | withPart
  | enumValue | scopeBody => false

namespace Node

/-! ## One step of the walk -/

/-- The sites in a node. -/
def sites (m : Mode) : Node → List Site
  | script body => stmtsSites m body
  | expr e => exprSites m e
  | element e => elementSites m e
  | property p => propertySites m p
  | function fn => functionSites m fn
  | cls c => classSites m c
  | member e => memberSites m e
  | stmt s => stmtSites m s
  | declarator d => declaratorSites m d
  | case c => caseSites m c
  | key _ | pattern _ => []

section Kinds
variable (m : Mode)

@[simp] theorem sites_expr (e : Expr) : (expr e).sites m = exprSites m e := rfl
@[simp] theorem sites_element (e : Element) : (element e).sites m = elementSites m e := rfl
@[simp] theorem sites_property (p : Property) : (property p).sites m = propertySites m p := rfl
@[simp] theorem sites_function (fn : Function) : (function fn).sites m = functionSites m fn := rfl
@[simp] theorem sites_cls (c : Class) : (cls c).sites m = classSites m c := rfl
@[simp] theorem sites_member (e : Member) : (member e).sites m = memberSites m e := rfl
@[simp] theorem sites_stmt (s : Stmt) : (stmt s).sites m = stmtSites m s := rfl
@[simp] theorem sites_declarator (d : Declarator) :
    (declarator d).sites m = declaratorSites m d := rfl
@[simp] theorem sites_case (c : Case) : (case c).sites m = caseSites m c := rfl
@[simp] theorem sites_key (k : Key) : (key k).sites m = [] := rfl
@[simp] theorem sites_pattern (p : Pattern) : (pattern p).sites m = [] := rfl

end Kinds

/-- The site that a node is by itself. -/
def ownSites (m : Mode) : Node → List Site
  | expr (.call s _ callee typeArgs args) => callSite m s callee typeArgs args
  | expr (.new _ callee args) => newSite callee args
  | stmt (.exportDefault _ value) => if m.componentFile then objectSite value else []
  | _ => []

theorem length_objectSite_le (e : Expr) : (objectSite e).length ≤ 1 := by
  unfold objectSite
  split <;> simp

theorem length_argumentSite_le (a : Option Element) : (argumentSite a).length ≤ 1 := by
  unfold argumentSite
  split
  · exact length_objectSite_le _
  · simp

/-- A node is one site at most, and so there are no two for which a relation fails. -/
theorem pairwise_ownSites (R : Site → Site → Prop) (m : Mode) (n : Node) :
    (n.ownSites m).Pairwise R := by
  have hlength : (n.ownSites m).length ≤ 1 := by
    unfold ownSites callSite newSite
    grind [length_argumentSite_le, length_objectSite_le]
  match h : n.ownSites m with
  | [] => exact .nil
  | [s] => exact List.pairwise_singleton R s
  | _ :: _ :: _ => simp [h] at hlength

/-- The children in positions that the walk goes into. -/
def walkedAmong (cs : List (Position × Node)) : List Node :=
  cs.filterMap fun c => if c.1.isWalked then some c.2 else none

/-- The nodes that the walk goes to next.  A private member that is all of an
optional chain is passed, and its object visited. -/
def walked : Node → List Node
  | expr (.chain _ (.privateMember s o object field)) =>
      [expr (.privateMember s o object field), expr object]
  | n => walkedAmong n.children

@[simp] theorem walkedAmong_nil : walkedAmong [] = [] := rfl

@[simp] theorem walkedAmong_cons (c : Position × Node) (cs : List (Position × Node)) :
    walkedAmong (c :: cs) = (if c.1.isWalked then [c.2] else []) ++ walkedAmong cs := by
  cases h : c.1.isWalked <;> simp [walkedAmong, h]

@[simp] theorem walkedAmong_append (as bs : List (Position × Node)) :
    walkedAmong (as ++ bs) = walkedAmong as ++ walkedAmong bs :=
  List.filterMap_append

@[simp] theorem walkedAmong_partsAt {α : Type} (p : Position) (mk : α → Node) (parts : List α) :
    walkedAmong (partsAt p mk parts) = if p.isWalked then parts.map mk else [] := by
  cases h : p.isWalked <;> simp [walkedAmong, partsAt, h, List.filterMap_map]

/-- The object that the walk visits behind a private member. -/
def passed : Node → List Node
  | expr (.chain _ (.privateMember _ _ object _)) => [expr object]
  | _ => []

theorem walked_eq (n : Node) : n.walked = walkedAmong n.children ++ n.passed := by
  unfold walked
  split
  · rfl
  · rename_i hnot
    have hnil : passed n = [] := by
      unfold passed
      split
      · exact absurd rfl (hnot _ _ _ _ _)
      · rfl
    rw [hnil, List.append_nil]

/-- The sites of a node are the one that it is and those of the nodes that
the walk goes to next. -/
theorem sites_eq (m : Mode) (n : Node) :
    n.sites m = n.ownSites m ++ n.walked.flatMap (sites m) := by
  cases n with
  | script body => simp [sites, ownSites, walked, children, Position.isWalked, List.flatMap_map]
  | expr e =>
      cases e with
      | chain s body =>
          cases body <;>
            simp [ownSites, walked, children, exprChildren, exprSites, Position.isWalked]
      | _ =>
          simp [ownSites, walked, children, exprChildren, exprSites, Position.isWalked,
            List.flatMap_map]
  | element e =>
      cases e <;>
        simp [ownSites, walked, children, elementChildren, elementSites, Position.isWalked]
  | property p =>
      cases p <;>
        simp [ownSites, walked, children, propertyChildren, propertySites, Position.isWalked]
  | key k => cases k <;> simp [ownSites, walked, children, keyChildren, Position.isWalked]
  | function fn =>
      cases fn
      simp [ownSites, walked, children, functionChildren, functionSites, Position.isWalked,
        List.flatMap_map]
  | cls c =>
      cases c
      simp [ownSites, walked, children, classChildren, classSites, Position.isWalked,
        List.flatMap_map]
  | member e =>
      cases e <;>
        simp [ownSites, walked, children, memberChildren, memberSites, Position.isWalked,
          List.flatMap_map]
  | pattern p => cases p <;> simp [ownSites, walked, children, patternChildren, Position.isWalked]
  | stmt s =>
      cases s <;>
        simp [ownSites, walked, children, stmtChildren, stmtSites, Position.isWalked,
          List.flatMap_map]
  | declarator d =>
      cases d
      simp [ownSites, walked, children, declaratorSites, Position.isWalked, List.flatMap_map]
  | case c =>
      cases c
      simp [ownSites, walked, children, caseSites, Position.isWalked, List.flatMap_map]

/-! ## Which trails the walk follows -/

end Node

/-- The walk follows the trail: it goes into every position on it.  The one
exception is the object of a private member that is all of an optional chain;
of any other private member the object is left out. -/
def isWalkedTrail : List Position → Bool
  | [] => true
  | .chained :: .privateObject :: trail => isWalkedTrail trail
  | p :: trail => p.isWalked && isWalkedTrail trail

theorem isWalkedTrail_cons {p : Position} {trail : List Position}
    (h : ∀ rest, p = .chained → trail ≠ .privateObject :: rest) :
    isWalkedTrail (p :: trail) = (p.isWalked && isWalkedTrail trail) := by
  rw [isWalkedTrail]
  exact h

namespace Node

theorem mem_walkedAmong {cs : List (Position × Node)} {x : Node} :
    x ∈ walkedAmong cs ↔ ∃ p, (p, x) ∈ cs ∧ p.isWalked = true := by
  simp only [walkedAmong, List.mem_filterMap, Prod.exists]
  constructor
  · rintro ⟨p, c, hc, h⟩
    obtain ⟨hp, rfl⟩ : p.isWalked = true ∧ c = x := by simpa using h
    exact ⟨p, hc, hp⟩
  · rintro ⟨p, hx, hp⟩
    exact ⟨p, x, hx, by simp [hp]⟩

theorem flatMap_walkedAmong {α : Type} (cs : List (Position × Node)) (f : Node → List α) :
    (walkedAmong cs).flatMap f = cs.flatMap fun c => if c.1.isWalked then f c.2 else [] := by
  induction cs with
  | nil => rfl
  | cons c cs ih =>
      rw [walkedAmong_cons, List.flatMap_append, ih, List.flatMap_cons]
      split <;> simp

/-- Only expressions have parts in these two positions. -/
theorem expr_of_child {n c : Node} {p : Position} (hp : p = .chained ∨ p = .privateObject)
    (h : (p, c) ∈ n.children) : ∃ e, n = expr e := by
  cases n with
  | expr e => exact ⟨e, rfl⟩
  | script body => rcases hp with rfl | rfl <;> simp [children, partsAt] at h
  | element e => rcases hp with rfl | rfl <;> cases e <;> simp [children, elementChildren] at h
  | property e => rcases hp with rfl | rfl <;> cases e <;> simp [children, propertyChildren] at h
  | key k => rcases hp with rfl | rfl <;> cases k <;> simp [children, keyChildren] at h
  | function fn =>
      rcases hp with rfl | rfl <;> cases fn <;> simp [children, functionChildren, partsAt] at h
  | cls e => rcases hp with rfl | rfl <;> cases e <;> simp [children, classChildren, partsAt] at h
  | member e =>
      rcases hp with rfl | rfl <;> cases e <;> simp [children, memberChildren, partsAt] at h
  | pattern e =>
      rcases hp with rfl | rfl <;> cases e <;> simp [children, patternChildren, partsAt] at h
  | stmt e => rcases hp with rfl | rfl <;> cases e <;> simp [children, stmtChildren, partsAt] at h
  | declarator e => rcases hp with rfl | rfl <;> cases e <;> simp [children, partsAt] at h
  | case e => rcases hp with rfl | rfl <;> cases e <;> simp [children, partsAt] at h

theorem chained_child {n c : Node} (h : (Position.chained, c) ∈ n.children) :
    ∃ s body, n = expr (.chain s body) ∧ c = expr body := by
  obtain ⟨e, rfl⟩ := expr_of_child (.inl rfl) h
  cases e with
  | chain s body => exact ⟨s, body, rfl, (Prod.mk.inj (List.mem_singleton.mp h)).2⟩
  | _ => simp [children, exprChildren, partsAt] at h

theorem privateObject_child {n c : Node} (h : (Position.privateObject, c) ∈ n.children) :
    ∃ s o object field, n = expr (.privateMember s o object field) := by
  obtain ⟨e, rfl⟩ := expr_of_child (.inr rfl) h
  cases e with
  | privateMember s o object field => exact ⟨s, o, object, field, rfl⟩
  | _ => simp [children, exprChildren, partsAt] at h

theorem privateMember_of_place {n x : Node} {rest : List Position}
    (h : (.privateObject :: rest, x) ∈ n.places) :
    ∃ s o object field, n = expr (.privateMember s o object field) := by
  rw [places_eq, List.mem_cons, List.mem_flatMap] at h
  rcases h with h | ⟨⟨p, c⟩, hc, h⟩
  · simp at h
  · obtain ⟨place, -, heq⟩ := List.mem_map.mp h
    obtain rfl : p = .privateObject := (List.cons.inj (Prod.mk.inj heq).1).1
    exact privateObject_child hc

/-- What the walk finds in a tree, read off its places. -/
def visibleSites (m : Mode) (n : Node) : List Site :=
  n.places.flatMap fun place => if isWalkedTrail place.1 then place.2.ownSites m else []

/-- What it finds below a child. -/
def sitesBelow (m : Mode) (c : Position × Node) : List Site :=
  c.2.places.flatMap fun place =>
    if isWalkedTrail (c.1 :: place.1) then place.2.ownSites m else []

theorem visibleSites_eq (m : Mode) (n : Node) :
    n.visibleSites m = n.ownSites m ++ n.children.flatMap (sitesBelow m) := by
  rw [visibleSites, places_eq, List.flatMap_cons, List.flatMap_assoc]
  simp only [isWalkedTrail, if_true, List.flatMap_map]
  rfl

theorem sitesBelow_eq (m : Mode) {c : Position × Node}
    (h : c.1 = .chained → ∀ s o object field, c.2 ≠ expr (.privateMember s o object field)) :
    sitesBelow m c = if c.1.isWalked then c.2.visibleSites m else [] := by
  have hcons : ∀ place ∈ c.2.places,
      isWalkedTrail (c.1 :: place.1) = (c.1.isWalked && isWalkedTrail place.1) := by
    rintro ⟨trail, x⟩ hplace
    refine isWalkedTrail_cons fun rest hchained htrail => ?_
    obtain rfl : trail = .privateObject :: rest := htrail
    obtain ⟨s, o, object, field, hc⟩ := privateMember_of_place hplace
    exact h hchained s o object field hc
  rw [sitesBelow, List.flatMap_congr fun place hplace => by rw [hcons place hplace]]
  cases hwalked : c.1.isWalked with
  | true => simp [visibleSites]
  | false => simp

/-- A private member that is all of a chain is passed, and its object visited. -/
theorem sitesBelow_privateMember (m : Mode) (s : Span) (o : Bool) (object : Expr)
    (field : String) :
    sitesBelow m (.chained, expr (.privateMember s o object field)) =
      (expr object).visibleSites m := by
  rw [sitesBelow, places_eq, List.flatMap_cons]
  simp only [children, exprChildren, List.flatMap_singleton, List.flatMap_map]
  rfl

/-- The sites of a node are those of all places of the tree to which a trail
leads that the walk follows, each once and in the order of the places. -/
theorem sites_eq_visibleSites (m : Mode) (n : Node) : n.sites m = n.visibleSites m := by
  induction n using induction_size with
  | step n ih =>
      rw [sites_eq, visibleSites_eq]
      congr 1
      unfold walked
      split
      · rename_i s t o object field
        have hobject : (expr object).sites m = (expr object).visibleSites m :=
          ih _ (by simp +arith)
        rw [children, exprChildren, List.flatMap_singleton, sitesBelow_privateMember, ← hobject]
        simp [exprSites]
      · rename_i hnot
        rw [flatMap_walkedAmong]
        refine List.flatMap_congr fun c hc => ?_
        rw [sitesBelow_eq m, ih c.2 (sizeOf_child hc)]
        intro hchained t o object field hc'
        obtain rfl : c = (.chained, expr (.privateMember t o object field)) := Prod.ext hchained hc'
        obtain ⟨s, body, rfl, hbody⟩ := chained_child hc
        obtain rfl := expr.inj hbody
        exact hnot s t o object field rfl

theorem mem_sites {m : Mode} {n : Node} {s : Site} : s ∈ n.sites m ↔
    ∃ place ∈ n.places, isWalkedTrail place.1 = true ∧ s ∈ place.2.ownSites m := by
  rw [sites_eq_visibleSites, visibleSites, List.mem_flatMap]
  refine exists_congr fun place => and_congr_right fun _ => ?_
  split
  · rename_i hwalked
    exact ⟨fun hs => ⟨hwalked, hs⟩, fun h => h.2⟩
  · rename_i hnot
    exact iff_of_false List.not_mem_nil fun h => hnot h.1

/-! ## The nodes that the walk comes to -/

theorem mem_walked_of_child {n c : Node} {p : Position} (hc : (p, c) ∈ n.children)
    (hp : p.isWalked = true) : c ∈ n.walked := by
  unfold walked
  split
  · obtain rfl := (Prod.mk.inj (List.mem_singleton.mp hc)).2
    exact List.mem_cons_self
  · exact mem_walkedAmong.mpr ⟨p, hc, hp⟩

theorem sizeOf_walked {n c : Node} (hc : c ∈ n.walked) : sizeOf c < sizeOf n := by
  unfold walked at hc
  split at hc
  · rcases List.mem_cons.mp hc with rfl | hc
    · simp +arith
    · obtain rfl := List.mem_singleton.mp hc
      simp +arith
  · obtain ⟨p, hpc, -⟩ := mem_walkedAmong.mp hc
    exact sizeOf_child hpc

/-- The walk through `n` comes to the node. -/
def Visits (n x : Node) : Prop := ∃ trail, (trail, x) ∈ n.places ∧ isWalkedTrail trail = true

theorem visits_self (n : Node) : n.Visits n := ⟨[], self_mem_places n, rfl⟩

/-- What the walk comes to from a node that it goes to next, it comes to. -/
theorem visits_of_walked {n c x : Node} (hc : c ∈ n.walked) (hx : c.Visits x) : n.Visits x := by
  obtain ⟨trail, hplace, htrail⟩ := hx
  have hchild : ∀ p, (p, c) ∈ n.children → p.isWalked = true → n.Visits x := by
    intro p hpc hp
    refine ⟨p :: trail, mem_places_of_child hpc hplace, ?_⟩
    rw [isWalkedTrail_cons fun rest _ hrest => ?_, hp, htrail]
    · rfl
    · rw [hrest] at htrail
      cases htrail
  unfold walked at hc
  split at hc
  · rename_i s t o object field
    rcases List.mem_cons.mp hc with rfl | hc
    · exact hchild .chained List.mem_cons_self rfl
    · obtain rfl := List.mem_singleton.mp hc
      have hobject : (.privateObject :: trail, x) ∈
          (expr (.privateMember t o object field)).places :=
        mem_places_of_child List.mem_cons_self hplace
      exact ⟨.chained :: .privateObject :: trail,
        mem_places_of_child List.mem_cons_self hobject, htrail⟩
  · obtain ⟨p, hpc, hp⟩ := mem_walkedAmong.mp hc
    exact hchild p hpc hp

/-- The walk stands at the node, or it comes there from one that it goes to next. -/
theorem visits_cases {n x : Node} (h : n.Visits x) : x = n ∨ ∃ c ∈ n.walked, c.Visits x := by
  obtain ⟨trail, hplace, htrail⟩ := h
  rw [places_eq] at hplace
  rcases List.mem_cons.mp hplace with heq | hplace
  · exact .inl (Prod.mk.inj heq).2
  · obtain ⟨⟨p, c⟩, hpc, hplace⟩ := List.mem_flatMap.mp hplace
    obtain ⟨⟨rest, y⟩, hrest, heq⟩ := List.mem_map.mp hplace
    obtain ⟨rfl, rfl⟩ := Prod.mk.inj heq
    right
    by_cases hprivate : p = .chained ∧ ∃ tail, rest = .privateObject :: tail
    · -- The private member is passed, so the walk comes from its object.
      obtain ⟨rfl, tail, rfl⟩ := hprivate
      obtain ⟨s, body, rfl, rfl⟩ := chained_child hpc
      obtain ⟨t, o, object, field, hbody⟩ := privateMember_of_place hrest
      obtain rfl := expr.inj hbody
      refine ⟨expr object, List.mem_cons_of_mem _ List.mem_cons_self, tail, ?_, htrail⟩
      rw [places_eq] at hrest
      simpa [children, exprChildren] using hrest
    · rw [isWalkedTrail_cons fun tail hp htail => hprivate ⟨hp, tail, htail⟩,
        Bool.and_eq_true] at htrail
      exact ⟨c, mem_walked_of_child hpc htrail.1, rest, hrest, htrail.2⟩

/-- The sites of a node to which the walk comes are found one after the other. -/
theorem sites_sublist_of_visits {m : Mode} {n x : Node} (h : n.Visits x) :
    (x.sites m).Sublist (n.sites m) := by
  induction n using induction_size with
  | step n ih =>
      rcases visits_cases h with rfl | ⟨c, hc, hx⟩
      · exact List.Sublist.refl _
      · have hsub : (c.sites m).Sublist (n.walked.flatMap (sites m)) := by
          rw [List.flatMap_def]
          exact List.sublist_flatten_of_mem (List.mem_map.mpr ⟨c, hc, rfl⟩)
        rw [n.sites_eq]
        exact (ih c (sizeOf_walked hc) hx).trans (hsub.trans (List.sublist_append_right _ _))

end Node
end EmitLint.Syntax
