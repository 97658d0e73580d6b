/-
# What a site has for itself

Sites overlap in the text: an options object can stand inside of another one,
and a call that declares a component can be an argument of one that registers
it.  Still they share nothing that they declare with.  A site claims its own
node, the elements and properties that declare its emits, and the `null`s that
those are declared with (`Site.marks`).  Main statement: `marks_subperm`.  The
nodes that all sites of a tree claim together are nodes of the tree, each
claimed once at most.

A node is told from the others of a tree by its `Mark`, which says of what kind
it is and where it stands.  That marks differ is assumed nowhere in this file.
-/
import EmitLint.Component.Emit
import EmitLint.Proofs.Component.Walk
import Mathlib.Data.List.Perm.Subperm

namespace EmitLint.Syntax

/-! ## Marks -/

/-- Of what kind a node is; a shape tells one form of an expression from another. -/
inductive Kind
  | expr (shape : Nat)
  /-- An array element or an argument that is an expression. -/
  | item (shape : Nat)
  | spreadItem
  | entry
  | spreadEntry
deriving DecidableEq, Repr

/-- A node, by its kind and where it stands. -/
abbrev Mark := Kind × Span

def Expr.mark (e : Expr) : Mark := (.expr e.ctorIdx, e.span)

/-- The mark of a `null` that stands there. -/
def nullMark (s : Span) : Mark := (Expr.null s).mark

/-- A hole is nothing that could be claimed. -/
def Element.mark? : Element → Option Mark
  | item e => some (.item e.ctorIdx, e.span)
  | spread s _ => some (.spreadItem, s)
  | hole _ => none

def Property.mark : Property → Mark
  | entry s _ _ => (.entry, s)
  | spread s _ => (.spreadEntry, s)

/-- The `null` that a property has as its value. -/
def Property.null? : Property → Option Span
  | entry _ _ value =>
      match value.unwrap with
      | .null s => some s
      | _ => none
  | spread .. => none

namespace Node

def mark? : Node → Option Mark
  | expr e => some e.mark
  | element a => a.mark?
  | property p => some p.mark
  | _ => none

/-- The marks of a tree, in the order of the nodes. -/
def marks (n : Node) : List Mark := n.nodes.filterMap mark?

/-- What a node that declares an emit declares it with: itself and its `null`. -/
def declaredMarks : Node → List Mark
  | property p => p.mark :: p.null?.toList.map nullMark
  | n => n.mark?.toList

theorem mark_sublist_declaredMarks (n : Node) : n.mark?.toList.Sublist n.declaredMarks := by
  cases n with
  | property p => exact List.singleton_sublist.mpr List.mem_cons_self
  | _ => exact List.Sublist.refl _

theorem marks_eq (n : Node) :
    n.marks = n.mark?.toList ++ n.children.flatMap fun c => c.2.marks := by
  rw [marks, nodes_eq, List.filterMap_cons, List.filterMap_flatMap]
  cases n.mark? <;> rfl

end Node
end EmitLint.Syntax

namespace EmitLint.Component

open Syntax

/-! ## What a site claims -/

/-- The emit that a node declares. -/
def nodeEmit? : Node → Option Emit
  | .element a => elementEmit? a
  | .property p => some (propertyEmit p)
  | _ => none

/-- The elements or properties of a definition. -/
def definitionNodes (e : Expr) : List Node :=
  match e.unwrap with
  | .array _ elements => elements.map .element
  | .object _ properties => properties.map .property
  | _ => []

namespace Site

/-- The nodes that declare the emits of a site. -/
def declaring (s : Site) : List Node :=
  match s.definition? with
  | some e => definitionNodes e
  | none => []

/-- The node that a site is. -/
def mark : Site → Mark
  | options s ps => (Expr.object s ps).mark
  | emitsCall s _ args => (Expr.call s false default false args).mark

/-- All that a site claims. -/
def marks (s : Site) : List Mark := s.mark :: s.declaring.flatMap Node.declaredMarks

end Site

theorem definitionEmits_eq (e : Expr) :
    definitionEmits e = (definitionNodes e).filterMap nodeEmit? := by
  rw [definitionEmits, definitionNodes]
  cases e.unwrap with
  | array s els =>
      show els.filterMap elementEmit? = (els.map Node.element).filterMap nodeEmit?
      rw [List.filterMap_map]
      rfl
  | object s ps =>
      show ps.map propertyEmit = (ps.map Node.property).filterMap nodeEmit?
      rw [List.filterMap_map, ← List.filterMap_eq_map]
      rfl
  | _ => rfl

/-- Each emit of a site is declared by a node of its own. -/
theorem emits_eq (s : Site) : s.emits = s.declaring.filterMap nodeEmit? := by
  rw [Site.emits, Site.declaring]
  cases s.definition? with
  | none => rfl
  | some e => exact definitionEmits_eq e

/-! ## Counting -/

section Counting
variable {α β : Type} [BEq β] {k : β} {f g : α → List β} {l : List α}

theorem count_flatMap_le (h : ∀ a ∈ l, (f a).count k ≤ (g a).count k) :
    (l.flatMap f).count k ≤ (l.flatMap g).count k := by
  induction l with
  | nil => exact Nat.le_refl _
  | cons a l ih =>
      obtain ⟨ha, hl⟩ := List.forall_mem_cons.mp h
      rw [List.flatMap_cons, List.flatMap_cons, List.count_append, List.count_append]
      exact Nat.add_le_add ha (ih hl)

/-- What fits in beside one member fits in beside all of them. -/
theorem add_count_flatMap_le {a : α} {j : Nat} (ha : a ∈ l)
    (hj : j + (f a).count k ≤ (g a).count k) (h : ∀ a ∈ l, (f a).count k ≤ (g a).count k) :
    j + (l.flatMap f).count k ≤ (l.flatMap g).count k := by
  induction l with
  | nil => exact absurd ha List.not_mem_nil
  | cons b l ih =>
      obtain ⟨hb, hl⟩ := List.forall_mem_cons.mp h
      rw [List.flatMap_cons, List.flatMap_cons, List.count_append, List.count_append]
      rcases List.mem_cons.mp ha with rfl | ha
      · have hrest := count_flatMap_le hl
        omega
      · have hrest := ih ha hl
        omega

theorem count_flatMap_append :
    (l.flatMap fun a => f a ++ g a).count k = (l.flatMap f).count k + (l.flatMap g).count k := by
  induction l with
  | nil => rfl
  | cons a l ih =>
      simp only [List.flatMap_cons, List.count_append, ih]
      omega

end Counting

/-! ## Room for one more claim -/

/-- All that is claimed in a tree, also by sites that the walk does not come to. -/
def claims (m : Mode) (n : Node) : List Mark :=
  n.nodes.flatMap fun x => (x.ownSites m).flatMap Site.marks

theorem claims_eq (m : Mode) (n : Node) :
    claims m n = (n.ownSites m).flatMap Site.marks ++ n.children.flatMap fun c => claims m c.2 := by
  rw [claims, Node.nodes_eq, List.flatMap_cons, List.flatMap_assoc]
  rfl

section Room
variable {m : Mode} {k : Mark} {n : Node} {e : Expr} {i j : Nat}

/-- The tree could be claimed from outside that many times at `k`, and would
still hold enough nodes for the claims of its own sites. -/
def HasRoom (m : Mode) (k : Mark) (j : Nat) (n : Node) : Prop :=
  j + (claims m n).count k ≤ n.marks.count k

/-- No node of the tree is claimed more often than it is there. -/
def RoomIn (m : Mode) (k : Mark) (n : Node) : Prop := ∀ x ∈ n.nodes, HasRoom m k 0 x

theorem RoomIn.self (h : RoomIn m k n) : HasRoom m k 0 n := h n (Node.self_mem_nodes n)

theorem RoomIn.child {c : Position × Node} (h : RoomIn m k n) (hc : c ∈ n.children) :
    RoomIn m k c.2 :=
  fun x hx => h x (Node.mem_nodes_of_child hc hx)

theorem RoomIn.unwrap (h : RoomIn m k (.expr e)) : RoomIn m k (.expr e.unwrap) :=
  fun x hx => h x (Node.mem_nodes_trans e.unwrap_mem_nodes hx)

theorem HasRoom.mono (h : HasRoom m k j n) (hij : i ≤ j) : HasRoom m k i n := by
  rw [HasRoom] at h ⊢
  omega

/-- A node has the room of its children, and room for a claim on itself. -/
theorem hasRoom_of_children (hall : ∀ c ∈ n.children, HasRoom m k 0 c.2)
    (hown : j + ((n.ownSites m).flatMap Site.marks).count k ≤ n.mark?.toList.count k) :
    HasRoom m k j n := by
  have hsum : (n.children.flatMap fun c => claims m c.2).count k ≤
      (n.children.flatMap fun c => c.2.marks).count k :=
    count_flatMap_le fun c hc => by simpa [HasRoom] using hall c hc
  rw [HasRoom, claims_eq, Node.marks_eq, List.count_append, List.count_append]
  omega

/-- What one child has room for can be claimed by the node, or from outside. -/
theorem hasRoom_of_child {c : Position × Node} (hc : c ∈ n.children) (hroom : HasRoom m k i c.2)
    (hall : ∀ c ∈ n.children, HasRoom m k 0 c.2)
    (hown : j + ((n.ownSites m).flatMap Site.marks).count k ≤ n.mark?.toList.count k + i) :
    HasRoom m k j n := by
  have hsum : i + (n.children.flatMap fun c => claims m c.2).count k ≤
      (n.children.flatMap fun c => c.2.marks).count k :=
    add_count_flatMap_le hc hroom fun c hc => by simpa [HasRoom] using hall c hc
  rw [HasRoom, claims_eq, Node.marks_eq, List.count_append, List.count_append]
  omega

theorem hasRoom_unwrap (h : HasRoom m k j (.expr e.unwrap)) : HasRoom m k j (.expr e) := by
  induction e using Expr.induction_unwrap with
  | bare e hbare => rwa [Expr.unwrap_of_isBare hbare] at h
  | wrapped s w inner ih =>
      have hinner : HasRoom m k j (.expr inner) := ih h
      refine hasRoom_of_child (c := (.part, .expr inner)) List.mem_cons_self hinner
        (fun c hc => ?_) (Nat.le_add_left _ _)
      obtain rfl := List.mem_singleton.mp hc
      exact hinner.mono (Nat.zero_le j)

/-! ## What a definition declares -/

theorem hasRoom_element {a : Element} (hall : RoomIn m k (.element a)) :
    HasRoom m k (((Node.element a).declaredMarks).count k) (.element a) := by
  refine hasRoom_of_children (fun c hc => (hall.child hc).self) ?_
  exact Nat.le_refl _

theorem hasRoom_property {p : Property} (hall : RoomIn m k (.property p)) :
    HasRoom m k (((Node.property p).declaredMarks).count k) (.property p) := by
  have hchildren : ∀ c ∈ (Node.property p).children, HasRoom m k 0 c.2 :=
    fun c hc => (hall.child hc).self
  cases hnull : p.null? with
  | none =>
      refine hasRoom_of_children hchildren ?_
      simp [Node.declaredMarks, hnull, Node.mark?, Node.ownSites]
  | some t =>
      cases p with
      | spread s value => cases hnull
      | entry s key value =>
          have hvalue : value.unwrap = .null t := by
            rw [Property.null?] at hnull
            split at hnull
            · rename_i u hu
              rw [hu, Option.some.inj hnull]
            · cases hnull
          have hroom : HasRoom m k ([nullMark t].count k) (.expr value) := by
            apply hasRoom_unwrap
            rw [hvalue]
            refine hasRoom_of_children (fun c hc => absurd hc List.not_mem_nil) ?_
            exact Nat.le_refl _
          refine hasRoom_of_child (c := (.part, .expr value))
            (List.mem_cons_of_mem _ List.mem_cons_self) hroom hchildren ?_
          have hmarks : (Node.property (.entry s key value)).declaredMarks =
              [(Property.entry s key value).mark] ++ [nullMark t] := by
            simp [Node.declaredMarks, hnull]
          rw [hmarks, List.count_append]
          exact Nat.le_refl _

/-- A node that is no site has the room of all its children together. -/
theorem hasRoom_of_all_children {f : Node → List Mark} (hown : n.ownSites m = [])
    (h : ∀ c ∈ n.children, HasRoom m k ((f c.2).count k) c.2) :
    HasRoom m k ((n.children.flatMap fun c => f c.2).count k) n := by
  have hsum : (n.children.flatMap fun c => f c.2 ++ claims m c.2).count k ≤
      (n.children.flatMap fun c => c.2.marks).count k :=
    count_flatMap_le fun c hc => by
      rw [List.count_append]
      exact h c hc
  rw [count_flatMap_append] at hsum
  rw [HasRoom, claims_eq, Node.marks_eq, hown, List.count_append, List.count_append]
  simp only [List.flatMap_nil, List.count_nil]
  omega

/-- Where a definition stands there is room for what its emits are declared with. -/
theorem hasRoom_definition (hall : RoomIn m k (.expr e)) :
    HasRoom m k (((definitionNodes e).flatMap Node.declaredMarks).count k) (.expr e) := by
  apply hasRoom_unwrap
  have hunwrap := hall.unwrap
  rw [definitionNodes]
  generalize e.unwrap = d at hunwrap ⊢
  cases d with
  | array s els =>
      have hroom : HasRoom m k _ (.expr (.array s els)) :=
        hasRoom_of_all_children (f := Node.declaredMarks) rfl fun c hc => by
          have hc' := hunwrap.child hc
          obtain ⟨a, -, rfl⟩ := mem_partsAt.mp hc
          exact hasRoom_element hc'
      rw [Node.children, exprChildren, partsAt, List.flatMap_map] at hroom
      show HasRoom m k (((els.map Node.element).flatMap Node.declaredMarks).count k) _
      rwa [List.flatMap_map]
  | object s ps =>
      have hroom : HasRoom m k _ (.expr (.object s ps)) :=
        hasRoom_of_all_children (f := Node.declaredMarks) rfl fun c hc => by
          have hc' := hunwrap.child hc
          obtain ⟨p, -, rfl⟩ := mem_partsAt.mp hc
          exact hasRoom_property hc'
      rw [Node.children, exprChildren, partsAt, List.flatMap_map] at hroom
      show HasRoom m k (((ps.map Node.property).flatMap Node.declaredMarks).count k) _
      rwa [List.flatMap_map]
  | _ => exact hunwrap.self

theorem hasRoom_emitsValue {p : Property} {value : Expr} (hall : RoomIn m k (.property p))
    (hp : emitsValue? p = some value) :
    HasRoom m k (((definitionNodes value).flatMap Node.declaredMarks).count k) (.property p) := by
  cases p with
  | spread s v => cases hp
  | entry s key v =>
      obtain rfl : v = value := by
        rw [emitsValue?, Option.ite_none_right_eq_some] at hp
        exact Option.some.inj hp.2
      have hv : (Position.part, Node.expr v) ∈ (Node.property (.entry s key v)).children :=
        List.mem_cons_of_mem _ List.mem_cons_self
      refine hasRoom_of_child hv (hasRoom_definition (hall.child hv))
        (fun c hc => (hall.child hc).self) ?_
      exact Nat.le_add_left _ _

/-! ## What a node claims -/

/-- An object literal has room for what it claims as an options object. -/
theorem hasRoom_objectSite (hall : RoomIn m k (.expr e)) :
    HasRoom m k (((objectSite e).flatMap Site.marks).count k) (.expr e) := by
  apply hasRoom_unwrap
  have hunwrap := hall.unwrap
  rw [objectSite]
  generalize e.unwrap = d at hunwrap ⊢
  cases d with
  | object s ps =>
      have hchildren : ∀ c ∈ (Node.expr (.object s ps)).children, HasRoom m k 0 c.2 :=
        fun c hc => (hunwrap.child hc).self
      have hmarks : [Site.options s ps].flatMap Site.marks =
          [(Expr.object s ps).mark] ++ (Site.options s ps).declaring.flatMap Node.declaredMarks :=
        List.flatMap_singleton ..
      show HasRoom m k (([Site.options s ps].flatMap Site.marks).count k) _
      rw [hmarks, List.count_append, Site.declaring, Site.definition?]
      cases hvalue : ps.findSome? emitsValue? with
      | none => exact hasRoom_of_children hchildren (Nat.le_refl _)
      | some value =>
          obtain ⟨p, hp, hpvalue⟩ := List.exists_of_findSome?_eq_some hvalue
          have hc : (Position.part, Node.property p) ∈ (Node.expr (.object s ps)).children :=
            mem_partsAt.mpr ⟨p, hp, rfl⟩
          exact hasRoom_of_child hc (hasRoom_emitsValue (hunwrap.child hc) hpvalue) hchildren
            (Nat.le_refl _)
  | _ => exact hunwrap.self

theorem hasRoom_argument {a : Element} (hall : RoomIn m k (.element a)) :
    HasRoom m k (((argumentSite (some a)).flatMap Site.marks).count k) (.element a) := by
  cases a with
  | item e =>
      have he : (Position.part, Node.expr e) ∈ (Node.element (.item e)).children :=
        List.mem_cons_self
      refine hasRoom_of_child he (hasRoom_objectSite (hall.child he))
        (fun c hc => (hall.child hc).self) ?_
      exact Nat.le_add_left _ _
  | spread s e => exact hall.self
  | hole s => exact hall.self

/-- The sites that a node is claim the node itself, if they do, and what one of
its children has room for. -/
def Covered (m : Mode) (k : Mark) (n : Node) : Prop :=
  ((n.ownSites m).flatMap Site.marks).count k ≤ n.mark?.toList.count k ∨
  ∃ c ∈ n.children, ∃ i, HasRoom m k i c.2 ∧
    ((n.ownSites m).flatMap Site.marks).count k ≤ n.mark?.toList.count k + i

theorem covered_of_nil (h : n.ownSites m = []) : Covered m k n := by
  left
  rw [h]
  exact Nat.zero_le _

section Arguments
variable {args : List Element} {arg : Option Element} (hall : ∀ c ∈ n.children, RoomIn m k c.2)
  (hargs : ∀ a ∈ args, (Position.part, Node.element a) ∈ n.children)
include hall hargs

theorem covered_argument (harg : ∀ a ∈ arg, a ∈ args) (hown : n.ownSites m = argumentSite arg) :
    Covered m k n := by
  cases arg with
  | none => exact covered_of_nil hown
  | some a =>
      have ha := hargs a (harg a rfl)
      refine .inr ⟨_, ha, _, hasRoom_argument (hall _ ha), ?_⟩
      rw [hown]
      exact Nat.le_add_left _ _

theorem covered_emitsCall {s : Span} {o : Bool}
    (hmark : n.mark? = some (Site.emitsCall s o args).mark)
    (hown : n.ownSites m = [.emitsCall s o args]) : Covered m k n := by
  have hmarks : (n.ownSites m).flatMap Site.marks = n.mark?.toList ++
      (Site.emitsCall s o args).declaring.flatMap Node.declaredMarks := by
    rw [hown, hmark]
    exact List.flatMap_singleton ..
  rw [Covered, hmarks, List.count_append]
  match o, args with
  | true, _ => exact .inl (Nat.le_refl _)
  | false, [] => exact .inl (Nat.le_refl _)
  | false, .spread _ _ :: _ => exact .inl (Nat.le_refl _)
  | false, .hole _ :: _ => exact .inl (Nat.le_refl _)
  | false, .item e :: rest =>
      have ha := hargs _ List.mem_cons_self
      have he : (Position.part, Node.expr e) ∈ (Node.element (.item e)).children :=
        List.mem_cons_self
      refine .inr ⟨_, ha, _, ?_, Nat.le_refl _⟩
      refine hasRoom_of_child he (hasRoom_definition ((hall _ ha).child he))
        (fun c hc => ((hall _ ha).child hc).self) ?_
      exact Nat.le_add_left _ _

end Arguments

theorem covered_call {s : Span} {o t : Bool} {callee : Expr} {args : List Element}
    (hall : ∀ c ∈ (Node.expr (.call s o callee t args)).children, RoomIn m k c.2) :
    Covered m k (.expr (.call s o callee t args)) := by
  have hargs : ∀ a ∈ args,
      (Position.part, Node.element a) ∈ (Node.expr (.call s o callee t args)).children :=
    fun a ha => List.mem_cons_of_mem _ (mem_partsAt.mpr ⟨a, ha, rfl⟩)
  have hcases : callSite m s callee t args = [] ∨
      callSite m s callee t args = argumentSite args.head? ∨
      callSite m s callee t args = argumentSite args.getLast? ∨
      callSite m s callee t args = [.emitsCall s (args.isEmpty && t) args] := by
    unfold callSite
    grind
  rcases hcases with hown | hown | hown | hown
  · exact covered_of_nil hown
  · exact covered_argument hall hargs (fun _ => List.mem_of_mem_head?) hown
  · exact covered_argument hall hargs (fun _ => List.mem_of_mem_getLast?) hown
  · exact covered_emitsCall hall hargs rfl hown

theorem covered_new {s : Span} {callee : Expr} {args : List Element}
    (hall : ∀ c ∈ (Node.expr (.new s callee args)).children, RoomIn m k c.2) :
    Covered m k (.expr (.new s callee args)) := by
  have hcases : newSite callee args = [] ∨ newSite callee args = argumentSite args.head? := by
    unfold newSite
    grind
  rcases hcases with hown | hown
  · exact covered_of_nil hown
  · refine covered_argument hall (fun a ha => ?_) (fun _ => List.mem_of_mem_head?) hown
    exact List.mem_cons_of_mem _ (mem_partsAt.mpr ⟨a, ha, rfl⟩)

theorem covered (hall : ∀ c ∈ n.children, RoomIn m k c.2) : Covered m k n := by
  cases n with
  | expr e =>
      cases e with
      | call s o callee t args => exact covered_call hall
      | new s callee args => exact covered_new hall
      | _ => exact covered_of_nil rfl
  | stmt s =>
      cases s with
      | exportDefault s value =>
          by_cases hfile : m.componentFile = true
          · have hvalue : (Position.part, Node.expr value) ∈
                (Node.stmt (.exportDefault s value)).children := List.mem_cons_self
            refine .inr ⟨_, hvalue, _, hasRoom_objectSite (hall _ hvalue), ?_⟩
            rw [Node.ownSites, if_pos hfile]
            exact Nat.le_add_left _ _
          · exact covered_of_nil (by rw [Node.ownSites, if_neg hfile])
      | _ => exact covered_of_nil rfl
  | _ => exact covered_of_nil rfl

/-- There is room everywhere. -/
theorem roomIn (m : Mode) (k : Mark) (n : Node) : RoomIn m k n := by
  induction n using Node.induction_children with
  | step n ih =>
      have hall : ∀ c ∈ n.children, HasRoom m k 0 c.2 := fun c hc => (ih c hc).self
      intro x hx
      rcases Node.mem_nodes.mp hx with rfl | ⟨c, hc, hxc⟩
      · rcases covered ih with hown | ⟨c, hc, i, hroom, hown⟩
        · exact hasRoom_of_children hall (by omega)
        · exact hasRoom_of_child hc hroom hall (by omega)
      · exact ih c hc x hxc

/-- What the sites of a tree claim are nodes of the tree, and none is claimed twice. -/
theorem marks_subperm (m : Mode) (n : Node) :
    ((n.sites m).flatMap Site.marks).Subperm n.marks := by
  rw [List.subperm_ext_iff]
  intro k _
  have hvisible : ((n.sites m).flatMap Site.marks).count k ≤ (claims m n).count k := by
    rw [n.sites_eq_visibleSites, Node.visibleSites, claims, Node.nodes, List.flatMap_map,
      List.flatMap_assoc]
    refine count_flatMap_le fun place _ => ?_
    split
    · exact Nat.le_refl _
    · exact Nat.zero_le _
  have hroom : HasRoom m k 0 n := (roomIn m k n).self
  rw [HasRoom] at hroom
  omega

end Room
end EmitLint.Component
