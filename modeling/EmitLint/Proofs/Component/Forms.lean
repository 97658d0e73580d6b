/-
# The forms that declare a component

`Declares` lists, form by form, what makes a node declare emits; it says
nothing about the walk.  Main statement: `sites_of_walked_places`.  A node
that declares a site and that the walk comes to has its site among those of
the program; and these are all, each once, in the order of the text.

The walk does not come to every node.  `unvisited_site` is a component that
declares its emits in a place where the walk does not look, the object of a
private member; the same object in front of `?.` is looked at.
-/
import EmitLint.Proofs.Component.Walk

namespace EmitLint.Component

open Syntax

/-! ## The forms -/

/-- The argument is an object literal, but for wrappers around it. -/
def IsOptions (arg : Option Element) (s : Span) (ps : List Property) : Prop :=
  ∃ e, arg = some (.item e) ∧ e.unwrap = .object s ps

/-- The node is of one of the documented forms, and this is its site. -/
inductive Declares (m : Mode) : Node → Site → Prop
  /-- A function that defines a component takes it as its first argument. -/
  | definition {c f s : Span} {o t : Bool} {name : String} {args : List Element}
      {ps : List Property} :
      name = "defineComponent" ∨ name = "defineNuxtComponent" ∨ name = "createApp" →
      IsOptions args.head? s ps →
      Declares m (.expr (.call c o (.name f name) t args)) (.options s ps)
  /-- A method that registers one takes it as its last argument. -/
  | registration {c f s r : Span} {o p t : Bool} {receiver : Expr} {name method : String}
      {args : List Element} {ps : List Property} :
      receiver.unwrap = .name r name →
      method = "component" ∨ method = "mixin" ∨ (name = "Vue" ∧ method = "extend") →
      IsOptions args.getLast? s ps →
      Declares m (.expr (.call c o (.member f p receiver method) t args)) (.options s ps)
  | application {c f s : Span} {args : List Element} {ps : List Property} :
      IsOptions args.head? s ps →
      Declares m (.expr (.new c (.name f "Vue") args)) (.options s ps)
  | emitsCall {c f : Span} {o t : Bool} {args : List Element} :
      m.kind = .setup →
      Declares m (.expr (.call c o (.name f "defineEmits") t args))
        (.emitsCall c (args.isEmpty && t) args)
  | exported {c s : Span} {value : Expr} {ps : List Property} :
      m.componentFile = true → value.unwrap = .object s ps →
      Declares m (.stmt (.exportDefault c value)) (.options s ps)

/-! ## What a node is by itself is what it declares -/

theorem mem_objectSite {e : Expr} {x : Site} :
    x ∈ objectSite e ↔ ∃ s ps, e.unwrap = .object s ps ∧ x = .options s ps := by
  unfold objectSite
  split
  · rename_i s ps heq
    rw [List.mem_singleton]
    constructor
    · rintro rfl
      exact ⟨s, ps, heq, rfl⟩
    · rintro ⟨s', ps', h, rfl⟩
      obtain ⟨rfl, rfl⟩ := Expr.object.inj (heq.symm.trans h)
      rfl
  · rename_i hne
    simp only [List.not_mem_nil, false_iff]
    rintro ⟨s, ps, heq, -⟩
    exact hne s ps heq

theorem mem_argumentSite {arg : Option Element} {x : Site} :
    x ∈ argumentSite arg ↔ ∃ s ps, IsOptions arg s ps ∧ x = .options s ps := by
  unfold argumentSite
  split
  · rename_i e
    rw [mem_objectSite]
    constructor
    · rintro ⟨s, ps, he, rfl⟩
      exact ⟨s, ps, ⟨e, rfl, he⟩, rfl⟩
    · rintro ⟨s, ps, ⟨e', harg, he⟩, rfl⟩
      obtain rfl := Element.item.inj (Option.some.inj harg)
      exact ⟨s, ps, he, rfl⟩
  · rename_i hne
    simp only [List.not_mem_nil, false_iff]
    rintro ⟨s, ps, ⟨e, harg, -⟩, -⟩
    exact hne e harg

theorem isRegistration_iff {receiver method : String} :
    isRegistration receiver method = true ↔
      method = "component" ∨ method = "mixin" ∨ (receiver = "Vue" ∧ method = "extend") := by
  simp [isRegistration, or_assoc]

theorem mem_callSite {m : Mode} {c : Span} {o t : Bool} {callee : Expr} {args : List Element}
    {x : Site} :
    x ∈ callSite m c callee t args ↔ Declares m (.expr (.call c o callee t args)) x := by
  constructor
  · intro hx
    unfold callSite at hx
    split at hx
    · rename_i f name
      split at hx
      · rename_i hname
        subst hname
        split at hx
        · rename_i hkind
          obtain rfl := List.mem_singleton.mp hx
          exact .emitsCall (by cases hk : m.kind <;> simp_all [ScriptKind.isSetup])
        · exact absurd hx List.not_mem_nil
      · split at hx
        · rename_i hdefiner
          obtain ⟨s, ps, hps, rfl⟩ := mem_argumentSite.mp hx
          exact .definition (by simpa [definers] using hdefiner) hps
        · exact absurd hx List.not_mem_nil
    · rename_i f p receiver method
      split at hx
      · rename_i r name hname
        split at hx
        · rename_i hreg
          obtain ⟨s, ps, hps, rfl⟩ := mem_argumentSite.mp hx
          exact .registration hname (isRegistration_iff.mp hreg) hps
        · exact absurd hx List.not_mem_nil
      · exact absurd hx List.not_mem_nil
    · exact absurd hx List.not_mem_nil
  · intro h
    cases h with
    | definition hname hps =>
        rename_i f s name ps
        have hne : name ≠ "defineEmits" := by
          rcases hname with rfl | rfl | rfl <;> decide
        have hmem : name ∈ definers := by simpa [definers] using hname
        rw [callSite, if_neg hne, if_pos hmem]
        exact mem_argumentSite.mpr ⟨s, ps, hps, rfl⟩
    | registration hreceiver hmethod hps =>
        simp only [callSite, hreceiver, isRegistration_iff.mpr hmethod, if_true]
        exact mem_argumentSite.mpr ⟨_, _, hps, rfl⟩
    | emitsCall hkind =>
        simp [callSite, hkind, ScriptKind.isSetup]

theorem mem_newSite {m : Mode} {c : Span} {callee : Expr} {args : List Element} {x : Site} :
    x ∈ newSite callee args ↔ Declares m (.expr (.new c callee args)) x := by
  unfold newSite
  split
  · rw [mem_argumentSite]
    constructor
    · rintro ⟨s, ps, hps, rfl⟩
      exact .application hps
    · intro h
      cases h with
      | application hps => exact ⟨_, _, hps, rfl⟩
  · rename_i hne
    simp only [List.not_mem_nil, false_iff]
    intro h
    cases h with
    | application hps => exact hne _ rfl

theorem mem_ownSites {m : Mode} {n : Node} {x : Site} : x ∈ n.ownSites m ↔ Declares m n x := by
  have hnone : (n.ownSites m = [] → ¬ Declares m n x → (x ∈ n.ownSites m ↔ Declares m n x)) := by
    intro hnil hnot
    rw [hnil]
    exact iff_of_false List.not_mem_nil hnot
  cases n with
  | expr e =>
      cases e with
      | call c o callee t args => exact mem_callSite
      | new c callee args => exact mem_newSite
      | _ => exact hnone rfl (fun h => nomatch h)
  | stmt s =>
      cases s with
      | exportDefault c value =>
          show x ∈ (if m.componentFile then objectSite value else []) ↔ _
          split
          · rename_i hfile
            rw [mem_objectSite]
            constructor
            · rintro ⟨s, ps, hvalue, rfl⟩
              exact .exported hfile hvalue
            · intro h
              cases h with
              | exported _ hvalue => exact ⟨_, _, hvalue, rfl⟩
          · rename_i hfile
            refine iff_of_false List.not_mem_nil fun h => ?_
            cases h with
            | exported hfile' _ => exact hfile hfile'
      | _ => exact hnone rfl (fun h => nomatch h)
  | _ => exact hnone rfl (fun h => nomatch h)

/-! ## The sites of a program -/

/-- The site of every node of a documented form is found, if the walk follows
the trail to it.  No other trail has a part in what is found. -/
theorem sites_of_walked_places (m : Mode) (program : Program) :
    (∀ place ∈ program.root.places, ∀ s, Declares m place.2 s →
      isWalkedTrail place.1 = true → s ∈ sites m program) ∧
    (sites m program = program.root.places.flatMap fun place =>
      if isWalkedTrail place.1 then place.2.ownSites m else []) ∧
    ∀ n s, s ∈ n.ownSites m ↔ Declares m n s := by
  refine ⟨fun place hplace s hs hwalked => ?_, program.root.sites_eq_visibleSites m,
    fun n s => mem_ownSites⟩
  have hown : s ∈ place.2.ownSites m := mem_ownSites.mpr hs
  exact Node.mem_sites.mpr ⟨place, hplace, hwalked, hown⟩

/-- The component in `class A { #o; f() { return defineComponent({ emits: ['a'] }).#o } }`. -/
def unvisitedCall : Expr :=
  .call ⟨27, 60⟩ false (.name ⟨27, 42⟩ "defineComponent") false
    [.item (.object ⟨43, 59⟩
      [.entry ⟨45, 57⟩ (.name ⟨45, 50⟩ "emits") (.array ⟨52, 57⟩ [.item (.string ⟨53, 56⟩ "a")])])]

/-- The whole script. -/
def unvisitedScript : Program :=
  ⟨[.classDecl ⟨0, 67⟩ (.mk [] none
    [.field [] (.privateName ⟨10, 12⟩ "o") none,
      .method [] (.name ⟨14, 15⟩ "f")
        (.mk [] [.returns ⟨20, 63⟩ (some (.privateMember ⟨27, 63⟩ false unvisitedCall "o"))])])]⟩

/-- The component is declared, but not found. -/
theorem unvisited_site :
    ([.part, .part, .part, .part, .part, .part, .privateObject], Node.expr unvisitedCall) ∈
      unvisitedScript.root.places ∧
    (∃ s, Declares ⟨.plain, true⟩ (.expr unvisitedCall) s) ∧
    sites ⟨.plain, true⟩ unvisitedScript = [] := by
  refine ⟨?_, ⟨_, .definition (.inl rfl) ⟨_, rfl, rfl⟩⟩, rfl⟩
  refine Node.mem_places_of_child (c := .stmt _) List.mem_cons_self ?_
  refine Node.mem_places_of_child (c := .cls _) List.mem_cons_self ?_
  -- The method is the second member, and its body comes after its name.
  refine Node.mem_places_of_child (c := .member _) (List.mem_cons_of_mem _ List.mem_cons_self) ?_
  refine Node.mem_places_of_child (c := .function _) (List.mem_cons_of_mem _ List.mem_cons_self) ?_
  refine Node.mem_places_of_child (c := .stmt _) List.mem_cons_self ?_
  refine Node.mem_places_of_child (c := .expr _) List.mem_cons_self ?_
  exact Node.mem_places_of_child List.mem_cons_self (Node.self_mem_places _)

end EmitLint.Component
