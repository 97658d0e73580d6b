/-
# What makes a site a site

A site that should not be one makes the linter ask for validators in an object that
declares no emits.  `Origin` lists, form by form, the nodes that make something a
site, and where it stands in relation to them: an object literal that is the
argument of a call or is exported, or a call of the macro itself.  It speaks of
addresses, so that the object that is meant is this one and no other that looks
the same.

Main statement: `origins_of_sites`.  The walk finds what has an origin that it comes
to, and nothing else.
-/
import EmitLint.Proofs.Component.Located

namespace EmitLint.Component

open Syntax

/-- The functions that take a component as their first argument. -/
def IsDefiner (name : String) : Prop :=
  name = "defineComponent" ∨ name = "defineNuxtComponent" ∨ name = "createApp"

/-- The methods that take a component as their last argument, and what they are methods of. -/
def IsRegistrar (receiver method : String) : Prop :=
  method = "component" ∨ method = "mixin" ∨ (receiver = "Vue" ∧ method = "extend")

/-- In the tree `root`, the node at the address `b` makes what is at the address `a` a site.  The
arguments of a call are behind its callee, so the first one is the child number one. -/
inductive Origin (m : Mode) (root : Node) (b : Address) : Address → Site → Prop
  | exported {c s : Span} {value : Expr} {ps : List Property} :
      m.componentFile = true →
      root.at? b = some (.stmt (.exportDefault c value)) → value.unwrap = .object s ps →
      Origin m root b (b ++ 0 :: value.unwrapAt) (.options s ps)
  | definer {c f s : Span} {o t : Bool} {name : String} {e : Expr} {rest : List Element}
      {ps : List Property} :
      IsDefiner name →
      root.at? b = some (.expr (.call c o (.name f name) t (.item e :: rest))) →
      e.unwrap = .object s ps → Origin m root b (b ++ 1 :: 0 :: e.unwrapAt) (.options s ps)
  | application {c f s : Span} {e : Expr} {rest : List Element} {ps : List Property} :
      root.at? b = some (.expr (.new c (.name f "Vue") (.item e :: rest))) →
      e.unwrap = .object s ps → Origin m root b (b ++ 1 :: 0 :: e.unwrapAt) (.options s ps)
  | registrar {c f r s : Span} {o p t : Bool} {object e : Expr} {receiver method : String}
      {front : List Element} {ps : List Property} :
      object.unwrap = .name r receiver → IsRegistrar receiver method →
      root.at? b = some (.expr (.call c o (.member f p object method) t (front ++ [.item e]))) →
      e.unwrap = .object s ps →
      Origin m root b (b ++ (front.length + 1) :: 0 :: e.unwrapAt) (.options s ps)
  | emitsCall {c f : Span} {o t typeOnly : Bool} {args : List Element} :
      m.kind = .setup →
      root.at? b = some (.expr (.call c o (.name f "defineEmits") t args)) →
      (typeOnly = true ↔ t = true ∧ args = []) →
      Origin m root b b (.emitsCall c typeOnly args)

variable {m : Mode} {root n : Node} {a b : Address} {s : Site}

/-! ## The arguments of a call -/

theorem isOptions_head?_iff {args : List Element} {t : Span} {ps : List Property} :
    IsOptions args.head? t ps ↔ ∃ e rest, args = .item e :: rest ∧ e.unwrap = .object t ps := by
  constructor
  · intro h
    obtain ⟨e, harg, hobject⟩ := h
    obtain ⟨rest, rfl⟩ := List.head?_eq_some_iff.mp harg
    exact ⟨e, rest, rfl, hobject⟩
  · intro h
    obtain ⟨e, rest, rfl, hobject⟩ := h
    exact ⟨e, rfl, hobject⟩

theorem isOptions_getLast?_iff {args : List Element} {t : Span} {ps : List Property} :
    IsOptions args.getLast? t ps ↔
      ∃ e front, args = front ++ [.item e] ∧ e.unwrap = .object t ps := by
  constructor
  · intro h
    obtain ⟨e, harg, hobject⟩ := h
    obtain ⟨front, rfl⟩ := List.getLast?_eq_some_iff.mp harg
    exact ⟨e, front, rfl, hobject⟩
  · intro h
    obtain ⟨e, front, rfl, hobject⟩ := h
    exact ⟨e, List.getLast?_concat, hobject⟩

theorem siteAddress_of_registrar {c f : Span} {o p t : Bool} {object e : Expr} {method : String}
    {front : List Element} :
    siteAddress (.expr (.call c o (.member f p object method) t (front ++ [.item e]))) =
      (front.length + 1) :: 0 :: e.unwrapAt := by
  rw [siteAddress, List.getLast?_concat, List.length_append, List.length_singleton]
  · rfl
  · intro u g
    exact Expr.noConfusion

theorem ne_defineEmits {name : String} (h : IsDefiner name) : name ≠ "defineEmits" := by
  rcases h with rfl | rfl | rfl <;> decide

/-! ## Origins and declarations -/

/-- What the node at an address declares originates there. -/
theorem origin_of_declares (hn : root.at? b = some n) (h : Declares m n s) :
    Origin m root b (b ++ siteAddress n) s := by
  cases h with
  | @definition c f _ o t name args ps hname hoptions =>
      obtain ⟨e, rest, rfl, hobject⟩ := isOptions_head?_iff.mp hoptions
      rw [siteAddress_of_definer (ne_defineEmits hname)]
      exact .definer hname hn hobject
  | registration hreceiver hmethod hoptions =>
      obtain ⟨e, front, rfl, hobject⟩ := isOptions_getLast?_iff.mp hoptions
      rw [siteAddress_of_registrar]
      exact .registrar hreceiver hmethod hn hobject
  | application hoptions =>
      obtain ⟨e, rest, rfl, hobject⟩ := isOptions_head?_iff.mp hoptions
      exact .application hn hobject
  | @emitsCall c f o t args hkind =>
      have hself : siteAddress (.expr (.call c o (.name f "defineEmits") t args)) = [] := rfl
      rw [hself, List.append_nil]
      refine .emitsCall hkind hn ?_
      rw [Bool.and_eq_true, List.isEmpty_iff]
      exact and_comm
  | exported hfile hobject => exact .exported hfile hn hobject

/-- What originates at an address is declared by the node there. -/
theorem declares_of_origin (h : Origin m root b a s) :
    ∃ n, root.at? b = some n ∧ Declares m n s ∧ a = b ++ siteAddress n := by
  cases h with
  | exported hfile hn hobject => exact ⟨_, hn, .exported hfile hobject, rfl⟩
  | definer hname hn hobject =>
      refine ⟨_, hn, .definition hname (isOptions_head?_iff.mpr ⟨_, _, rfl, hobject⟩), ?_⟩
      rw [siteAddress_of_definer (ne_defineEmits hname)]
      rfl
  | application hn hobject =>
      exact ⟨_, hn, .application (isOptions_head?_iff.mpr ⟨_, _, rfl, hobject⟩), rfl⟩
  | registrar hreceiver hmethod hn hobject =>
      refine ⟨_, hn, .registration hreceiver hmethod
        (isOptions_getLast?_iff.mpr ⟨_, _, rfl, hobject⟩), ?_⟩
      rw [siteAddress_of_registrar]
  | @emitsCall c f o t typeOnly args hkind hn htype =>
      have htypeOnly : typeOnly = (args.isEmpty && t) := by
        rw [Bool.eq_iff_iff, htype, Bool.and_eq_true, List.isEmpty_iff]
        exact and_comm
      subst htypeOnly
      exact ⟨_, hn, .emitsCall hkind, (List.append_nil _).symm⟩

/-- What has an origin is a node of the tree, and the site is this node. -/
theorem exists_is_of_origin (h : Origin m root b a s) : ∃ x, root.at? a = some x ∧ s.Is x := by
  obtain ⟨n, hn, hs, rfl⟩ := declares_of_origin h
  rw [Node.at?_append_of_at? hn]
  exact exists_is_of_declares hs

/-- The sites of a program are, each at its address, what has an origin to which the walk comes.
What has an origin is, at its address, an object literal or a call of the macro. -/
theorem origins_of_sites (m : Mode) (program : Program) :
    (sitesAt m program.root).map (·.2) = sites m program ∧
    (∀ a s, (a, s) ∈ sitesAt m program.root ↔
      ∃ b ∈ program.root.visited.map (·.1), Origin m program.root b a s) ∧
    ∀ a b s, Origin m program.root b a s → ∃ x, program.root.at? a = some x ∧ s.Is x := by
  refine ⟨map_snd_sitesAt m _, ?_, fun a b s => exists_is_of_origin⟩
  intro a s
  rw [mem_sitesAt]
  constructor
  · intro h
    obtain ⟨b, x, hx, hs, rfl⟩ := h
    refine ⟨b, List.mem_map.mpr ⟨(b, x), hx, rfl⟩, ?_⟩
    exact origin_of_declares (Node.at?_of_mem_visited hx) (mem_ownSites.mp hs)
  · intro h
    obtain ⟨b, hb, horigin⟩ := h
    obtain ⟨⟨b', x⟩, hx, rfl⟩ := List.mem_map.mp hb
    obtain ⟨n, hn, hs, rfl⟩ := declares_of_origin horigin
    -- There is one node at the address, and so it is the one that the walk comes to.
    obtain rfl : x = n := Option.some.inj ((Node.at?_of_mem_visited hx).symm.trans hn)
    exact ⟨_, x, hx, mem_ownSites.mpr hs, rfl⟩

end EmitLint.Component
