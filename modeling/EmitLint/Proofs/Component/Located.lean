/-
# Where the sites of a tree are

`sites` gives the sites of a program and not where they come from.  Here each
site comes with the address of its node: the object literal, or the call of the
macro.  `steps` and `visited` are the walk with addresses, and `siteAddress` is
the way from a node that declares a component to the node that the site is.

Main statement: `nodup_sitesAt`.  Different sites are at different addresses, in
any tree, so that an address says which of them is meant.
-/
import EmitLint.Proofs.Component.Forms
import EmitLint.Proofs.Syntax.Address
import Mathlib.Data.List.Flatten
import Mathlib.Data.List.Nodup

namespace EmitLint.Syntax.Node

open Component

variable {m : Mode} {n c x : Node} {a b : Address}

/-! ## The walk, with addresses -/

/-- The way to the object that the walk visits behind a private member. -/
def passedSteps : Node → List (Address × Node)
  | expr (.chain _ (.privateMember _ _ object _)) => [([0, 0], expr object)]
  | _ => []

/-- The nodes that the walk goes to next, each with the way there. -/
def steps (n : Node) : List (Address × Node) :=
  ((n.children.zipIdx.filter fun c => c.1.1.isWalked).map fun c => ([c.2], c.1.2)) ++ n.passedSteps

theorem walkedAmong_eq_map (cs : List (Position × Node)) :
    walkedAmong cs = (cs.filter fun c => c.1.isWalked).map (·.2) := by
  induction cs with
  | nil => rfl
  | cons c cs ih =>
      rw [walkedAmong_cons, List.filter_cons, ih]
      cases c.1.isWalked <;> rfl

theorem map_snd_passedSteps (n : Node) : n.passedSteps.map (·.2) = n.passed := by
  unfold passedSteps
  split
  · rfl
  · rename_i hnot
    unfold passed
    split
    · exact absurd rfl (hnot _ _ _ _ _)
    · rfl

theorem map_snd_steps (n : Node) : n.steps.map (·.2) = n.walked := by
  rw [steps, List.map_append, map_snd_passedSteps, walked_eq, walkedAmong_eq_map, List.map_map]
  conv_rhs => rw [← List.zipIdx_map_fst 0 n.children, List.filter_map, List.map_map]
  rfl

theorem mem_walked_of_mem_steps (h : (a, x) ∈ n.steps) : x ∈ n.walked := by
  rw [← map_snd_steps]
  exact List.mem_map.mpr ⟨(a, x), h, rfl⟩

theorem at?_of_mem_passedSteps (h : (a, x) ∈ n.passedSteps) : n.at? a = some x := by
  unfold passedSteps at h
  split at h
  · obtain ⟨rfl, rfl⟩ := Prod.mk.inj (List.mem_singleton.mp h)
    rfl
  · exact absurd h List.not_mem_nil

theorem at?_of_mem_steps (h : (a, x) ∈ n.steps) : n.at? a = some x := by
  rcases List.mem_append.mp h with h | h
  · obtain ⟨⟨⟨p, y⟩, i⟩, hy, heq⟩ := List.mem_map.mp h
    obtain ⟨rfl, rfl⟩ := Prod.mk.inj heq
    have hchild := List.mk_mem_zipIdx_iff_getElem?.mp (List.mem_filter.mp hy).1
    rw [at?_cons_of_child hchild, at?_nil]
  · exact at?_of_mem_passedSteps h

/-- The nodes that the walk comes to, in its order, each with its address. -/
def visited (n : Node) : List (Address × Node) :=
  ([], n) :: n.steps.attach.flatMap fun s => s.1.2.visited.map fun v => (s.1.1 ++ v.1, v.2)
termination_by sizeOf n
decreasing_by exact sizeOf_walked (mem_walked_of_mem_steps s.2)

theorem visited_eq (n : Node) :
    n.visited = ([], n) :: n.steps.flatMap fun s =>
      s.2.visited.map fun v => (s.1 ++ v.1, v.2) := by
  rw [visited, List.flatMap_subtype (g := fun s : Address × Node =>
    s.2.visited.map fun v => (s.1 ++ v.1, v.2)) (by simp), List.unattach_attach]

theorem self_mem_visited (n : Node) : ([], n) ∈ n.visited := by
  rw [visited_eq]
  exact List.mem_cons_self

theorem mem_visited_of_step (hs : (a, c) ∈ n.steps) (hx : (b, x) ∈ c.visited) :
    (a ++ b, x) ∈ n.visited := by
  rw [visited_eq]
  refine List.mem_cons_of_mem _ (List.mem_flatMap.mpr ⟨(a, c), hs, ?_⟩)
  exact List.mem_map.mpr ⟨(b, x), hx, rfl⟩

theorem mem_visited (h : (a, x) ∈ n.visited) : (a = [] ∧ x = n) ∨
    ∃ s c b, (s, c) ∈ n.steps ∧ (b, x) ∈ c.visited ∧ a = s ++ b := by
  rw [visited_eq] at h
  rcases List.mem_cons.mp h with heq | h
  · exact .inl (Prod.mk.inj heq)
  · obtain ⟨⟨s, c⟩, hs, h⟩ := List.mem_flatMap.mp h
    obtain ⟨⟨b, y⟩, hb, heq⟩ := List.mem_map.mp h
    obtain ⟨rfl, rfl⟩ := Prod.mk.inj heq
    exact .inr ⟨s, c, b, hs, hb, rfl⟩

theorem mem_visited_trans {y : Node} (hx : (a, x) ∈ n.visited) (hy : (b, y) ∈ x.visited) :
    (a ++ b, y) ∈ n.visited := by
  induction n using induction_size generalizing a with
  | step n ih =>
      rcases mem_visited hx with ⟨rfl, rfl⟩ | ⟨s, c, d, hs, hd, rfl⟩
      · exact hy
      · rw [List.append_assoc]
        exact mem_visited_of_step hs (ih c (sizeOf_walked (mem_walked_of_mem_steps hs)) hd)

theorem at?_of_mem_visited (h : (a, x) ∈ n.visited) : n.at? a = some x := by
  induction n using induction_size generalizing a with
  | step n ih =>
      rcases mem_visited h with ⟨rfl, rfl⟩ | ⟨s, c, b, hs, hb, rfl⟩
      · rfl
      · rw [at?_append_of_at? (at?_of_mem_steps hs)]
        exact ih c (sizeOf_walked (mem_walked_of_mem_steps hs)) hb

/-- Two ways that begin with different steps lead to different addresses. -/
theorem disjoint_steps (n : Node) : n.steps.Pairwise fun s t =>
    ∀ u ∈ s.2.visited, ∀ v ∈ t.2.visited, s.1 ++ u.1 ≠ t.1 ++ v.1 := by
  unfold steps passedSteps
  split
  · rename_i t o object field
    -- The walk stops at the private member, and its object is further down.
    have hmember : (expr (.privateMember t o object field)).visited =
        [([], expr (.privateMember t o object field))] := by
      rw [visited_eq]
      rfl
    simp [children, exprChildren, Position.isWalked, hmember]
  · rw [List.append_nil, List.pairwise_map]
    have hindex : n.children.zipIdx.Pairwise fun s t => s.2 ≠ t.2 := by
      apply List.pairwise_map.mp
      show (n.children.zipIdx.map (·.2)).Nodup
      rw [List.zipIdx_map_snd]
      exact List.nodup_range'
    refine (hindex.filter _).imp fun hne u _ v _ heq => hne ?_
    exact (List.cons.inj heq).1

theorem ne_nil_of_mem_steps (h : (a, x) ∈ n.steps) : a ≠ [] := by
  rintro rfl
  have hself : n = x := Option.some.inj (at?_of_mem_steps h)
  exact absurd (sizeOf_walked (mem_walked_of_mem_steps h)) (hself ▸ Nat.lt_irrefl _)

/-- The walk comes to no node twice. -/
theorem nodup_visited (n : Node) : (n.visited.map (·.1)).Nodup := by
  induction n using induction_size with
  | step n ih =>
      rw [visited_eq, List.map_cons, List.nodup_cons, List.map_flatMap, List.nodup_flatMap]
      simp only [List.map_map]
      refine ⟨?_, ?_, ?_⟩
      · intro hmem
        obtain ⟨s, hs, hmem⟩ := List.mem_flatMap.mp hmem
        obtain ⟨v, -, heq⟩ := List.mem_map.mp hmem
        exact ne_nil_of_mem_steps hs (List.append_eq_nil_iff.mp heq).1
      · intro s hs
        have hinner := ih s.2 (sizeOf_walked (mem_walked_of_mem_steps hs))
        have hnodup := hinner.map (f := (s.1 ++ ·)) (List.append_right_injective s.1)
        rwa [List.map_map] at hnodup
      · refine n.disjoint_steps.imp fun hne => ?_
        intro a ha hb
        obtain ⟨u, hu, rfl⟩ := List.mem_map.mp ha
        obtain ⟨v, hv, heq⟩ := List.mem_map.mp hb
        exact hne u hu v hv heq.symm

theorem sites_eq_flatMap_visited (m : Mode) (n : Node) :
    n.sites m = n.visited.flatMap fun v => v.2.ownSites m := by
  induction n using induction_size with
  | step n ih =>
      have hsteps : n.steps.flatMap (fun s => s.2.sites m) =
          n.steps.flatMap fun s => s.2.visited.flatMap fun v => v.2.ownSites m :=
        List.flatMap_congr fun s hs => ih s.2 (sizeOf_walked (mem_walked_of_mem_steps hs))
      rw [sites_eq, visited_eq, List.flatMap_cons, List.flatMap_assoc, ← map_snd_steps,
        List.flatMap_map, hsteps]
      simp only [List.flatMap_map]

end EmitLint.Syntax.Node

namespace EmitLint.Component

open Syntax

/-! ## The node that a site is -/

/-- A site is an object literal or a call of the macro. -/
inductive Site.Is : Site → Node → Prop
  | options {s : Span} {ps : List Property} : Is (.options s ps) (.expr (.object s ps))
  | emitsCall {c f : Span} {o t : Bool} {args : List Element} :
      Is (.emitsCall c (args.isEmpty && t) args) (.expr (.call c o (.name f "defineEmits") t args))

/-- The way to what an argument is without its wrappers. -/
def argumentAddress (i : Nat) : Option Element → Address
  | some (.item e) => i :: 0 :: e.unwrapAt
  | _ => []

/-- From a node that declares a component, the way to the node that is the site. -/
def siteAddress : Node → Address
  | .expr (.call _ _ (.name _ f) _ args) =>
      if f = "defineEmits" then [] else argumentAddress 1 args.head?
  | .expr (.call _ _ _ _ args) => argumentAddress args.length args.getLast?
  | .expr (.new _ _ args) => argumentAddress 1 args.head?
  | .stmt (.exportDefault _ value) => 0 :: value.unwrapAt
  | _ => []

/-- The sites in a node, in the order of the walk, each with its address. -/
def sitesAt (m : Mode) (n : Node) : List (Address × Site) :=
  n.visited.flatMap fun v => (v.2.ownSites m).map fun s => (v.1 ++ siteAddress v.2, s)

variable {m : Mode} {n x : Node} {a b : Address} {s : Site} {t : Span} {ps : List Property}

theorem map_snd_sitesAt (m : Mode) (n : Node) : (sitesAt m n).map (·.2) = n.sites m := by
  rw [n.sites_eq_flatMap_visited, sitesAt, List.map_flatMap]
  simp only [List.map_map, Function.comp_def, List.map_id']

theorem mem_sitesAt : (a, s) ∈ sitesAt m n ↔
    ∃ b x, (b, x) ∈ n.visited ∧ s ∈ x.ownSites m ∧ a = b ++ siteAddress x := by
  simp only [sitesAt, List.mem_flatMap, List.mem_map, Prod.exists, Prod.mk.injEq]
  constructor
  · rintro ⟨b, x, hx, s, hs, rfl, rfl⟩
    exact ⟨b, x, hx, hs, rfl⟩
  · rintro ⟨b, x, hx, hs, rfl⟩
    exact ⟨b, x, hx, s, hs, rfl, rfl⟩

/-! ## What an options object is a part of -/

/-- The node is a call of a function that is not the macro, or a `new`. -/
inductive TakesOptions : Node → Prop
  | call {c : Span} {o t : Bool} {callee : Expr} {args : List Element} :
      (∀ f, callee ≠ .name f "defineEmits") → TakesOptions (.expr (.call c o callee t args))
  | new {c : Span} {callee : Expr} {args : List Element} :
      TakesOptions (.expr (.new c callee args))

/-- An options object is an argument, or it is exported as default. -/
inductive OptionsIn (n : Node) : Address → Prop
  | argument {i : Nat} {e : Element} : TakesOptions n → n.at? [i] = some (.element e) →
      n.Holds [i] (siteAddress n) → OptionsIn n [i]
  | exported {c : Span} {value : Expr} : n = .stmt (.exportDefault c value) →
      n.Holds [] (siteAddress n) → OptionsIn n []

/-- An argument that is an object literal, and the way to it. -/
theorem argument_of_child {i : Nat} {arg : Option Element} {p : Position}
    (hchild : ∀ e, arg = some e → n.children[i]? = some (p, .element e))
    (h : IsOptions arg t ps) : n.at? (argumentAddress i arg) = some (.expr (.object t ps)) ∧
      n.Holds [i] (argumentAddress i arg) ∧ ∃ e, n.at? [i] = some (.element e) := by
  obtain ⟨e, rfl, hobject⟩ := h
  have hitem := hchild _ rfl
  have hat : n.at? [i] = some (.element (.item e)) := by
    rw [Node.at?_cons_of_child hitem, Node.at?_nil]
  refine ⟨?_, ⟨.element (.item e), 0, .part, e, hat, fun _ => Node.noConfusion, rfl, rfl⟩, _, hat⟩
  rw [argumentAddress, Node.at?_cons_of_child hitem, ← hobject, ← Node.at?_unwrapAt e]
  rfl

theorem child_of_head? {callee : Expr} {args : List Element} {e : Element}
    (hn : n.children = (.callee, .expr callee) :: partsAt .part .element args)
    (h : args.head? = some e) : n.children[1]? = some (.part, .element e) := by
  cases args with
  | nil => cases h
  | cons a rest =>
      obtain rfl := Option.some.inj h
      rw [hn]
      rfl

theorem child_of_getLast? {callee : Expr} {args : List Element} {e : Element}
    (hn : n.children = (.callee, .expr callee) :: partsAt .part .element args)
    (h : args.getLast? = some e) : n.children[args.length]? = some (.part, .element e) := by
  obtain ⟨front, rfl⟩ := List.getLast?_eq_some_iff.mp h
  rw [hn, List.length_append, List.length_singleton, List.getElem?_cons_succ, partsAt,
    List.getElem?_map, List.getElem?_concat_length]
  rfl

/-- The way to an options object that is the first argument, or the last. -/
theorem located_of_argument {i : Nat} {arg : Option Element} (htakes : TakesOptions n)
    (haddress : siteAddress n = argumentAddress i arg)
    (hchild : ∀ e, arg = some e → n.children[i]? = some (.part, .element e))
    (h : IsOptions arg t ps) :
    n.at? (siteAddress n) = some (.expr (.object t ps)) ∧ ∃ holder, OptionsIn n holder := by
  obtain ⟨hat, hholds, e, he⟩ := argument_of_child hchild h
  rw [← haddress] at hat hholds
  exact ⟨hat, _, .argument htakes he hholds⟩

theorem siteAddress_of_definer {c f : Span} {o u : Bool} {name : String} {args : List Element}
    (h : name ≠ "defineEmits") :
    siteAddress (.expr (.call c o (.name f name) u args)) = argumentAddress 1 args.head? :=
  if_neg h

theorem located_of_options (h : Declares m n (.options t ps)) :
    n.at? (siteAddress n) = some (.expr (.object t ps)) ∧ ∃ holder, OptionsIn n holder := by
  cases h with
  | @definition c f _ o u name args _ hname hoptions =>
      have hne : name ≠ "defineEmits" := by
        rcases hname with rfl | rfl | rfl <;> decide
      refine located_of_argument (.call fun f heq => hne (Expr.name.inj heq).2)
        (siteAddress_of_definer hne) (fun e => child_of_head? rfl) hoptions
  | registration hreceiver hmethod hoptions =>
      exact located_of_argument (.call fun _ => Expr.noConfusion) rfl
        (fun e => child_of_getLast? rfl) hoptions
  | application hoptions =>
      exact located_of_argument .new rfl (fun e => child_of_head? rfl) hoptions
  | @exported c _ value _ hfile hvalue =>
      have hholds : (Node.stmt (.exportDefault c value)).Holds [] (0 :: value.unwrapAt) :=
        ⟨_, 0, .part, value, rfl, fun _ => Node.noConfusion, rfl, rfl⟩
      refine ⟨?_, [], .exported rfl hholds⟩
      show (Node.expr value).at? value.unwrapAt = _
      rw [Node.at?_unwrapAt, hvalue]

/-- The way leads to the node that is the site. -/
theorem exists_is_of_declares (h : Declares m n s) :
    ∃ x, n.at? (siteAddress n) = some x ∧ s.Is x := by
  cases s with
  | options t ps => exact ⟨_, (located_of_options h).1, .options⟩
  | emitsCall c u args =>
      cases h with
      | emitsCall hkind => exact ⟨_, rfl, .emitsCall⟩

theorem exists_is_of_mem_sitesAt (h : (a, s) ∈ sitesAt m n) : ∃ x, n.at? a = some x ∧ s.Is x := by
  obtain ⟨b, x, hx, hs, rfl⟩ := mem_sitesAt.mp h
  rw [Node.at?_append_of_at? (Node.at?_of_mem_visited hx)]
  exact exists_is_of_declares (mem_ownSites.mp hs)

/-! ## Different sites are different nodes -/

variable {root y : Node} {p q : Address} {u : Site}

theorem OptionsIn.holds (h : OptionsIn n p) : n.Holds p (siteAddress n) := by
  cases h with
  | argument _ _ hholds => exact hholds
  | exported _ hholds => exact hholds

/-- What an options object is a part of tells which node declares it. -/
theorem address_of_optionsIn (hx : root.at? a = some x) (hy : root.at? b = some y)
    (hp : OptionsIn x p) (hq : OptionsIn y q) (h : a ++ siteAddress x = b ++ siteAddress y) :
    a = b := by
  have hxp : root.Holds (a ++ p) (a ++ siteAddress x) := hp.holds.append hx
  have hyq : root.Holds (b ++ q) (b ++ siteAddress y) := hq.holds.append hy
  have hholder : a ++ p = b ++ q := Node.holder_unique (h ▸ hxp) hyq
  have hat : x.at? p = y.at? q := by
    rw [← Node.at?_append_of_at? hx, ← Node.at?_append_of_at? hy, hholder]
  cases hp with
  | argument _ hi _ =>
      cases hq with
      | argument => exact List.append_inj_left' hholder rfl
      | exported hexport _ =>
          rw [hi, hexport] at hat
          cases hat
  | exported hexport _ =>
      cases hq with
      | argument _ hj _ =>
          rw [hj, hexport] at hat
          cases hat
      | exported => simpa using hholder

theorem siteAddress_of_emitsCall {c : Span} {o : Bool} {args : List Element}
    (h : Declares m n (.emitsCall c o args)) : siteAddress n = [] := by
  cases h with
  | emitsCall hkind => rfl

/-- Nodes that declare the same node are at the same address. -/
theorem address_of_declares (hx : root.at? a = some x) (hy : root.at? b = some y)
    (hs : Declares m x s) (hu : Declares m y u) (h : a ++ siteAddress x = b ++ siteAddress y) :
    a = b := by
  obtain ⟨z, hz, hsz⟩ := exists_is_of_declares hs
  obtain ⟨z', hz', huz⟩ := exists_is_of_declares hu
  have hsame : z = z' := by
    rw [← Node.at?_append_of_at? hx, h, Node.at?_append_of_at? hy, hz'] at hz
    exact (Option.some.inj hz).symm
  subst hsame
  cases hsz with
  | options =>
      cases huz with
      | options =>
          obtain ⟨-, p, hp⟩ := located_of_options hs
          obtain ⟨-, q, hq⟩ := located_of_options hu
          exact address_of_optionsIn hx hy hp hq h
  | emitsCall =>
      cases huz with
      | emitsCall =>
          rw [siteAddress_of_emitsCall hs, siteAddress_of_emitsCall hu] at h
          simpa using h

/-- Different sites of a tree are at different addresses. -/
theorem nodup_sitesAt (m : Mode) (n : Node) : ((sitesAt m n).map (·.1)).Nodup := by
  have hvisited := n.nodup_visited
  rw [List.Nodup, List.pairwise_map] at hvisited
  rw [sitesAt, List.map_flatMap, List.nodup_flatMap]
  simp only [List.map_map, Function.comp_def]
  constructor
  · intro v _
    rw [List.Nodup, List.pairwise_map]
    exact v.2.pairwise_ownSites _ m
  · refine hvisited.imp_of_mem fun hv hw hne => ?_
    intro c hc hc'
    obtain ⟨s, hs, rfl⟩ := List.mem_map.mp hc
    obtain ⟨u, hu, heq⟩ := List.mem_map.mp hc'
    exact hne (address_of_declares (Node.at?_of_mem_visited hv) (Node.at?_of_mem_visited hw)
      (mem_ownSites.mp hs) (mem_ownSites.mp hu) heq.symm)

end EmitLint.Component
