/-
# No declaration is reported twice

One object can stand under several forms at once: exported by a component file
as well as handed to a function in a wrapper, or as a component among the
options of another one.  Main statement: `one_report_for_each_node`.  In a tree
whose nodes can be told apart by their kind and their span, no node is two
sites, no node declares emits for two sites, and the reports of a run belong to
different nodes.
-/
import EmitLint.Proofs.Component.Ownership
import EmitLint.Proofs.Rule.Reports
import Mathlib.Data.List.Flatten
import Mathlib.Data.List.Nodup

namespace EmitLint.EmitValidator

open Component Syntax

variable {m : Mode} {program : Program}

/-- Different nodes of one kind stand at different places. -/
def NodesApart (program : Program) : Prop := program.root.marks.Nodup

/-- The nodes that declare the emits of a program, site after site. -/
def declaringNodes (m : Mode) (program : Program) : List Node :=
  (sites m program).flatMap Site.declaring

/-! ## Claims of different sites -/

theorem nodup_claims (h : NodesApart program) (m : Mode) :
    ((sites m program).flatMap Site.marks).Nodup := by
  obtain ⟨l, hperm, hsub⟩ := marks_subperm m program.root
  exact hperm.nodup_iff.mp (hsub.nodup h)

theorem nodup_siteMarks (h : NodesApart program) (m : Mode) :
    ((sites m program).map Site.mark).Nodup := by
  refine (nodup_claims h m).sublist ?_
  rw [List.map_eq_flatMap]
  refine List.Sublist.flatMap_right _ fun s _ => ?_
  exact List.singleton_sublist.mpr List.mem_cons_self

theorem nodup_declaringMarks (h : NodesApart program) (m : Mode) :
    ((declaringNodes m program).filterMap Node.mark?).Nodup := by
  refine (nodup_claims h m).sublist ?_
  rw [declaringNodes, List.filterMap_flatMap]
  refine List.Sublist.flatMap_right _ fun s _ => ?_
  refine List.Sublist.trans ?_ (List.sublist_cons_self _ _)
  rw [List.filterMap_eq_flatMap_toList]
  exact List.Sublist.flatMap_right _ fun n _ => n.mark_sublist_declaredMarks

/-- A site is a node of the tree. -/
theorem exists_node_of_site {s : Site} (hs : s ∈ sites m program) :
    ∃ x ∈ program.root.nodes, x.mark? = some s.mark := by
  have hmem : s.mark ∈ (sites m program).flatMap Site.marks :=
    List.mem_flatMap.mpr ⟨s, hs, List.mem_cons_self⟩
  exact List.mem_filterMap.mp ((marks_subperm m program.root).subset hmem)

/-! ## Reports of different nodes -/

/-- The report on a node, if it declares an emit and there is anything to say. -/
def nodeReport? (c : Context) (x : Node) : Option Diagnostic := (nodeEmit? x).bind (diagnostic? c)

theorem emitsOf_eq (m : Mode) (program : Program) :
    emitsOf m program = (declaringNodes m program).filterMap nodeEmit? := by
  rw [emitsOf, declaringNodes, List.filterMap_flatMap]
  exact List.flatMap_congr fun s _ => emits_eq s

theorem reports_emitsOf (c : Context) (m : Mode) (program : Program) :
    reports c (emitsOf m program) = (declaringNodes m program).filterMap (nodeReport? c) := by
  rw [reports, emitsOf_eq, List.filterMap_filterMap]
  rfl

theorem mark?_of_nodeReport? {c : Context} {x : Node} {d : Diagnostic}
    (h : nodeReport? c x = some d) : ∃ k, x.mark? = some k := by
  obtain ⟨e, he, -⟩ := Option.bind_eq_some_iff.mp h
  cases x with
  | property p => exact ⟨p.mark, rfl⟩
  | element a =>
      cases a with
      | item e => exact ⟨_, rfl⟩
      | spread s e => exact ⟨_, rfl⟩
      | hole s => cases he
  | _ => cases he

/-- What a function yields on a list it yields on some of the members, one by one. -/
theorem exists_pairs {α β : Type} (f : α → Option β) (l : List α) :
    ∃ pairs : List (α × β), l.filterMap f = pairs.map (·.2) ∧ (pairs.map (·.1)).Sublist l ∧
      ∀ p ∈ pairs, f p.1 = some p.2 := by
  induction l with
  | nil => exact ⟨[], rfl, List.Sublist.refl _, fun _ hp => absurd hp List.not_mem_nil⟩
  | cons a l ih =>
      obtain ⟨pairs, hmap, hsub, hpairs⟩ := ih
      cases ha : f a with
      | none => exact ⟨pairs, by rw [List.filterMap_cons_none ha, hmap], hsub.cons a, hpairs⟩
      | some b =>
          refine ⟨(a, b) :: pairs, ?_, hsub.cons_cons a, ?_⟩
          · rw [List.filterMap_cons_some ha, hmap, List.map_cons]
          · exact List.forall_mem_cons.mpr ⟨ha, hpairs⟩

theorem map_eq_map_some {α β : Type} {f : α → Option β} {l : List α}
    (h : ∀ a ∈ l, ∃ b, f a = some b) : l.map f = (l.filterMap f).map some := by
  induction l with
  | nil => rfl
  | cons a l ih =>
      obtain ⟨⟨b, hb⟩, hl⟩ := List.forall_mem_cons.mp h
      rw [List.map_cons, List.filterMap_cons_some hb, List.map_cons, hb, ih hl]

/-- In a tree whose nodes can be told apart, the sites are different nodes, the
elements and properties that declare emits are different nodes, for one site as
for all of them, and a run of the rule appends one report at most for each. -/
theorem one_report_for_each_node (h : NodesApart program) (c : Context) :
    (((sites c.mode program).map Site.mark).Nodup ∧
      ∀ s ∈ sites c.mode program, ∃ x ∈ program.root.nodes, x.mark? = some s.mark) ∧
    (((sites c.mode program).flatMap fun s => s.declaring.filterMap Node.mark?).Nodup ∧
      ∀ s ∈ sites c.mode program, s.emits = s.declaring.filterMap nodeEmit?) ∧
    ∃ reported : List (Node × Diagnostic),
      (check c program).diagnostics = c.diagnostics ++ reported.map (·.2) ∧
      (reported.map (·.1)).Sublist (declaringNodes c.mode program) ∧
      (reported.map fun r => r.1.mark?).Nodup ∧
      ∀ r ∈ reported, ∃ e, nodeEmit? r.1 = some e ∧ diagnostic? c e = some r.2 := by
  refine ⟨⟨nodup_siteMarks h c.mode, fun s => exists_node_of_site⟩, ⟨?_, fun s _ => emits_eq s⟩, ?_⟩
  · rw [← List.filterMap_flatMap]
    exact nodup_declaringMarks h c.mode
  · by_cases hmentions : mentionsEmits c.source = true
    · obtain ⟨pairs, hmap, hsub, hpairs⟩ :=
        exists_pairs (nodeReport? c) (declaringNodes c.mode program)
      refine ⟨pairs, ?_, hsub, ?_, fun r hr => Option.bind_eq_some_iff.mp (hpairs r hr)⟩
      · rw [check_diagnostics program hmentions, reports_emitsOf, hmap]
      · have hnodup : ((pairs.map (·.1)).filterMap Node.mark?).Nodup :=
          (nodup_declaringMarks h c.mode).sublist (hsub.filterMap _)
        have hmarked : ∀ r ∈ pairs, ∃ k, r.1.mark? = some k :=
          fun r hr => mark?_of_nodeReport? (hpairs r hr)
        rw [List.filterMap_map] at hnodup
        rw [map_eq_map_some hmarked]
        exact hnodup.map fun _ _ => Option.some.inj
    · refine ⟨[], ?_, List.nil_sublist _, List.nodup_nil, fun r hr => absurd hr List.not_mem_nil⟩
      rw [check_of_not_mentions program hmentions]
      exact (List.append_nil _).symm

/-! ## An example -/

/-- The script `createApp({emits:['a'],x:createApp({emits:['b']})})`. -/
def nestedScript : Program :=
  ⟨[.expression ⟨0, 51⟩ (.call ⟨0, 51⟩ false (.name ⟨0, 9⟩ "createApp") false
    [.item (.object ⟨10, 50⟩
      [.entry ⟨11, 22⟩ (.name ⟨11, 16⟩ "emits") (.array ⟨17, 22⟩ [.item (.string ⟨18, 21⟩ "a")]),
       .entry ⟨23, 49⟩ (.name ⟨23, 24⟩ "x")
        (.call ⟨25, 49⟩ false (.name ⟨25, 34⟩ "createApp") false
          [.item (.object ⟨35, 48⟩
            [.entry ⟨36, 47⟩ (.name ⟨36, 41⟩ "emits")
              (.array ⟨42, 47⟩ [.item (.string ⟨43, 46⟩ "b")])])])])])]⟩

def nestedContext : Context :=
  .new "createApp(\x7bemits:['a'],x:createApp(\x7bemits:['b']\x7d)\x7d)" "A.vue" .plain

theorem nodesApart_nestedScript : NodesApart nestedScript := by
  simp [NodesApart, Node.marks, Program.root, nestedScript, Node.nodes_script, Node.nodes_stmt,
    Node.nodes_expr, Node.nodes_element, Node.nodes_property, Node.nodes_key, stmtChildren,
    exprChildren, elementChildren, propertyChildren, keyChildren, partsAt, List.filterMap_cons,
    Node.mark?, Element.mark?, Property.mark, Expr.mark, Expr.span, Expr.ctorIdx]

/-- The component inside is reported on as well, and by itself. -/
theorem one_report_for_each_node_nested :
    NodesApart nestedScript ∧ ∃ reported : List (Node × Diagnostic),
      (check nestedContext nestedScript).diagnostics = reported.map (·.2) ∧
      (reported.map fun r => r.1.mark?).Nodup ∧
      reported.map (·.2.span) = [⟨18, 21⟩, ⟨43, 46⟩] := by
  refine ⟨nodesApart_nestedScript, ?_⟩
  obtain ⟨-, -, reported, hcheck, -, hnodup, -⟩ :=
    one_report_for_each_node nodesApart_nestedScript nestedContext
  have hspans : (check nestedContext nestedScript).diagnostics.map Diagnostic.span =
      [⟨18, 21⟩, ⟨43, 46⟩] := by decide
  refine ⟨reported, hcheck, hnodup, ?_⟩
  rw [hcheck, nestedContext, Context.new, List.nil_append, List.map_map] at hspans
  exact hspans

end EmitLint.EmitValidator
