/-
# Reports stand at nodes

A report, and every edit that it suggests, has its span from a node of the
program: from the element or the property that declares the emit, and from the
`null` that is to be replaced.  Main statement: `placed_of_mem_reports`.  What
holds of the spans of a tree so holds of the spans of all reports on it.
-/
import EmitLint.Proofs.Component.Forms
import EmitLint.Proofs.Rule.Nulls
import EmitLint.Proofs.Rule.Reports

namespace EmitLint.Syntax

/-- Where a node stands, if the tree keeps it. -/
def Node.span? : Node → Option Span
  | expr e => some e.span
  | element a => some a.span
  | property p => some p.span
  | stmt s => some s.span
  | _ => none

end EmitLint.Syntax

namespace EmitLint

/-- What could be done about a report, asked or unasked. -/
def Diagnostic.remedies (d : Diagnostic) : List Fix := d.fix.toList ++ d.suggestions

/-- All spans of a report: its own, and those of its edits. -/
def Diagnostic.spans (d : Diagnostic) : List Span :=
  d.span :: d.remedies.flatMap fun f => f.edits.map (·.span)

end EmitLint

namespace EmitLint.EmitValidator

open Component Syntax

variable {m : Mode} {n : Node}

/-- The parts of a site that declare are parts of the tree. -/
def PartsIn (n : Node) : Site → Prop
  | .options _ ps => ∀ p ∈ ps, Node.property p ∈ n.nodes
  | .emitsCall _ _ args => ∀ a ∈ args, Node.element a ∈ n.nodes

/-- Some node of the tree stands at this span. -/
def Stands (n : Node) (s : Span) : Prop := ∃ x ∈ n.nodes, x.span? = some s

theorem properties_of_unwrap {e : Expr} {s : Span} {ps : List Property}
    (he : Node.expr e ∈ n.nodes) (hobject : e.unwrap = .object s ps) :
    PartsIn n (.options s ps) := by
  intro p hp
  have hunwrap : Node.expr (.object s ps) ∈ n.nodes :=
    Node.mem_nodes_trans he (hobject ▸ e.unwrap_mem_nodes)
  refine Node.mem_nodes_trans hunwrap ?_
  exact Node.child_mem_nodes (mem_partsAt.mpr ⟨p, hp, rfl⟩)

theorem properties_of_isOptions {a : Option Element} {args : List Element} {s : Span}
    {ps : List Property} (hargs : ∀ a ∈ args, Node.element a ∈ n.nodes) (ha : ∀ b ∈ a, b ∈ args)
    (h : IsOptions a s ps) : PartsIn n (.options s ps) := by
  obtain ⟨e, rfl, hobject⟩ := h
  refine properties_of_unwrap (Node.mem_nodes_trans (hargs _ (ha _ rfl)) ?_) hobject
  exact Node.child_mem_nodes List.mem_cons_self

theorem partsIn_of_declares {s : Site} (h : Declares m n s) : PartsIn n s := by
  have hcall : ∀ {c o callee t args}, n = .expr (.call c o callee t args) →
      ∀ a ∈ args, Node.element a ∈ n.nodes := by
    rintro c o callee t args rfl a ha
    exact Node.child_mem_nodes (List.mem_cons_of_mem _ (mem_partsAt.mpr ⟨a, ha, rfl⟩))
  have hnew : ∀ {c callee args}, n = .expr (.new c callee args) →
      ∀ a ∈ args, Node.element a ∈ n.nodes := by
    rintro c callee args rfl a ha
    exact Node.child_mem_nodes (List.mem_cons_of_mem _ (mem_partsAt.mpr ⟨a, ha, rfl⟩))
  cases h with
  | definition _ hoptions =>
      exact properties_of_isOptions (hcall rfl) (fun _ => List.mem_of_mem_head?) hoptions
  | registration _ _ hoptions =>
      exact properties_of_isOptions (hcall rfl) (fun _ => List.mem_of_mem_getLast?) hoptions
  | application hoptions =>
      exact properties_of_isOptions (hnew rfl) (fun _ => List.mem_of_mem_head?) hoptions
  | emitsCall _ => exact hcall rfl
  | exported _ hvalue =>
      refine properties_of_unwrap ?_ hvalue
      exact Node.child_mem_nodes List.mem_cons_self

/-- Sites are in the tree in which they are found. -/
theorem partsIn_of_mem_sites {s : Site} (h : s ∈ n.sites m) : PartsIn n s := by
  obtain ⟨place, hplace, -, hs⟩ := Node.mem_sites.mp h
  have hx : place.2 ∈ n.nodes := List.mem_map.mpr ⟨place, hplace, rfl⟩
  have hparts := partsIn_of_declares (mem_ownSites.mp hs)
  cases s with
  | options s ps => exact fun p hp => Node.mem_nodes_trans hx (hparts p hp)
  | emitsCall s o args => exact fun a ha => Node.mem_nodes_trans hx (hparts a ha)

theorem mem_nodes_of_definition? {s : Site} {v : Expr} (hparts : PartsIn n s)
    (h : s.definition? = some v) : Node.expr v ∈ n.nodes := by
  cases s with
  | options s ps =>
      obtain ⟨p, hp, hv⟩ := List.exists_of_findSome?_eq_some h
      refine Node.mem_nodes_trans (hparts p hp) ?_
      cases p with
      | entry u key value =>
          obtain ⟨-, rfl⟩ := emitsValue?_entry_eq_some.mp hv
          exact Node.child_mem_nodes (List.mem_cons_of_mem _ List.mem_cons_self)
      | spread u value => cases hv
  | emitsCall s o args =>
      cases o with
      | true => cases h
      | false =>
          cases args with
          | nil => cases h
          | cons a args =>
              cases a with
              | item e =>
                  obtain rfl : e = v := Option.some.inj h
                  refine Node.mem_nodes_trans (hparts _ List.mem_cons_self) ?_
                  exact Node.child_mem_nodes List.mem_cons_self
              | spread u e => cases h
              | hole u => cases h

theorem elementEmit?_span {a : Element} {e : Emit} (h : elementEmit? a = some e) :
    e.span = a.span := by
  unfold elementEmit? at h
  split at h
  · cases h
  all_goals
    obtain rfl := Option.some.inj h
    rfl

theorem propertyEmit_span (p : Property) : (propertyEmit p).span = p.span := by
  cases p <;> rfl

/-- Each emit of a definition is declared by an element or a property in it. -/
theorem declared_of_definition {v : Expr} {e : Emit} (hv : Node.expr v ∈ n.nodes)
    (he : e ∈ definitionEmits v) :
    (∃ a, Node.element a ∈ n.nodes ∧ elementEmit? a = some e) ∨
      ∃ p, Node.property p ∈ n.nodes ∧ propertyEmit p = e := by
  have hunwrap : Node.expr v.unwrap ∈ n.nodes := Node.mem_nodes_trans hv v.unwrap_mem_nodes
  unfold definitionEmits at he
  split at he
  · rename_i s els harray
    obtain ⟨a, ha, hae⟩ := List.mem_filterMap.mp he
    refine .inl ⟨a, Node.mem_nodes_trans (harray ▸ hunwrap) ?_, hae⟩
    exact Node.child_mem_nodes (mem_partsAt.mpr ⟨a, ha, rfl⟩)
  · rename_i s ps hobject
    obtain ⟨p, hp, rfl⟩ := List.mem_map.mp he
    refine .inr ⟨p, Node.mem_nodes_trans (hobject ▸ hunwrap) ?_, rfl⟩
    exact Node.child_mem_nodes (mem_partsAt.mpr ⟨p, hp, rfl⟩)
  · exact absurd he List.not_mem_nil

/-- A declaration is that of an element or a property of the tree. -/
theorem declared_of_mem_emitsOf {program : Program} {e : Emit} (h : e ∈ emitsOf m program) :
    (∃ a, Node.element a ∈ program.root.nodes ∧ elementEmit? a = some e) ∨
      ∃ p, Node.property p ∈ program.root.nodes ∧ propertyEmit p = e := by
  obtain ⟨s, hs, he⟩ := List.mem_flatMap.mp h
  have hparts : PartsIn program.root s := partsIn_of_mem_sites hs
  unfold Site.emits at he
  split at he
  · rename_i v hv
    exact declared_of_definition (mem_nodes_of_definition? hparts hv) he
  · exact absurd he List.not_mem_nil

/-- A declaration stands at a node of the tree. -/
theorem stands_of_mem_emitsOf {program : Program} {e : Emit} (h : e ∈ emitsOf m program) :
    Stands program.root e.span := by
  rcases declared_of_mem_emitsOf h with ⟨a, ha, hae⟩ | ⟨p, hp, rfl⟩
  · exact ⟨.element a, ha, congrArg some (elementEmit?_span hae).symm⟩
  · exact ⟨.property p, hp, congrArg some (propertyEmit_span p).symm⟩

theorem stands_of_mem_nullSpans {t : Span} (h : t ∈ nullSpans n) : Stands n t := by
  obtain ⟨x, hx, ht⟩ := List.mem_filterMap.mp h
  refine ⟨x, hx, ?_⟩
  unfold null? at ht
  split at ht
  · exact ht
  · cases ht

/-- Every span of a report is that of a node of the program. -/
theorem placed_of_mem_reports {c : Context} {program : Program} {d : Diagnostic}
    (h : d ∈ reports c (emitsOf m program)) : ∀ s ∈ d.spans, Stands program.root s := by
  obtain ⟨e, he, hd⟩ := mem_reports.mp h
  rcases diagnostic?_eq_some hd with ⟨-, rfl⟩ | ⟨t, hclass, rfl⟩
  · intro s hs
    obtain rfl := List.mem_singleton.mp hs
    exact stands_of_mem_emitsOf he
  · have ht : t ∈ skippedSpans (emitsOf m program) :=
      List.mem_filterMap.mpr ⟨e, he, by rw [skippedSpan?, hclass]⟩
    rintro s (_ | ⟨_, hs⟩)
    · exact stands_of_mem_emitsOf he
    · obtain rfl := List.mem_singleton.mp hs
      exact stands_of_mem_nullSpans (mem_nullSpans ht)

end EmitLint.EmitValidator
