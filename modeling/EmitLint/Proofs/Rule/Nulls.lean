/-
# Every `null` is reported once at most

A `null` that is reported is one that a declaration has as its value, and so it
is claimed by the site of that declaration.  Main statement: `count_skips_le`, a
`null` is not reported more often than it stands in the program.  In a program
whose `null`s stand at different places, the spans of a suggestion tell which
report made it.
-/
import EmitLint.Proofs.Component.Ownership
import EmitLint.Rule.EmitValidator
import Mathlib.Data.List.Flatten
import Mathlib.Data.List.Nodup

namespace EmitLint.EmitValidator

open Component Syntax

/-! ## The two counts -/

/-- Where a `null` stands. -/
def null? : Node → Option Span
  | .expr (.null s) => some s
  | _ => none

/-- Where the `null`s of a tree stand. -/
def nullSpans (n : Node) : List Span := n.nodes.filterMap null?

/-- The `null` that a declaration skips its validation with. -/
def skippedSpan? (e : Emit) : Option Span :=
  match classify e with
  | .skipped s => some s
  | _ => none

/-- The `null`s that are reported among these declarations. -/
def skippedSpans (es : List Emit) : List Span := es.filterMap skippedSpan?

/-- Those among the declarations of these sites. -/
def skips (ss : List Site) : List Span := skippedSpans (ss.flatMap Site.emits)

/-! ## A `null` that is reported is claimed -/

theorem skippedSpan?_eq_some {a : Emit} {s : Span} :
    skippedSpan? a = some s ↔ a.value = some (.null s) := by
  unfold skippedSpan? classify
  split
  · rename_i heq
    split at heq
    · split at heq <;> cases heq
    · cases heq
    · cases heq
    · rename_i u hvalue
      obtain rfl := Validation.skipped.inj heq
      rw [hvalue]
      simp
    · cases heq
  · rename_i hnot
    constructor
    · exact fun h => nomatch h
    · intro hvalue
      exact absurd (by rw [hvalue]) (hnot s)

/-- An element of an array has no value to skip with. -/
theorem skippedSpan?_elementEmit {a : Element} {d : Emit} (h : elementEmit? a = some d) :
    skippedSpan? d = none := by
  have hvalue : d.value = none := by
    unfold elementEmit? at h
    split at h
    · cases h
    all_goals
      obtain rfl := Option.some.inj h
      rfl
  rw [skippedSpan?, classify, hvalue]

theorem emitsValue?_entry_eq_some {s : Span} {key : Key} {v value : Expr} :
    emitsValue? (.entry s key v) = some value ↔ keyName? key = some "emits" ∧ v = value := by
  rw [emitsValue?, Option.ite_none_right_eq_some, Option.some.injEq]

theorem skippedSpan?_propertyEmit (p : Property) : skippedSpan? (propertyEmit p) = p.null? := by
  ext t
  rw [skippedSpan?_eq_some]
  cases p with
  | spread s value => simp [propertyEmit, Property.null?]
  | entry s key value =>
      rw [propertyEmit, Option.some.injEq, Property.null?]
      split
      · rename_i u hu
        rw [hu]
        simp
      · rename_i hne
        simp only [reduceCtorEq, iff_false]
        exact hne t

/-- A declaring node claims the `null` that it is reported with. -/
theorem skipped_sublist_declaredMarks (n : Node) :
    (((nodeEmit? n).bind skippedSpan?).toList.map nullMark).Sublist n.declaredMarks := by
  cases n with
  | element a =>
      have hnone : (elementEmit? a).bind skippedSpan? = none := by
        rw [Option.bind_eq_none_iff]
        exact fun e => skippedSpan?_elementEmit
      rw [nodeEmit?, hnone]
      exact List.nil_sublist _
  | property p =>
      rw [nodeEmit?, Option.bind_some, skippedSpan?_propertyEmit]
      exact List.sublist_cons_self _ _
  | _ => exact List.nil_sublist _

theorem skippedSpans_sublist_marks (s : Site) :
    ((skippedSpans s.emits).map nullMark).Sublist s.marks := by
  rw [emits_eq, skippedSpans, List.filterMap_filterMap, List.filterMap_eq_flatMap_toList,
    List.map_flatMap]
  refine List.Sublist.trans ?_ (List.sublist_cons_self _ _)
  exact List.Sublist.flatMap_right _ fun n _ => skipped_sublist_declaredMarks n

theorem skips_sublist_marks (ss : List Site) :
    ((skips ss).map nullMark).Sublist (ss.flatMap Site.marks) := by
  have hskips : skips ss = ss.flatMap fun s => skippedSpans s.emits := by
    rw [skips, skippedSpans, List.filterMap_flatMap]
    rfl
  rw [hskips, List.map_flatMap]
  exact List.Sublist.flatMap_right _ fun s _ => skippedSpans_sublist_marks s

theorem mark?_eq_nullMark {n : Node} {t : Span} :
    n.mark? = some (nullMark t) ↔ null? n = some t := by
  cases n with
  | expr e => cases e <;> simp [Node.mark?, null?, nullMark, Expr.mark, Expr.span, Expr.ctorIdx]
  | element a => cases a <;> simp [Node.mark?, null?, nullMark, Expr.mark, Element.mark?]
  | property p => cases p <;> simp [Node.mark?, null?, nullMark, Expr.mark, Property.mark]
  | _ => simp [Node.mark?, null?]

theorem count_marks_nullMark (n : Node) (t : Span) :
    n.marks.count (nullMark t) = (nullSpans n).count t := by
  rw [Node.marks, nullSpans, List.count_filterMap, List.count_filterMap]
  refine List.countP_congr fun x _ => ?_
  rw [beq_iff_eq, beq_iff_eq, mark?_eq_nullMark]

/-- A `null` is not reported more often than it stands in the tree. -/
theorem count_skips_le (m : Mode) (t : Span) (n : Node) :
    (skips (n.sites m)).count t ≤ (nullSpans n).count t := by
  calc (skips (n.sites m)).count t
      ≤ ((skips (n.sites m)).map nullMark).count (nullMark t) := List.count_le_count_map
    _ ≤ ((n.sites m).flatMap Site.marks).count (nullMark t) :=
        (skips_sublist_marks _).count_le _
    _ ≤ n.marks.count (nullMark t) := (marks_subperm m n).count_le _
    _ = (nullSpans n).count t := count_marks_nullMark n t

theorem mem_nullSpans {m : Mode} {program : Program} {t : Span}
    (h : t ∈ skippedSpans (emitsOf m program)) : t ∈ nullSpans program.root := by
  have hle : (skippedSpans (emitsOf m program)).count t ≤ (nullSpans program.root).count t :=
    count_skips_le m t program.root
  exact List.count_pos_iff.mp (Nat.lt_of_lt_of_le (List.count_pos_iff.mpr h) hle)

/-- No two `null`s of a program stand in one place. -/
def NullsApart (program : Program) : Prop := (nullSpans program.root).Nodup

theorem nodup_skippedSpans {program : Program} (h : NullsApart program) (m : Mode) :
    (skippedSpans (emitsOf m program)).Nodup := by
  rw [List.nodup_iff_count_le_one]
  intro t
  have hcount : (skippedSpans (emitsOf m program)).count t ≤ (nullSpans program.root).count t :=
    count_skips_le m t program.root
  have hone := List.nodup_iff_count_le_one.mp h t
  omega

end EmitLint.EmitValidator
