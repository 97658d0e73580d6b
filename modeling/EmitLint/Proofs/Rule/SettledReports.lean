/-
# The reports on a settled program

What a program declares stays the same when one of its `null`s is settled, but
for the judgement on the declarations that skip with this `null`
(`settled_emits`).  So the reports stay the same as well, but for those that
suggest to settle it (`settled_reports`).
-/
import EmitLint.Proofs.Rule.Nulls
import EmitLint.Proofs.Rule.Reports
import EmitLint.Proofs.Rule.Settled

namespace EmitLint.EmitValidator

open Component Syntax

/-! ## Settled declarations -/

/-- How the judgement on a declaration may change. -/
inductive Judged (t : Span) : Validation → Validation → Prop
  | hasValidator : Judged t .hasValidator .hasValidator
  | missing : Judged t .missing .missing
  | skipped {s s' : Span} : s ≠ t → Judged t (.skipped s) (.skipped s')
  | settled : Judged t (.skipped t) .hasValidator

structure EmitSettled (t : Span) (a a' : Emit) : Prop where
  name : a.name = a'.name
  anchor : a.anchor = a'.anchor
  judged : Judged t (classify a) (classify a')

section
variable {t : Span} {e e' : Expr}

theorem judged_value {n n' k k' : Option String} {s s' : Span} (hbare : e.IsBare)
    (hbare' : e'.IsBare) (h : Settled t (.expr e) (.expr e')) :
    Judged t (classify ⟨n, k, some e, s⟩) (classify ⟨n', k', some e', s'⟩) := by
  rcases settled_cases h with ⟨hnull, u, r, body, a, harrow, -⟩ | ⟨hnot, hagree⟩
  · rw [Expr.unwrap_of_isBare hbare] at hnull
    rw [Expr.unwrap_of_isBare hbare'] at harrow
    subst hnull harrow
    exact .settled
  · have hverdict : SameVerdict (classify ⟨n, k, some e, s⟩) (classify ⟨n', k', some e', s'⟩) :=
      sameVerdict_value (Node.expr.inj hagree.head)
    have hskipped : ∀ u, classify ⟨n, k, some e, s⟩ = .skipped u → u ≠ t := by
      rintro u hu rfl
      have hvalue := skippedSpan?_eq_some.mp (by rw [skippedSpan?, hu])
      obtain rfl : e = .null u := Option.some.inj hvalue
      exact hnot rfl
    generalize classify ⟨n, k, some e, s⟩ = v at hverdict hskipped
    generalize classify ⟨n', k', some e', s'⟩ = v' at hverdict
    cases hverdict with
    | hasValidator => exact .hasValidator
    | missing => exact .missing
    | skipped => exact .skipped (hskipped _ rfl)

theorem settled_propertyEmit {p p' : Property} (h : Settled t (.property p) (.property p')) :
    EmitSettled t (propertyEmit p) (propertyEmit p') := by
  cases (settled_likeness t).property h with
  | entry hkey hvalue =>
      exact ⟨hkey, rfl, judged_value (Expr.unwrap_isBare _) (Expr.unwrap_isBare _)
        (settled_unwrap hvalue)⟩
  | spread => exact ⟨rfl, rfl, .missing⟩

theorem settled_elementEmit {a a' : Element} (h : Settled t (.element a) (.element a')) :
    Option.Rel (EmitSettled t) (elementEmit? a) (elementEmit? a') := by
  cases (settled_likeness t).element h with
  | item he =>
      rw [elementEmit?_item, elementEmit?_item]
      refine .some ⟨?_, settled_name? he, .missing⟩
      exact settled_congr declaredName?_exprHead (fun _ => rfl) (fun _ _ => rfl)
        (fun _ _ _ => rfl) he
  | spread => exact .some ⟨rfl, rfl, .missing⟩
  | hole => exact .none

theorem settled_definitionEmits (h : Settled t (.expr e) (.expr e')) :
    List.Forall₂ (EmitSettled t) (definitionEmits e) (definitionEmits e') :=
  (settled_likeness t).definitionEmits h (fun _ _ _ _ _ ha => settled_elementEmit ha.2)
    fun _ _ => settled_propertyEmit

theorem settled_siteEmits {s s' : Site} (h : SiteRel (Settled t) s s') :
    List.Forall₂ (EmitSettled t) s.emits s'.emits :=
  (settled_likeness t).siteEmits h fun _ _ _ => settled_definitionEmits

/-- A settled program declares what the program declares, in the same order. -/
theorem settled_emits (m : Mode) {program program' : Program}
    (h : Settled t program.root program'.root) :
    List.Forall₂ (EmitSettled t) (emitsOf m program) (emitsOf m program') :=
  List.rel_flatMap (settled_sites m h) fun _ _ => settled_siteEmits

end

/-! ## Settled reports -/

/-- The report does not suggest to settle the `null` at `t`. -/
def Spares (t : Span) (d : Diagnostic) : Prop := d.suggestions ≠ [suggestion t]

instance (t : Span) : DecidablePred (Spares t) :=
  fun d => inferInstanceAs (Decidable (d.suggestions ≠ [suggestion t]))

theorem suggestion_injective {s t : Span} (h : suggestion s = suggestion t) : s = t :=
  (TextEdit.mk.inj (List.cons.inj (Fix.mk.inj h).2).1).1

section
variable {t : Span} {c c' : Context} {e e' : Emit}

theorem settled_displayName (h : EmitSettled t e e') : e.displayName = e'.displayName := by
  rw [Emit.displayName, Emit.displayName, h.name, h.anchor]

/-- One report goes if it suggests to settle this `null`, and stays otherwise. -/
theorem settled_diagnostic? (hseverity : c.severity = c'.severity) (h : EmitSettled t e e') :
    (diagnostic? c' e').toList.map gist =
      ((diagnostic? c e).toList.filter fun d => Spares t d).map gist := by
  have hname := settled_displayName h
  have hjudged := h.judged
  unfold diagnostic?
  cases hclass : classify e <;> cases hclass' : classify e' <;> rw [hclass, hclass'] at hjudged
  case hasValidator.hasValidator => rfl
  case missing.missing =>
      simp [gist, Spares, Context.diagnostic, Diagnostic.plain, Diagnostic.withSubject,
        hseverity, hname]
  case skipped.skipped s s' =>
      cases hjudged with
      | skipped hs =>
          have hspared : suggestion s ≠ suggestion t := fun heq => hs (suggestion_injective heq)
          simp [gist, Spares, Context.diagnostic, Diagnostic.plain, Diagnostic.withSubject,
            Diagnostic.withSuggestion, hseverity, hname, hspared]
  case skipped.hasValidator s =>
      cases hjudged with
      | settled =>
          simp [Spares, Context.diagnostic, Diagnostic.plain, Diagnostic.withSubject,
            Diagnostic.withSuggestion]
  all_goals cases hjudged

/-- The reports on a settled program are those on the program without the ones
that suggest to settle it. -/
theorem settled_reports (hseverity : c.severity = c'.severity) {es es' : List Emit}
    (h : List.Forall₂ (EmitSettled t) es es') :
    (reports c' es').map gist = ((reports c es).filter fun d => Spares t d).map gist := by
  induction h with
  | nil => rfl
  | cons he _ ih =>
      rw [reports_cons, reports_cons, List.map_append, List.filter_append, List.map_append, ih,
        settled_diagnostic? hseverity he]

/-- The suggestions that are made are those for the `null`s that are reported. -/
theorem suggestions_reports (c : Context) (es : List Emit) :
    (reports c es).flatMap (·.suggestions) = (skippedSpans es).map suggestion := by
  induction es with
  | nil => rfl
  | cons e es ih =>
      rw [reports_cons, List.flatMap_append, ih, skippedSpans, skippedSpans, List.filterMap_cons,
        skippedSpan?, diagnostic?]
      cases classify e with
      | hasValidator | missing | skipped s => rfl

end
end EmitLint.EmitValidator
