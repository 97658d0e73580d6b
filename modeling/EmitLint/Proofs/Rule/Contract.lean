/-
# What is reported on a declaration

Main statement: `check_reports`.  A run of the rule on a source that passes the
look ahead appends one report for each declaration without a validator, in the
order of the declarations, and nothing else.  What such a report says is put down
in `ReportOn`, field by field, from the declaration and from the context alone.

A suggestion lies inside of its report because the `null` is a part of the property
that declares the emit, however many wrappers there are around it; for this the
spans of the tree have to be nested like its nodes.
-/
import EmitLint.Proofs.Component.Order

namespace EmitLint

open Component Syntax

/-- The span of a node has the spans of all that stands in the node inside of it. -/
def Syntax.Node.SpansNested (n : Node) : Prop :=
  ∀ x ∈ n.nodes, ∀ s, x.span? = some s → ∀ t ∈ x.spans, t.Within s

namespace EmitValidator

/-- A value that is taken for a validator: a function, or a name that may refer to one. -/
def IsValidator : Expr → Prop
  | .arrow .. | .function .. => True
  | .name _ text => text ≠ "undefined"
  | _ => False

/-- How a report calls the declaration: by its name, or by the identifier in its place. -/
def shownName (e : Emit) : String :=
  match e.name, e.anchor with
  | some name, _ => name
  | none, some text => text
  | none, none => "Unknown emit"

/-- What a report on a declaration says. -/
structure ReportOn (c : Context) (e : Emit) (d : Diagnostic) : Prop where
  rule : d.rule = c.rule
  severity : d.severity = c.severity
  span : d.span = e.span
  fix : d.fix = none
  subject : d.subject = some (shownName e)
  /-- Where `null` was written, the report suggests what to write instead. -/
  skipped : ∀ v t, e.value = some v → v.unwrap = .null t →
    d.messageId = "skipped" ∧
      d.message = "Emit \"" ++ shownName e ++
        "\" should not skip validation, or you may define a validator " ++
        "function with no parameters." ∧
      (∃ message, d.suggestions = [⟨message, [⟨t, "() => true"⟩]⟩]) ∧ t.Within d.span
  /-- Otherwise there is no validator at all. -/
  missing : (∀ v t, e.value = some v → v.unwrap ≠ .null t) →
    d.messageId = "missing" ∧
      d.message = "Emit \"" ++ shownName e ++
        "\" should define at least its validator function." ∧
      d.suggestions = []

section
variable {c : Context} {m : Mode} {program : Program} {e : Emit} {d : Diagnostic}

theorem displayName_eq (e : Emit) : e.displayName = shownName e := by
  unfold Emit.displayName shownName
  cases e.name with
  | some name => rfl
  | none => cases e.anchor <;> rfl

theorem elementEmit?_value {a : Element} (h : elementEmit? a = some e) : e.value = none := by
  unfold elementEmit? at h
  split at h
  · cases h
  all_goals
    obtain rfl := Option.some.inj h
    rfl

/-- A declaration with a value is a property of the tree, and the value is that of the
property without its wrappers. -/
theorem value_of_mem_emitsOf (h : e ∈ emitsOf m program) :
    e.value = none ∨ ∃ key value,
      Node.property (.entry e.span key value) ∈ program.root.nodes ∧ e.value = some value.unwrap := by
  rcases declared_of_mem_emitsOf h with ⟨a, -, ha⟩ | ⟨p, hp, rfl⟩
  · exact .inl (elementEmit?_value ha)
  · cases p with
    | entry s key value => exact .inr ⟨key, value, hp, rfl⟩
    | spread s value => exact .inl rfl

/-- A value that was declared has no wrappers left. -/
theorem unwrap_of_mem_emitsOf {v : Expr} (h : e ∈ emitsOf m program) (hv : e.value = some v) :
    v.unwrap = v := by
  rcases value_of_mem_emitsOf h with hnone | ⟨key, value, -, hvalue⟩
  · rw [hnone] at hv
    cases hv
  · rw [hvalue] at hv
    obtain rfl := Option.some.inj hv
    exact value.unwrap_unwrap

theorem hasValidator_iff (e : Emit) :
    classify e = .hasValidator ↔ ∃ v, e.value = some v ∧ IsValidator v := by
  unfold classify
  cases e.value with
  | none => simp
  | some v => cases v <;> simp [IsValidator]

theorem classify_null {t : Span} (h : e.value = some (.null t)) : classify e = .skipped t := by
  rw [classify, h]

/-- The `null` of a declaration stands inside of the declaration. -/
theorem within_of_null {t : Span} (hnested : program.root.SpansNested)
    (h : e ∈ emitsOf m program) (hnull : e.value = some (.null t)) : t.Within e.span := by
  rcases value_of_mem_emitsOf h with hnone | ⟨key, value, hmem, hvalue⟩
  · rw [hnone] at hnull
    cases hnull
  · rw [hvalue] at hnull
    have hinside : Node.expr (.null t) ∈ (Node.property (.entry e.span key value)).nodes := by
      rw [← Option.some.inj hnull]
      refine Node.mem_nodes_trans ?_ value.unwrap_mem_nodes
      exact Node.child_mem_nodes (List.mem_cons_of_mem _ List.mem_cons_self)
    exact hnested _ hmem e.span rfl t (Node.span_mem_spans hinside)

/-- The report on a declaration says what it should. -/
theorem reportOn_of_diagnostic? (hnested : program.root.SpansNested)
    (h : e ∈ emitsOf m program) (hd : diagnostic? c e = some d) : ReportOn c e d := by
  have hnull : ∀ v t, e.value = some v → v.unwrap = .null t → e.value = some (.null t) := by
    intro v t hv ht
    rw [unwrap_of_mem_emitsOf h hv] at ht
    rw [hv, ht]
  rcases diagnostic?_eq_some hd with ⟨hclass, rfl⟩ | ⟨s, hclass, rfl⟩
  · rw [displayName_eq]
    refine ⟨rfl, rfl, rfl, rfl, rfl, ?_, fun _ => ⟨rfl, rfl, rfl⟩⟩
    intro v t hv ht
    rw [classify_null (hnull v t hv ht)] at hclass
    cases hclass
  · rw [displayName_eq]
    refine ⟨rfl, rfl, rfl, rfl, rfl, ?_, ?_⟩
    · intro v t hv ht
      have hvalue := hnull v t hv ht
      obtain rfl : t = s := Validation.skipped.inj ((classify_null hvalue).symm.trans hclass)
      exact ⟨rfl, rfl, ⟨_, rfl⟩, within_of_null hnested h hvalue⟩
    · intro hother
      have hskipped : skippedSpan? e = some s := by
        rw [skippedSpan?, hclass]
      exact absurd rfl (hother _ s (skippedSpan?_eq_some.mp hskipped))

theorem isSome_diagnostic?_iff :
    (diagnostic? c e).isSome = true ↔ classify e ≠ .hasValidator := by
  unfold diagnostic?
  cases classify e <;> simp

/-- One after the other, the declarations without a validator and the reports. -/
theorem forall₂_reports {es : List Emit} {R : Emit → Diagnostic → Prop}
    (h : ∀ e ∈ es, ∀ d, diagnostic? c e = some d → R e d) :
    List.Forall₂ R (es.filter fun e => classify e ≠ .hasValidator) (reports c es) := by
  induction es with
  | nil => exact .nil
  | cons e es ih =>
      obtain ⟨he, hes⟩ := List.forall_mem_cons.mp h
      rw [reports_cons, List.filter_cons]
      cases hd : diagnostic? c e with
      | none =>
          have hclass : ¬ classify e ≠ .hasValidator := by
            rw [← isSome_diagnostic?_iff (c := c), hd]
            exact Bool.false_ne_true
          rw [if_neg (by simpa using hclass)]
          exact ih hes
      | some d =>
          have hclass : classify e ≠ .hasValidator := by
            rw [← isSome_diagnostic?_iff (c := c), hd]
            rfl
          rw [if_pos (by simpa using hclass)]
          exact .cons (he d hd) (ih hes)

end

/-- A run of the rule appends one report for each declaration without a validator,
in the order of the declarations.  A validator is a function or a name other than
`undefined`, and a declaration has a value only if it is the property of an object. -/
theorem check_reports (c : Context) (program : Program) (hnested : program.root.SpansNested)
    (hmentions : mentionsEmits c.source = true) :
    (∃ ds, (check c program).diagnostics = c.diagnostics ++ ds ∧
      List.Forall₂ (ReportOn c)
        ((emitsOf c.mode program).filter fun e => classify e ≠ .hasValidator) ds) ∧
    ∀ e ∈ emitsOf c.mode program,
      (classify e = .hasValidator ↔ ∃ v, e.value = some v ∧ IsValidator v) ∧
      (e.value = none ∨ ∃ key value,
        Node.property (.entry e.span key value) ∈ program.root.nodes ∧
          e.value = some value.unwrap) := by
  refine ⟨⟨_, check_diagnostics program hmentions, ?_⟩, ?_⟩
  · exact forall₂_reports fun e he d hd => reportOn_of_diagnostic? hnested he hd
  · intro e he
    exact ⟨hasValidator_iff e, value_of_mem_emitsOf he⟩

/-! ## An example -/

/-- The script `createApp({emits:{a:(null),...b}})`. -/
def wrappedScript : Program :=
  ⟨[.expression ⟨0, 34⟩ (.call ⟨0, 34⟩ false (.name ⟨0, 9⟩ "createApp") false
    [.item (.object ⟨10, 33⟩ [.entry ⟨11, 32⟩ (.name ⟨11, 16⟩ "emits")
      (.object ⟨17, 32⟩
        [.entry ⟨18, 26⟩ (.name ⟨18, 19⟩ "a") (.wrapped ⟨20, 26⟩ .parens (.null ⟨21, 25⟩)),
         .spread ⟨27, 31⟩ (.name ⟨30, 31⟩ "b")])])])]⟩

def wrappedContext : Context :=
  .new "createApp(\x7bemits:\x7ba:(null),...b\x7d\x7d)" "A.js" .plain

theorem spansNested_wrappedScript : wrappedScript.root.SpansNested := by
  have hnested : wrappedScript.root.WellNested := Node.wellNested_of_check (by cbv)
  exact fun x hx => (hnested x hx).inside

/-- The suggestion goes into the parentheses, and a spread has no name. -/
theorem check_reports_wrapped :
    wrappedScript.root.SpansNested ∧ mentionsEmits wrappedContext.source = true ∧
    ∃ d₁ d₂, (check wrappedContext wrappedScript).diagnostics = [d₁, d₂] ∧
      d₁.messageId = "skipped" ∧ d₁.subject = some "a" ∧ d₁.span = ⟨18, 26⟩ ∧
      d₁.suggestions.flatMap (·.edits) = [⟨⟨21, 25⟩, "() => true"⟩] ∧
      d₂.messageId = "missing" ∧ d₂.subject = some "Unknown emit" ∧ d₂.span = ⟨27, 31⟩ := by
  have hmentions : mentionsEmits wrappedContext.source = true := by decide
  refine ⟨spansNested_wrappedScript, hmentions, ?_⟩
  obtain ⟨⟨ds, hds, hreports⟩, -⟩ :=
    check_reports wrappedContext wrappedScript spansNested_wrappedScript hmentions
  have hrecords : (emitsOf wrappedContext.mode wrappedScript).filter
      (fun e => classify e ≠ .hasValidator) =
        [⟨some "a", none, some (.null ⟨21, 25⟩), ⟨18, 26⟩⟩, ⟨none, none, none, ⟨27, 31⟩⟩] := rfl
  rw [hrecords] at hreports
  cases hreports with
  | @cons _ d₁ _ _ h₁ hrest =>
      cases hrest with
      | @cons _ d₂ _ _ h₂ hrest =>
          cases hrest
          obtain ⟨hskipped, -, ⟨message, hsuggestions⟩, -⟩ := h₁.skipped _ ⟨21, 25⟩ rfl rfl
          obtain ⟨hmissing, -, -⟩ := h₂.missing fun v t hv => nomatch hv
          refine ⟨d₁, d₂, hds, hskipped, h₁.subject, h₁.span, ?_, hmissing, h₂.subject, h₂.span⟩
          rw [hsuggestions]
          rfl

end EmitValidator
end EmitLint
