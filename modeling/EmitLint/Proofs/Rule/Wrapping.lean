/-
# Wrappers and reports

Parentheses and type wrappers do not change what an expression is, and so
should not change what is reported.  There are three places where they do by
design, which `Exempt` lists: the callee of a call, a key, and an entry of an
array of emits.

There is a fourth one.  The walk goes from an optional chain to the object of
a private member, but only if the member is all of the chain: with `!` behind
it, the component is lost (`asserted_field`).

Main statement: `outlines_of_rewrapped`.  Wrappers at all other places, at any
number of them, leave the reports as they are, but for where they point.
-/
import EmitLint.Proofs.Component.Compare
import EmitLint.Proofs.Rule.Reports
import EmitLint.Proofs.Syntax.Wrapping

namespace EmitLint.EmitValidator

open Component Syntax

/-- What a report says and how many suggestions it makes, but not where. -/
def outline (d : Diagnostic) : (String × Option String × Severity × String) × Nat :=
  (gist d, d.suggestions.length)

/-! ## Where wrappers count -/

/-- The expression is an entry of an array that declares emits. -/
def IsEntry (m : Mode) (program : Program) (e : Expr) : Prop :=
  ∃ s ∈ sites m program, ∃ v a els,
    s.definition? = some v ∧ v.unwrap = .array a els ∧ .item e ∈ els

/-- The child is a callee, the expression of a key, or an entry of an array of emits. -/
def Exempt (m : Mode) (program : Program) (n : Node) (c : Position × Node) : Prop :=
  c.1 = .callee ∨ c.1 = .keyValue ∨ ∃ e, n = .element (.item e) ∧ IsEntry m program e

/-- The child is a private member that is all of an optional chain. -/
def IsChainedField (c : Position × Node) : Prop :=
  c.1 = .chained ∧ ∃ s o object field, c.2 = .expr (.privateMember s o object field)

/-- The child has to stay without a further wrapper. -/
def Fixed (m : Mode) (program : Program) (n : Node) (c : Position × Node) : Prop :=
  Exempt m program n c ∨ IsChainedField c

section
variable {m : Mode} {program program' : Program} {n n' : Node} {e e' : Expr}

/-! ## Rewrapped sites -/

theorem rewrapped_keyName? {k k' : Key}
    (h : Rewrapped (Fixed m program) (.key k) (.key k')) : keyName? k = keyName? k' := by
  have hkept := h.keepsParts_of_not_expr fun _ => Node.noConfusion
  obtain ⟨hhead, -⟩ := h.of_not_expr fun _ => Node.noConfusion
  cases k <;> cases k' <;> try cases hhead
  case name.name => rfl
  case privateName.privateName => rfl
  case expr.expr e e' =>
      have hvalue : (Node.expr e).head = (Node.expr e').head :=
        (List.forall₂_cons.mp hkept).1 (.inl (.inr (.inl rfl)))
      rw [keyName?, keyName?, ← literalText?_exprHead e, Node.expr.inj hvalue,
        literalText?_exprHead]

theorem rewrapped_likeness (m : Mode) (program : Program) :
    Likeness (Rewrapped (Fixed m program)) :=
  ⟨Rewrapped.of_not_expr, rewrapped_keyName?, fun h => .inl h.unwrap⟩

/-- A callee that is kept has kept its words; its receiver may be wrapped. -/
theorem rewrapped_words (h : Rewrapped (Fixed m program) (.expr e) (.expr e'))
    (hhead : exprHead e = exprHead e') : SameWords e e' := by
  refine sameWords_of_head hhead ?_
  rintro s s' o o' object object' property property' rfl rfl
  exact Rewrapped.head_unwrap (List.forall₂_cons.mp (h.of_isBare trivial).parts).1

/-- No wrapper is put around a private member in a chain. -/
theorem rewrapped_privateLike (h : Rewrapped (Fixed m program) (.expr e) (.expr e'))
    (hkept : IsChainedField (.chained, .expr e) → exprHead e = exprHead e') :
    PrivateLike (Rewrapped (Fixed m program)) e e' := by
  by_cases hprivate : ∃ s o object field, e' = .privateMember s o object field
  · obtain ⟨s, o, object, field, rfl⟩ := hprivate
    exact .inr (h.of_isBare trivial)
  · have hnone' : field? e' = none := by
      cases e' with
      | privateMember s o object field => exact absurd ⟨s, o, object, field, rfl⟩ hprivate
      | _ => rfl
    refine .inl ⟨?_, hnone'⟩
    cases e with
    | privateMember s o object field =>
        have hhead := hkept ⟨rfl, s, o, object, field, rfl⟩
        rw [← field?_exprHead, hhead, field?_exprHead, hnone']
    | _ => rfl

theorem rewrapped_steady (hparts : Agree (Rewrapped (Fixed m program)) n n')
    (hkept : KeepsParts (Fixed m program) n n') :
    List.Forall₂ (Steady (Rewrapped (Fixed m program))) n.children n'.children := by
  refine List.Forall₂.mp ?_ hkept hparts.children
  rintro ⟨p, x⟩ ⟨p', x'⟩ hhead ⟨-, hx⟩
  constructor
  · rintro f f' ⟨⟩ ⟨⟩
    exact rewrapped_words hx (Node.expr.inj (hhead (.inl (.inl rfl))))
  · rintro b b' ⟨⟩ ⟨⟩
    exact rewrapped_privateLike hx fun hfield => Node.expr.inj (hhead (.inr hfield))

/-- The sites of a rewrapped tree are those of the tree, rewrapped. -/
theorem rewrapped_sites (h : Rewrapped (Fixed m program) n n') :
    List.Forall₂ (SiteRel (Rewrapped (Fixed m program))) (n.sites m) (n'.sites m) := by
  induction n' using Node.induction_size generalizing n with
  | step n' ih =>
      cases h with
      | @around e e' s w hinner =>
          show List.Forall₂ _ (exprSites m e) (exprSites m (.wrapped s w e'))
          rw [exprSites]
          exact ih (.expr e') (by simp +arith) hinner
      | inside hhead hkept hparts =>
          have hagree : Agree (Rewrapped (Fixed m program)) n n' := ⟨hhead, hparts⟩
          have hsteady := rewrapped_steady hagree hkept
          rw [Node.sites_eq, Node.sites_eq]
          refine List.rel_append ((rewrapped_likeness m program).ownSites m hagree hsteady) ?_
          have hwalked : List.Forall₂
              (fun x' x => sizeOf x' < sizeOf n' ∧ Rewrapped (Fixed m program) x x')
              n'.walked n.walked :=
            (List.forall₂_and_left _ _).mpr
              ⟨fun x' => Node.sizeOf_walked, (rel_walked hagree hsteady).flip⟩
          exact (List.rel_flatMap hwalked fun x' x hx => (ih x' hx.1 hx.2).flip).flip

/-! ## Rewrapped declarations -/

/-- The declarations say the same, spans aside. -/
structure EmitAlike (a a' : Emit) : Prop where
  name : a.name = a'.name
  anchor : a.anchor = a'.anchor
  value : a.value.map exprHead = a'.value.map exprHead

theorem rewrapped_propertyEmit {p p' : Property}
    (h : Rewrapped (Fixed m program) (.property p) (.property p')) :
    EmitAlike (propertyEmit p) (propertyEmit p') := by
  cases (rewrapped_likeness m program).property h with
  | entry hkey hvalue => exact ⟨hkey, rfl, congrArg some hvalue.head_unwrap⟩
  | spread => exact ⟨rfl, rfl, rfl⟩

theorem rewrapped_elementEmit {a a' : Element}
    (h : Rewrapped (Fixed m program) (.element a) (.element a'))
    (hentry : ∀ e, a = .item e → IsEntry m program e) :
    Option.Rel EmitAlike (elementEmit? a) (elementEmit? a') := by
  have hkept := h.keepsParts_of_not_expr fun _ => Node.noConfusion
  cases (rewrapped_likeness m program).element h with
  | @item e e' _ =>
      have hfixed : Fixed m program (.element (.item e)) (.part, .expr e) :=
        .inl (.inr (.inr ⟨e, rfl, hentry e rfl⟩))
      have hhead : exprHead e = exprHead e' :=
        Node.expr.inj ((List.forall₂_cons.mp hkept).1 hfixed)
      rw [elementEmit?_item, elementEmit?_item]
      refine .some ⟨?_, ?_, rfl⟩
      · rw [← declaredName?_exprHead, hhead, declaredName?_exprHead]
      · rw [← name?_exprHead, hhead, name?_exprHead]
  | spread => exact .some ⟨rfl, rfl, rfl⟩
  | hole => exact .none

theorem rewrapped_siteEmits {s s' : Site} (hs : s ∈ sites m program)
    (h : SiteRel (Rewrapped (Fixed m program)) s s') :
    List.Forall₂ EmitAlike s.emits s'.emits := by
  refine (rewrapped_likeness m program).siteEmits h fun v v' hv hvalue => ?_
  refine (rewrapped_likeness m program).definitionEmits hvalue ?_ fun _ _ => rewrapped_propertyEmit
  rintro u els harray a a' ⟨ha, helement⟩
  refine rewrapped_elementEmit helement fun e he => ?_
  exact ⟨s, hs, v, u, els, hv, harray, he ▸ ha⟩

/-- A rewrapped program declares what the program declares, in the same order. -/
theorem rewrapped_emits (h : Rewrapped (Fixed m program) program.root program'.root) :
    List.Forall₂ EmitAlike (emitsOf m program) (emitsOf m program') := by
  have hsites : List.Forall₂
      (fun s s' => s ∈ sites m program ∧ SiteRel (Rewrapped (Fixed m program)) s s')
      (sites m program) (sites m program') :=
    (List.forall₂_and_left _ _).mpr ⟨fun _ => id, rewrapped_sites h⟩
  exact List.rel_flatMap hsites fun s s' hs => rewrapped_siteEmits hs.1 hs.2

/-! ## Rewrapped reports -/

theorem sameVerdict_of_alike {a a' : Emit} (h : EmitAlike a a') :
    SameVerdict (classify a) (classify a') := by
  obtain ⟨name, anchor, value, s⟩ := a
  obtain ⟨name', anchor', value', s'⟩ := a'
  have hvalue := h.value
  cases value with
  | none =>
      cases value' with
      | none => exact .missing
      | some v' => cases hvalue
  | some v =>
      cases value' with
      | none => cases hvalue
      | some v' => exact sameVerdict_value (Option.some.inj hvalue)

theorem alike_diagnostic? {c c' : Context} (hseverity : c.severity = c'.severity) {a a' : Emit}
    (h : EmitAlike a a') :
    (diagnostic? c' a').toList.map outline = (diagnostic? c a).toList.map outline := by
  have hname : a.displayName = a'.displayName := by
    rw [Emit.displayName, Emit.displayName, h.name, h.anchor]
  have hverdict := sameVerdict_of_alike h
  unfold diagnostic?
  rw [hname]
  generalize classify a = v at hverdict
  generalize classify a' = v' at hverdict
  cases hverdict with
  | hasValidator => rfl
  | missing =>
      simp [outline, gist, Context.diagnostic, Diagnostic.plain, Diagnostic.withSubject, hseverity]
  | skipped =>
      simp [outline, gist, Context.diagnostic, Diagnostic.plain, Diagnostic.withSubject,
        Diagnostic.withSuggestion, hseverity]

theorem alike_reports {c c' : Context} (hseverity : c.severity = c'.severity) {es es' : List Emit}
    (h : List.Forall₂ EmitAlike es es') :
    (reports c' es').map outline = (reports c es).map outline := by
  induction h with
  | nil => rfl
  | cons he _ ih =>
      rw [reports_cons, reports_cons, List.map_append, List.map_append, ih,
        alike_diagnostic? hseverity he]

end

/-- Wrappers that are put around any expressions, but for callees, keys, entries
of arrays of emits, and private members that are all of a chain, leave what is
reported as it was, in the same order. -/
theorem outlines_of_rewrapped (c : Context) (source : String) {program program' : Program}
    (h : Rewrapped (Fixed c.mode program) program.root program'.root) :
    (unfiltered { c with source } program').diagnostics.map outline =
      (unfiltered c program).diagnostics.map outline := by
  have hreports : (reports { c with source } (emitsOf c.mode program')).map outline =
      (reports c (emitsOf c.mode program)).map outline :=
    alike_reports rfl (rewrapped_emits h)
  rw [unfiltered_diagnostics, unfiltered_diagnostics, List.map_append, List.map_append]
  exact congrArg _ hreports

/-- The script `createApp({emits:{a:null}})`. -/
def nullScript : Program :=
  ⟨[.expression ⟨0, 27⟩ (.call ⟨0, 27⟩ false (.name ⟨0, 9⟩ "createApp") false
    [.item (.object ⟨10, 26⟩ [.entry ⟨11, 25⟩ (.name ⟨11, 16⟩ "emits")
      (.object ⟨17, 25⟩ [.entry ⟨18, 24⟩ (.name ⟨18, 19⟩ "a") (.null ⟨20, 24⟩)])])])]⟩

/-- The script `createApp({emits:{a:null!}!}!)`. -/
def assertedScript : Program :=
  ⟨[.expression ⟨0, 30⟩ (.call ⟨0, 30⟩ false (.name ⟨0, 9⟩ "createApp") false
    [.item (.wrapped ⟨10, 29⟩ .nonNull (.object ⟨10, 28⟩
      [.entry ⟨11, 27⟩ (.name ⟨11, 16⟩ "emits") (.wrapped ⟨17, 27⟩ .nonNull (.object ⟨17, 26⟩
        [.entry ⟨18, 25⟩ (.name ⟨18, 19⟩ "a")
          (.wrapped ⟨20, 25⟩ .nonNull (.null ⟨20, 24⟩))]))]))])]⟩

def nullContext : Context := .new "createApp(\x7bemits:\x7ba:null\x7d\x7d)" "A.ts" .plain

/-- Its emits are not declared by an array. -/
theorem not_isEntry_nullScript (e : Expr) : ¬ IsEntry nullContext.mode nullScript e := by
  rintro ⟨s, hs, v, a, els, hv, harray, -⟩
  obtain rfl := List.mem_singleton.mp hs
  cases hv
  cases harray

theorem rewrapped_assertedScript :
    Rewrapped (Fixed nullContext.mode nullScript) nullScript.root assertedScript.root := by
  have hfree {n x x' : Node} (h : Fixed nullContext.mode nullScript n (.part, x)) :
      x.head = x'.head := by
    rcases h with (h | h | ⟨e, -, hentry⟩) | ⟨h, -⟩
    · cases h
    · cases h
    · exact absurd hentry (not_isEntry_nullScript e)
    · cases h
  refine .child [] [] rfl rfl rfl ?_ fun _ => rfl
  refine .child [] [] rfl rfl rfl ?_ fun _ => rfl
  -- The argument stands behind the callee, a value behind its key.
  refine .child [_] [] rfl rfl rfl ?_ fun _ => rfl
  refine .child [] [] rfl rfl rfl (.around ?_) hfree
  refine .child [] [] rfl rfl rfl ?_ fun _ => rfl
  refine .child [_] [] rfl rfl rfl (.around ?_) hfree
  refine .child [] [] rfl rfl rfl ?_ fun _ => rfl
  exact .child [_] [] rfl rfl rfl (.around (.refl _ _)) hfree

/-- Three wrappers, and the `null` is still found. -/
theorem outlines_of_rewrapped_asserted :
    Rewrapped (Fixed nullContext.mode nullScript) nullScript.root assertedScript.root ∧
    (unfiltered { nullContext with source := "createApp(\x7bemits:\x7ba:null!\x7d!\x7d!)" }
      assertedScript).diagnostics.map outline =
        [(("skipped", some "a", .warning, skippedMessage "a"), 1)] := by
  refine ⟨rewrapped_assertedScript, ?_⟩
  rw [outlines_of_rewrapped nullContext _ rewrapped_assertedScript]
  rfl

/-! ## The place where a wrapper counts by mistake -/

/-- The component in `class A { #o; f() { return createApp({ emits: ['a'] })?.#o } }`,
with the member behind it. -/
def chainedField : Expr :=
  .privateMember ⟨27, 58⟩ true
    (.call ⟨27, 54⟩ false (.name ⟨27, 36⟩ "createApp") false
      [.item (.object ⟨37, 53⟩ [.entry ⟨39, 51⟩ (.name ⟨39, 44⟩ "emits")
        (.array ⟨46, 51⟩ [.item (.string ⟨47, 50⟩ "a")])])])
    "o"

/-- The whole script, by what stands in the chain. -/
def fieldScript (body : Expr) : Program :=
  ⟨[.classDecl ⟨0, body.span.stop + 4⟩ (.mk [] none
    [.field [] (.privateName ⟨10, 12⟩ "o") none,
      .method [] (.name ⟨14, 15⟩ "f")
        (.mk [] [.returns ⟨20, body.span.stop⟩ (some (.chain ⟨27, body.span.stop⟩ body))])])]⟩

def fieldContext : Context :=
  .new "class A \x7b #o; f() \x7b return createApp(\x7b emits: ['a'] \x7d)?.#o \x7d \x7d" "A.ts" .plain

/-- With `!` behind the member nothing is reported any more. -/
theorem asserted_field :
    Rewrapped (Exempt fieldContext.mode (fieldScript chainedField))
      (fieldScript chainedField).root
      (fieldScript (.wrapped ⟨27, 59⟩ .nonNull chainedField)).root ∧
    (unfiltered fieldContext (fieldScript chainedField)).diagnostics.map outline =
      [(("missing", some "a", .warning, missingMessage "a"), 0)] ∧
    (unfiltered fieldContext
      (fieldScript (.wrapped ⟨27, 59⟩ .nonNull chainedField))).diagnostics = [] := by
  refine ⟨?_, rfl, rfl⟩
  refine .child [] [] rfl rfl rfl ?_ fun _ => rfl
  refine .child [] [] rfl rfl rfl ?_ fun _ => rfl
  -- The method is the second member, and its body comes behind its name.
  refine .child [_] [] rfl rfl rfl ?_ fun _ => rfl
  refine .child [_] [] rfl rfl rfl ?_ fun _ => rfl
  refine .child [] [] rfl rfl rfl ?_ fun _ => rfl
  refine .child [] [] rfl rfl rfl ?_ fun _ => rfl
  refine .child [] [] rfl rfl rfl (.around (.refl _ _)) ?_
  rintro (h | h | ⟨e, h, -⟩) <;> cases h

end EmitLint.EmitValidator
