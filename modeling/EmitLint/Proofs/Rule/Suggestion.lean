/-
# Taking a suggestion

To take the suggestion of a report is to edit the text; what matters is the
tree that is read from the text afterwards.  It is taken for granted that this
is the tree with the one `null` settled (`Settled`), and that the spans of
`null`s are right (`NullsRead`); all else is proved.

Main statement: `taking_suggestions`.  To take the suggestion of a report does
away with this report and no other, whatever else the program holds.  So the
loop that takes one suggestion after the other ends after as many steps as
there were suggestions, and the other reports are then still there.
-/
import EmitLint.FixLoop
import EmitLint.Syntax.FileName
import EmitLint.Proofs.Rule.SettledReports
import EmitLint.Proofs.Text.Edit

namespace EmitLint.EmitValidator

open Component Syntax

/-- The spans of the `null`s are right: there stands a piece that is `null`, or a
spelling of it, and no two of them are the same. -/
structure NullsRead (source : String) (program : Program) : Prop where
  apart : NullsApart program
  read : ∀ t ∈ nullSpans program.root, ∃ piece,
    Text.slice? source.toList t.start t.stop = some piece ∧ LeavesWords piece

/-! ## One suggestion -/

section
variable {c : Context} {es : List Emit} {d : Diagnostic} {program program' : Program} {t : Span}

/-- A report is of one of two kinds, and one of them makes a suggestion. -/
theorem reports_kinds (h : d ∈ reports c es) :
    (d.messageId = "missing" ∧ d.suggestions = []) ∨
      d.messageId = "skipped" ∧ d.subject.isSome = true ∧
        ∃ t ∈ skippedSpans es, d.suggestions = [suggestion t] := by
  obtain ⟨e, he, hd⟩ := mem_reports.mp h
  rcases diagnostic?_eq_some hd with ⟨-, rfl⟩ | ⟨t, hclass, rfl⟩
  · exact .inl ⟨rfl, rfl⟩
  · refine .inr ⟨rfl, rfl, t, List.mem_filterMap.mpr ⟨e, he, ?_⟩, rfl⟩
    rw [skippedSpan?, hclass]

/-- Of several reports only one suggests to settle the `null` at `t`. -/
theorem filter_spares {before after : List Diagnostic} (hnodup : (skippedSpans es).Nodup)
    (hsplit : reports c es = before ++ d :: after) (hd : d.suggestions = [suggestion t]) :
    (reports c es).filter (fun d => Spares t d) = before ++ after := by
  have hmap : ((skippedSpans es).map suggestion).Nodup :=
    hnodup.map fun _ _ => suggestion_injective
  rw [← suggestions_reports c, hsplit, List.flatMap_append, List.flatMap_cons, hd,
    List.nodup_append] at hmap
  obtain ⟨-, hafter, hbefore⟩ := hmap
  have hspared : ∀ x ∈ before ++ after, Spares t x := by
    intro x hx hsuggestions
    have hmem : suggestion t ∈ x.suggestions := by
      rw [hsuggestions]
      exact List.mem_singleton_self _
    rcases List.mem_append.mp hx with hx | hx
    · exact hbefore _ (List.mem_flatMap.mpr ⟨x, hx, hmem⟩) _
        (List.mem_append_left _ (List.mem_singleton_self _)) rfl
    · exact (List.nodup_cons.mp hafter).1 (List.mem_flatMap.mpr ⟨x, hx, hmem⟩)
  have hself : ¬ Spares t d := fun h => h hd
  rw [hsplit, List.filter_append, List.filter_cons, if_neg (by simpa using hself),
    ← List.filter_append, List.filter_eq_self]
  exact fun x hx => decide_eq_true (hspared x hx)

/-- The reports on the settled program are all the others. -/
theorem reports_edited {c' : Context} (hseverity : c.severity = c'.severity)
    {before after : List Diagnostic} (hapart : NullsApart program)
    (hsplit : reports c (emitsOf c.mode program) = before ++ d :: after)
    (hd : d.suggestions = [suggestion t]) (hsettled : Settled t program.root program'.root) :
    (reports c' (emitsOf c.mode program')).map gist = (before ++ after).map gist := by
  rw [settled_reports hseverity (settled_emits c.mode hsettled),
    filter_spares (nodup_skippedSpans hapart c.mode) hsplit hd]

/-- The edit can be made, and leaves the words that the rule looks for. -/
theorem edited_of_null {source : String} {piece : List Char}
    (hread : Text.slice? source.toList t.start t.stop = some piece) (hpiece : LeavesWords piece) :
    ∃ edited, (suggestion t).apply source = some edited ∧
      (mentionsEmits source = true → mentionsEmits edited = true) := by
  obtain ⟨before, after, hsource, happly⟩ := apply_suggestion hread
  exact ⟨_, happly, mentionsEmits_of_leavesWords hpiece hsource String.toList_ofList⟩

end

/-! ## One suggestion after the other -/

/-- Texts in which edits are read as they are meant: from a readable text one
that is readable again comes by settling a `null` that is reported. -/
def ReadsEdits (parse : String → Option Program) (m : Mode) (Readable : String → Prop) : Prop :=
  ∀ source, Readable source → ∃ program, parse source = some program ∧
    NullsRead source program ∧ ∀ t ∈ skippedSpans (emitsOf m program),
      ∀ edited, (suggestion t).apply source = some edited →
        Readable edited ∧ ∃ program', parse edited = some program' ∧
          Settled t program.root program'.root

section
variable {l : Linter} {source filename : String} {kind : ScriptKind} {dialect : Dialect}
  {componentFile : Bool} {program : Program}

/-- The context in which the rule runs alone. -/
def lintContext (source filename : String) (kind : ScriptKind) (componentFile : Bool)
    (severity : Severity) : Context :=
  { (Context.new source filename kind).withComponentFile componentFile with
    rule := info.name
    severity := severity }

theorem lintSource_diagnostics (hregistry : l.registry = [rule])
    (hparse : l.parse dialect source = some program) :
    (l.lintSource source filename kind dialect componentFile).diagnostics =
      match l.config.severityFor info with
      | some severity =>
          (check (lintContext source filename kind componentFile severity) program).diagnostics
      | none => [] := by
  rw [Linter.lintSource, hparse]
  simp only [Linter.runRules, hregistry, List.foldl_cons, List.foldl_nil, Linter.runRule]
  show (match l.config.severityFor info with | some _ => _ | none => _ : Context).diagnostics = _
  cases l.config.severityFor info with
  | none => rfl
  | some severity => rfl

theorem lintSource_of_mentions {severity : Severity} (hregistry : l.registry = [rule])
    (hseverity : l.config.severityFor info = some severity)
    (hparse : l.parse dialect source = some program) (hmentions : mentionsEmits source = true) :
    (l.lintSource source filename kind dialect componentFile).diagnostics =
      reports (lintContext source filename kind componentFile severity)
        (emitsOf ⟨kind, componentFile⟩ program) := by
  rw [lintSource_diagnostics hregistry hparse, hseverity]
  exact check_diagnostics program hmentions

/-- Where there is a report, the rule is on and the text mentions emits. -/
theorem lintSource_of_ne_nil (hregistry : l.registry = [rule])
    (hparse : l.parse dialect source = some program)
    (hne : (l.lintSource source filename kind dialect componentFile).diagnostics ≠ []) :
    (∃ severity, l.config.severityFor info = some severity) ∧ mentionsEmits source = true := by
  rw [lintSource_diagnostics hregistry hparse] at hne
  cases hseverity : l.config.severityFor info with
  | none => simp [hseverity] at hne
  | some severity =>
      refine ⟨⟨severity, rfl⟩, ?_⟩
      by_contra hnot
      rw [hseverity] at hne
      exact hne (congrArg Context.diagnostics (check_of_not_mentions program hnot))

/-! ## The loop -/

/-- What one round of the loop finds, and what it leaves to the next one. -/
structure Steps (lint : String → LintResult) (Readable : String → Prop) : Prop where
  /-- A report says that a validator is missing, or it makes a suggestion. -/
  kinds : ∀ source, Readable source → ∀ d ∈ (lint source).diagnostics,
    (d.messageId = "missing" ∧ d.suggestions = []) ∨
      d.messageId = "skipped" ∧ d.subject.isSome = true ∧ d.suggestions ≠ []
  /-- The first suggestion does away with its own report. -/
  next : ∀ source, Readable source → ∀ before d after f,
    (lint source).diagnostics = before ++ d :: after → d.suggestions.head? = some f →
      ∃ edited, f.apply source = some edited ∧ Readable edited ∧
        (lint edited).diagnostics.map gist = (before ++ after).map gist

/-- Every round of the rule alone is of this kind. -/
theorem steps_of_readsEdits {Readable : String → Prop} (hregistry : l.registry = [rule])
    (hreads : ReadsEdits (l.parse dialect) ⟨kind, componentFile⟩ Readable) :
    Steps (fun s => l.lintSource s filename kind dialect componentFile) Readable := by
  constructor
  · intro source hsource d hd
    obtain ⟨program, hparse, -, -⟩ := hreads source hsource
    obtain ⟨⟨severity, hseverity⟩, hmentions⟩ :=
      lintSource_of_ne_nil hregistry hparse (List.ne_nil_of_mem hd)
    simp only [lintSource_of_mentions hregistry hseverity hparse hmentions] at hd
    rcases reports_kinds hd with hmissing | ⟨hskipped, hsubject, t, -, hsuggestions⟩
    · exact .inl hmissing
    · exact .inr ⟨hskipped, hsubject, by simp [hsuggestions]⟩
  · intro source hsource before d after f hsplit hf
    obtain ⟨program, hparse, hnulls, hedits⟩ := hreads source hsource
    have hd : d ∈ (l.lintSource source filename kind dialect componentFile).diagnostics := by
      rw [hsplit]
      exact List.mem_append_right before List.mem_cons_self
    obtain ⟨⟨severity, hseverity⟩, hmentions⟩ :=
      lintSource_of_ne_nil hregistry hparse (List.ne_nil_of_mem hd)
    simp only [lintSource_of_mentions hregistry hseverity hparse hmentions] at hsplit hd
    rcases reports_kinds hd with ⟨-, hnone⟩ | ⟨-, -, t, ht, hsuggestions⟩
    · simp [hnone] at hf
    · obtain rfl : suggestion t = f := by simpa [hsuggestions] using hf
      obtain ⟨piece, hpiece, hleaves⟩ := hnulls.read t (mem_nullSpans ht)
      obtain ⟨edited, happly, hstill⟩ := edited_of_null hpiece hleaves
      obtain ⟨hreadable, program', hparse', hsettled⟩ := hedits t ht edited happly
      refine ⟨edited, happly, hreadable, ?_⟩
      simp only [lintSource_of_mentions hregistry hseverity hparse' (hstill hmentions)]
      exact reports_edited rfl hnulls.apart hsplit hsuggestions hsettled

end

/-- The report makes a suggestion. -/
def isSkipped (d : Diagnostic) : Bool := d.messageId == "skipped"

/-- The report says that a validator is missing. -/
def isMissing (d : Diagnostic) : Bool := d.messageId == "missing"

section
variable {ε : Type} {lint : String → LintResult} {Readable : String → Prop} {source : String}

theorem filter_missing_congr {ds ds' : List Diagnostic} (h : ds.map gist = ds'.map gist) :
    (ds.filter isMissing).map gist = (ds'.filter isMissing).map gist := by
  have hgist : ∀ ds : List Diagnostic,
      (ds.filter isMissing).map gist = (ds.map gist).filter fun g => g.1 == "missing" := by
    intro ds
    rw [List.filter_map]
    rfl
  rw [hgist, hgist, h]

theorem count_skipped_congr {ds ds' : List Diagnostic} (h : ds.map gist = ds'.map gist) :
    ds.countP isSkipped = ds'.countP isSkipped := by
  have hgist : ∀ ds : List Diagnostic,
      ds.countP isSkipped = (ds.map gist).countP fun g => g.1 == "skipped" := by
    intro ds
    rw [List.countP_map]
    rfl
  rw [hgist, hgist, h]

theorem rounds_of_none (h : FixLoop.firstSuggestion? (lint source).diagnostics = none)
    (limit : Nat) :
    FixLoop.rounds (fun s => (.ok (lint s) : Except ε LintResult)) (limit + 1) source =
      .ok [⟨(lint source).diagnostics.length, none, source⟩] := by
  simp only [FixLoop.rounds, bind, Except.bind, h, pure, Except.pure]

theorem rounds_of_some {d : Diagnostic} {f : Fix} {edited : String} {limit : Nat}
    {rs : List FixLoop.Round}
    (h : FixLoop.firstSuggestion? (lint source).diagnostics = some (d, f))
    (happly : f.apply source = some edited)
    (hrest : FixLoop.rounds (fun s => (.ok (lint s) : Except ε LintResult)) limit edited = .ok rs) :
    FixLoop.rounds (fun s => (.ok (lint s) : Except ε LintResult)) (limit + 1) source =
      .ok (⟨(lint source).diagnostics.length, d.subject, edited⟩ :: rs) := by
  simp only [FixLoop.rounds, bind, Except.bind, h, happly, Option.getD_some, hrest, pure,
    Except.pure]

theorem split_of_firstSuggestion? {ds : List Diagnostic} {d : Diagnostic} {f : Fix}
    (h : FixLoop.firstSuggestion? ds = some (d, f)) :
    ∃ before after, ds = before ++ d :: after ∧ d.suggestions.head? = some f := by
  obtain ⟨before, d', after, hsplit, hd', -⟩ := List.findSome?_eq_some_iff.mp h
  obtain ⟨f', hf', heq⟩ := Option.map_eq_some_iff.mp hd'
  obtain ⟨rfl, rfl⟩ := Prod.mk.inj heq
  exact ⟨before, after, hsplit, hf'⟩

/-- Without a report that makes a suggestion the loop ends. -/
theorem rounds_last (hsteps : Steps lint Readable) (hsource : Readable source)
    (hnone : (lint source).diagnostics.countP isSkipped = 0) (limit : Nat) :
    FixLoop.rounds (fun s => (.ok (lint s) : Except ε LintResult)) (limit + 1) source =
      .ok [⟨(lint source).diagnostics.length, none, source⟩] ∧
    (∀ d ∈ (lint source).diagnostics, d.messageId = "missing" ∧ d.suggestions = []) := by
  have hmissing : ∀ d ∈ (lint source).diagnostics,
      d.messageId = "missing" ∧ d.suggestions = [] := by
    intro d hd
    rcases hsteps.kinds source hsource d hd with hmissing | ⟨hskipped, -, -⟩
    · exact hmissing
    · exact absurd (beq_iff_eq.mpr hskipped) (List.countP_eq_zero.mp hnone d hd)
  have hfirst : FixLoop.firstSuggestion? (lint source).diagnostics = none := by
    rw [FixLoop.firstSuggestion?, List.findSome?_eq_none_iff]
    intro d hd
    rw [(hmissing d hd).2]
    rfl
  exact ⟨rounds_of_none hfirst limit, hmissing⟩

/-- The loop takes as many steps as there are suggestions.  Then nothing but
the other reports is left. -/
theorem rounds_of_steps (hsteps : Steps lint Readable) {k : Nat} (hsource : Readable source)
    (hcount : (lint source).diagnostics.countP isSkipped = k) {limit : Nat} (hlimit : k < limit) :
    ∃ rs last, FixLoop.rounds (fun s => (.ok (lint s) : Except ε LintResult)) limit source =
        .ok (rs ++ [last]) ∧
      rs.length = k ∧ (∀ r ∈ rs, r.subject.isSome = true) ∧ last.subject = none ∧
      (∀ d ∈ (lint last.source).diagnostics, d.suggestions = []) ∧
      (lint last.source).diagnostics.map gist =
        ((lint source).diagnostics.filter isMissing).map gist := by
  induction k generalizing source limit with
  | zero =>
      obtain ⟨limit, rfl⟩ := Nat.exists_eq_add_of_lt hlimit
      rw [Nat.zero_add]
      obtain ⟨hrounds, hmissing⟩ := rounds_last (ε := ε) hsteps hsource hcount limit
      refine ⟨[], _, hrounds, rfl, fun r hr => absurd hr List.not_mem_nil, rfl, ?_, ?_⟩
      · exact fun d hd => (hmissing d hd).2
      · have hfilter : (lint source).diagnostics.filter isMissing = (lint source).diagnostics :=
          List.filter_eq_self.mpr fun d hd => beq_iff_eq.mpr (hmissing d hd).1
        rw [hfilter]
  | succ k ih =>
      obtain ⟨limit, rfl⟩ : ∃ n, limit = n + 1 := ⟨limit - 1, by omega⟩
      cases hfirst : FixLoop.firstSuggestion? (lint source).diagnostics with
      | none =>
          have hpos : 0 < (lint source).diagnostics.countP isSkipped := by omega
          obtain ⟨d, hd, hskipped⟩ := List.countP_pos_iff.mp hpos
          rcases hsteps.kinds source hsource d hd with ⟨hmissing, -⟩ | ⟨-, -, hsome⟩
          · rw [isSkipped, hmissing] at hskipped
            cases hskipped
          · have hnone := List.findSome?_eq_none_iff.mp hfirst d hd
            rw [Option.map_eq_none_iff, List.head?_eq_none_iff] at hnone
            exact absurd hnone hsome
      | some found =>
          obtain ⟨d, f⟩ := found
          obtain ⟨before, after, hsplit, hf⟩ := split_of_firstSuggestion? hfirst
          have hd : d ∈ (lint source).diagnostics :=
            hsplit ▸ List.mem_append_right before List.mem_cons_self
          rcases hsteps.kinds source hsource d hd with ⟨-, hnone⟩ | ⟨hskipped, hsubject, -⟩
          · rw [hnone] at hf
            cases hf
          · obtain ⟨edited, happly, hreadable, hgist⟩ :=
              hsteps.next source hsource before d after f hsplit hf
            -- The text after this step has one suggestion less, so the hypothesis takes over.
            have hself : isSkipped d = true := beq_iff_eq.mpr hskipped
            have hother : isMissing d = false := by rw [isMissing, hskipped]; rfl
            have hcount' : (lint edited).diagnostics.countP isSkipped = k := by
              rw [hsplit, List.countP_append, List.countP_cons_of_pos hself] at hcount
              rw [count_skipped_congr hgist, List.countP_append]
              omega
            obtain ⟨rs, last, hrounds, hlength, hsubjects, hlast, hsuggestions, hrest⟩ :=
              ih hreadable hcount' (Nat.lt_of_succ_lt_succ hlimit)
            refine ⟨_ :: rs, last, rounds_of_some hfirst happly hrounds, by simp [hlength], ?_,
              hlast, hsuggestions, ?_⟩
            · rintro r (_ | ⟨_, hr⟩)
              · exact hsubject
              · exact hsubjects r hr
            · rw [hrest, filter_missing_congr hgist, hsplit, List.filter_append,
                List.filter_append, List.filter_cons_of_neg (by simp [hother])]

end

/-- To take the suggestion of a report, whatever else is reported, does away
with this report and no other.  So the loop takes one step for each suggestion,
and the reports that make none are there in the end as they were in the
beginning. -/
theorem taking_suggestions :
    (∀ (c : Context) (program : Program) (before after : List Diagnostic) (d : Diagnostic),
      NullsRead c.source program →
      (check c program).diagnostics = c.diagnostics ++ before ++ d :: after →
      d.messageId = "skipped" →
      ∃ e ∈ emitsOf c.mode program, ∃ t edited,
        diagnostic? c e = some d ∧ e.value = some (.null t) ∧ d.suggestions = [suggestion t] ∧
        (suggestion t).apply c.source = some edited ∧
        ∀ program', Settled t program.root program'.root →
          (check { c with source := edited } program').diagnostics.map gist =
            (c.diagnostics ++ before ++ after).map gist) ∧
    ∀ (ε : Type) (l : Linter) (filename : String) (kind : ScriptKind) (dialect : Dialect)
      (componentFile : Bool) (Readable : String → Prop), l.registry = [rule] →
      ReadsEdits (l.parse dialect) ⟨kind, componentFile⟩ Readable →
      ∀ source k limit, Readable source →
        (l.lintSource source filename kind dialect componentFile).diagnostics.countP isSkipped = k →
        k < limit →
        ∃ rs last, FixLoop.rounds (fun s =>
            (.ok (l.lintSource s filename kind dialect componentFile) : Except ε LintResult))
            limit source = .ok (rs ++ [last]) ∧
          rs.length = k ∧ (∀ r ∈ rs, r.subject.isSome = true) ∧ last.subject = none ∧
          (∀ d ∈ (l.lintSource last.source filename kind dialect componentFile).diagnostics,
            d.suggestions = []) ∧
          (l.lintSource last.source filename kind dialect componentFile).diagnostics.map gist =
            ((l.lintSource source filename kind dialect componentFile).diagnostics.filter
              isMissing).map gist := by
  constructor
  · intro c program before after d hnulls hsplit hskipped
    have hmentions : mentionsEmits c.source = true := by
      by_contra hnot
      rw [check_of_not_mentions program hnot] at hsplit
      have hlength := congrArg List.length hsplit
      simp only [List.length_append, List.length_cons] at hlength
      omega
    rw [check_diagnostics program hmentions, List.append_assoc, List.append_right_inj] at hsplit
    have hd : d ∈ reports c (emitsOf c.mode program) :=
      hsplit ▸ List.mem_append_right before List.mem_cons_self
    obtain ⟨e, he, hde⟩ := mem_reports.mp hd
    rcases diagnostic?_eq_some hde with ⟨-, rfl⟩ | ⟨t, hclass, hform⟩
    · have hids : "missing" = "skipped" := hskipped
      exact absurd hids (by decide)
    · have hvalue : skippedSpan? e = some t := by rw [skippedSpan?, hclass]
      have hsuggestions : d.suggestions = [suggestion t] := by rw [hform]; rfl
      have ht : t ∈ skippedSpans (emitsOf c.mode program) := List.mem_filterMap.mpr ⟨e, he, hvalue⟩
      obtain ⟨piece, hpiece, hleaves⟩ := hnulls.read t (mem_nullSpans ht)
      obtain ⟨edited, happly, hstill⟩ := edited_of_null hpiece hleaves
      refine ⟨e, he, t, edited, hde, skippedSpan?_eq_some.mp hvalue, hsuggestions, happly, ?_⟩
      intro program' hsettled
      have hreports : (reports { c with source := edited } (emitsOf c.mode program')).map gist =
          (before ++ after).map gist :=
        reports_edited rfl hnulls.apart hsplit hsuggestions hsettled
      rw [check_diagnostics program' (hstill hmentions), List.map_append, List.append_assoc,
        List.map_append, ← hreports]
      rfl
  · intro ε l filename kind dialect componentFile Readable hregistry hreads source k limit hsource
      hcount hlimit
    exact rounds_of_steps (steps_of_readsEdits hregistry hreads) hsource hcount hlimit

/-! ## An example -/

/-- A call of `defineEmits` with `a` and `b`, of which `b` stands at this span. -/
def exampleCall (a : Expr) (s : Span) (b : Expr) : Program :=
  ⟨[.expression ⟨0, s.stop + 3⟩ (.call ⟨0, s.stop + 3⟩ false (.name ⟨0, 11⟩ "defineEmits") false
    [.item (.object ⟨12, s.stop + 2⟩
      [.entry ⟨14, a.span.stop⟩ (.name ⟨14, 15⟩ "a") a,
        .entry s (.name ⟨s.start, s.start + 1⟩ "b") b])])]⟩

def skippingSource : String := "defineEmits({ a: null, b: 1 })"

def skippingProgram : Program :=
  exampleCall (.null ⟨17, 21⟩) ⟨23, 27⟩ (.number ⟨26, 27⟩ "1")

def settledSource : String := "defineEmits({ a: () => true, b: 1 })"

def settledProgram : Program :=
  exampleCall (.arrow ⟨17, 27⟩ (.mk [] [.expression ⟨23, 27⟩ (.atom ⟨23, 27⟩)])) ⟨29, 33⟩
    (.number ⟨32, 33⟩ "1")

/-- What reads these two texts and no other. -/
def exampleParse (_ : Dialect) (source : String) : Option Program :=
  if source = skippingSource then some skippingProgram
  else if source = settledSource then some settledProgram
  else none

theorem apply_skippingSource : (suggestion ⟨17, 21⟩).apply skippingSource = some settledSource := by
  rw [suggestion, Fix.single, Fix.apply, Fix.fromBack, List.mergeSort_singleton]
  decide

theorem nullSpans_skippingProgram : nullSpans skippingProgram.root = [⟨17, 21⟩] := by
  simp [Program.root, skippingProgram, exampleCall, nullSpans, Node.nodes_script, Node.nodes_stmt,
    Node.nodes_expr, Node.nodes_element, Node.nodes_property, Node.nodes_key, stmtChildren,
    exprChildren, elementChildren, propertyChildren, keyChildren, partsAt, null?,
    List.filterMap_cons]

theorem nullSpans_settledProgram : nullSpans settledProgram.root = [] := by
  simp [Program.root, settledProgram, exampleCall, nullSpans, Node.nodes_script, Node.nodes_stmt,
    Node.nodes_expr, Node.nodes_element, Node.nodes_property, Node.nodes_key,
    Node.nodes_function, stmtChildren, exprChildren, elementChildren, propertyChildren,
    keyChildren, functionChildren, partsAt, null?]

theorem settled_example : Settled ⟨17, 21⟩ skippingProgram.root settledProgram.root := by
  have hname : ∀ s text, Settled ⟨17, 21⟩ (.expr (.name s text)) (.expr (.name s text)) :=
    fun s text => .inside (fun ⟨_, he, hn⟩ => by cases he; cases hn) rfl .nil
  refine .inside (fun ⟨_, he, _⟩ => by cases he) rfl (.cons ?_ .nil)
  refine .inside (fun ⟨_, he, _⟩ => by cases he) rfl (.cons ?_ .nil)
  refine .inside (fun ⟨_, he, hn⟩ => by cases he; cases hn) rfl (.cons (hname _ _) (.cons ?_ .nil))
  refine .inside (fun ⟨_, he, _⟩ => by cases he) rfl (.cons ?_ .nil)
  refine .inside (fun ⟨_, he, hn⟩ => by cases he; cases hn) rfl (.cons ?_ (.cons ?_ .nil))
  · refine .inside (fun ⟨_, he, _⟩ => by cases he) rfl (.cons ?_ (.cons ?_ .nil))
    · exact .inside (fun ⟨_, he, _⟩ => by cases he) rfl .nil
    · exact .here ⟨_, rfl, rfl⟩ ⟨_, rfl, _, _, _, _, rfl, rfl⟩
  · refine .inside (fun ⟨_, he, _⟩ => by cases he) rfl (.cons ?_ (.cons ?_ .nil))
    · exact .inside (fun ⟨_, he, _⟩ => by cases he) rfl .nil
    · exact .inside (fun ⟨_, he, hn⟩ => by cases he; cases hn) rfl .nil

theorem readsEdits_example :
    ReadsEdits (exampleParse .ts) ⟨.setup, true⟩
      fun s => s = skippingSource ∨ s = settledSource := by
  rintro source (rfl | rfl)
  · have hread : Text.slice? skippingSource.toList 17 21 = some "null".toList := by decide
    refine ⟨skippingProgram, rfl, ⟨?_, ?_⟩, ?_⟩
    · rw [NullsApart, nullSpans_skippingProgram]
      exact List.nodup_singleton _
    · intro t ht
      rw [nullSpans_skippingProgram, List.mem_singleton] at ht
      subst ht
      exact ⟨_, hread, leavesWords_null⟩
    · intro t ht edited happly
      have hskipped : skippedSpans (emitsOf ⟨.setup, true⟩ skippingProgram) = [⟨17, 21⟩] := by
        decide
      rw [hskipped, List.mem_singleton] at ht
      subst ht
      obtain rfl := Option.some.inj (apply_skippingSource.symm.trans happly)
      exact ⟨.inr rfl, settledProgram, rfl, settled_example⟩
  · have hskipped : skippedSpans (emitsOf ⟨.setup, true⟩ settledProgram) = [] := by decide
    refine ⟨settledProgram, rfl, ⟨?_, ?_⟩, ?_⟩
    · rw [NullsApart, nullSpans_settledProgram]
      exact List.nodup_nil
    · rw [nullSpans_settledProgram]
      exact fun t ht => absurd ht List.not_mem_nil
    · rw [hskipped]
      exact fun t ht => absurd ht List.not_mem_nil

/-- The context of the example. -/
def exampleContext (source : String) : Context :=
  lintContext source "A.vue" .setup true .warning

def exampleLinter : Linter := ⟨[rule], .empty, exampleParse, Dialect.ofFilename?⟩

/-- Of the two reports the one on `a` goes, and the loop ends after one step. -/
theorem taking_suggestions_example :
    (check (exampleContext settledSource) settledProgram).diagnostics.map gist =
      [("missing", some "b", .warning, missingMessage "b")] ∧
    ∃ rs last, FixLoop.rounds (fun s =>
        (.ok (exampleLinter.lintSource s "A.vue" .setup .ts true) : Except Empty LintResult))
        2 skippingSource = .ok (rs ++ [last]) ∧ rs.length = 1 ∧ last.subject = none := by
  obtain ⟨hone, hloop⟩ := taking_suggestions
  have hreadable : skippingSource = skippingSource ∨ skippingSource = settledSource := .inl rfl
  constructor
  · let c := exampleContext skippingSource
    have hnulls : NullsRead c.source skippingProgram := by
      obtain ⟨program, hparse, hnulls, -⟩ := readsEdits_example skippingSource hreadable
      obtain rfl : skippingProgram = program := Option.some.inj hparse
      exact hnulls
    obtain ⟨e, -, t, edited, -, -, hsuggestions, happly, hgist⟩ :=
      hone c skippingProgram []
        [(c.diagnostic "missing" (missingMessage "b") ⟨23, 27⟩).withSubject "b"]
        (((c.diagnostic "skipped" (skippedMessage "a") ⟨14, 21⟩).withSuggestion
          (suggestion ⟨17, 21⟩)).withSubject "a") hnulls (by decide) (by decide)
    obtain rfl : (⟨17, 21⟩ : Span) = t :=
      suggestion_injective (List.singleton_inj.mp hsuggestions)
    obtain rfl := Option.some.inj (apply_skippingSource.symm.trans happly)
    exact hgist settledProgram settled_example
  · obtain ⟨rs, last, hrounds, hlength, -, hlast, -⟩ :=
      hloop Empty exampleLinter "A.vue" .setup .ts true _ rfl readsEdits_example skippingSource 1 2
        hreadable (by decide) (by decide)
    exact ⟨rs, last, hrounds, hlength, hlast⟩

end EmitLint.EmitValidator
