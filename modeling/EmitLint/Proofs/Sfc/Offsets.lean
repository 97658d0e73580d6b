/-
# Reports in a single-file component

Each script block is linted like a file of its own, and what is reported moves
to where the block stands.  Main statement: `reports_of_blocks`.  The reports on
the component are those on its blocks, one block after the other, with all their
spans moved and nothing else changed; a span that was about a piece of the block
is then about the same piece of the file, and no number grows too large.

Of what reads the scripts it is assumed that the spans of its trees fall between
characters of the text that it was given (`SpansRead`).
-/
import EmitLint.Linter
import EmitLint.Syntax.FileName
import EmitLint.Proofs.Rule.Placed
import EmitLint.Proofs.Sfc.Cut

namespace EmitLint

open Syntax Sfc

/-! ## Moved reports -/

namespace Diagnostic

/-- All of a report but its spans. -/
def withoutSpans (d : Diagnostic) : Diagnostic :=
  let bare (f : Fix) : Fix := { f with edits := f.edits.map fun e => { e with span := default } }
  { d with span := default, fix := d.fix.map bare, suggestions := d.suggestions.map bare }

theorem remedies_shift (d : Diagnostic) (offset : Nat) :
    (d.shift offset).remedies = d.remedies.map (·.shift offset) := by
  rw [remedies, remedies, List.map_append]
  cases h : d.fix <;> simp [shift, h]

theorem spans_shift (d : Diagnostic) (offset : Nat) :
    (d.shift offset).spans = d.spans.map (·.shift offset) := by
  rw [spans, spans, remedies_shift, List.flatMap_map, List.map_cons, List.map_flatMap]
  simp only [Fix.shift, TextEdit.shift, List.map_map, Function.comp_def]
  rfl

theorem withoutSpans_shift (d : Diagnostic) (offset : Nat) :
    (d.shift offset).withoutSpans = d.withoutSpans := by
  simp only [withoutSpans, shift, Option.map_map, List.map_map, Function.comp_def, Fix.shift,
    TextEdit.shift]

end Diagnostic

/-! ## The reports of a linter -/

namespace EmitValidator

variable {c : Context} {program : Program} {d : Diagnostic}

theorem report_mode (c : Context) (d : Diagnostic) : (c.report d).mode = c.mode := by
  unfold Context.report
  split <;> rfl

theorem check_mode (c : Context) (program : Program) : (check c program).mode = c.mode :=
  check_unchanged report_mode c program

theorem mem_check (h : d ∈ (check c program).diagnostics) :
    d ∈ c.diagnostics ∨ d ∈ reports c (emitsOf c.mode program) := by
  by_cases hmentions : mentionsEmits c.source = true
  · rw [check_diagnostics program hmentions] at h
    exact List.mem_append.mp h
  · rw [check_of_not_mentions program hmentions] at h
    exact .inl h

end EmitValidator

namespace Linter

variable {l : Linter} {program : Program} {source filename : String}

/-- However often the rule runs, each of its reports is one on a declaration. -/
theorem mem_runRules {registry : Registry} (hregistry : ∀ r ∈ registry, r = EmitValidator.rule)
    {c : Context} {d : Diagnostic} (h : d ∈ (registry.foldl (l.runRule program) c).diagnostics) :
    d ∈ c.diagnostics ∨
      ∃ c', d ∈ EmitValidator.reports c' (EmitValidator.emitsOf c.mode program) := by
  induction registry generalizing c with
  | nil => exact .inl h
  | cons r registry ih =>
      obtain ⟨rfl, hrest⟩ := List.forall_mem_cons.mp hregistry
      rw [List.foldl_cons] at h
      have hstep := ih hrest h
      unfold runRule at hstep
      split at hstep
      · rename_i severity _
        let c₁ : Context := { c with rule := EmitValidator.rule.info.name, severity := severity }
        have hmode : (EmitValidator.rule.check c₁ program).mode = c.mode :=
          EmitValidator.check_mode c₁ program
        rw [hmode] at hstep
        rcases hstep with hd | hd
        · exact (EmitValidator.mem_check (c := c₁) hd).imp_right fun hd => ⟨c₁, hd⟩
        · exact .inr hd
      · exact hstep

theorem lintSource_of_none {kind : ScriptKind} {dialect : Dialect} {componentFile : Bool}
    (h : l.parse dialect source = none) :
    (l.lintSource source filename kind dialect componentFile).diagnostics = [] := by
  rw [lintSource, h]
  rfl

theorem filename_lintSource (l : Linter) (source filename : String) (kind : ScriptKind)
    (dialect : Dialect) (componentFile : Bool) :
    (l.lintSource source filename kind dialect componentFile).filename = filename := by
  unfold lintSource
  split <;> rfl

theorem foldl_merge (filename : String) (blocks : List ScriptBlock) (r : LintResult) :
    (blocks.foldl (fun r b => r.merge (l.lintBlock filename b)) r).diagnostics =
      r.diagnostics ++ blocks.flatMap fun b => (l.lintBlock filename b).diagnostics := by
  induction blocks generalizing r with
  | nil => exact (List.append_nil _).symm
  | cons b blocks ih =>
      rw [List.foldl_cons, ih, List.flatMap_cons, LintResult.merge, List.append_assoc]

/-- Every span of a report on a script is that of a node of its tree. -/
theorem stands_of_lintSource (hregistry : ∀ r ∈ l.registry, r = EmitValidator.rule)
    {kind : ScriptKind} {dialect : Dialect} {componentFile : Bool} {d : Diagnostic}
    (h : d ∈ (l.lintSource source filename kind dialect componentFile).diagnostics) :
    ∃ program, l.parse dialect source = some program ∧
      ∀ s ∈ d.spans, EmitValidator.Stands program.root s := by
  unfold lintSource at h
  split at h
  · exact absurd h List.not_mem_nil
  · rename_i program hparse
    refine ⟨program, hparse, ?_⟩
    rcases mem_runRules hregistry h with hd | ⟨c', hd⟩
    · exact absurd hd List.not_mem_nil
    · exact EmitValidator.placed_of_mem_reports hd

end Linter

/-! ## Spans in the file -/

/-- The spans of a tree fall between characters of its text. -/
def SpansRead (text : String) (program : Program) : Prop :=
  ∀ x ∈ program.root.nodes, ∀ s, x.span? = some s →
    (Text.slice? text.toList s.start s.stop).isSome = true

/-- The reports on a component are those on its blocks, each moved to where its
block stands: all spans by the offset of the block, and nothing else.  A span
reads in the file what it read in the block. -/
theorem reports_of_blocks {l : Linter} {source filename : String} {blocks : List ScriptBlock}
    (hregistry : ∀ r ∈ l.registry, r = EmitValidator.rule)
    (hsize : Text.byteLength source.toList < UInt32.size)
    (hblocks : extractScriptBlocks source = .ok blocks)
    (hspans : ∀ b ∈ blocks, ∀ program, l.parse b.dialect b.content = some program →
      SpansRead b.content program) :
    (∃ r, l.lintSfc source filename = .ok r ∧ r.diagnostics = blocks.flatMap fun b =>
      (l.lintSource b.content filename b.kind b.dialect true).diagnostics.map
        (·.shift b.offset)) ∧
    (∀ d : Diagnostic, ∀ offset, (d.shift offset).spans = d.spans.map (·.shift offset) ∧
      (d.shift offset).withoutSpans = d.withoutSpans) ∧
    (∀ b ∈ blocks, l.parse b.dialect b.content = none →
      (l.lintSource b.content filename b.kind b.dialect true).diagnostics = []) ∧
    ∀ b ∈ blocks, ∀ d ∈ (l.lintSource b.content filename b.kind b.dialect true).diagnostics,
      ∀ s ∈ d.spans, s.start + b.offset < UInt32.size ∧ s.stop + b.offset < UInt32.size ∧
        (s.shift b.offset).Within ⟨b.offset, b.offset + Text.byteLength b.content.toList⟩ ∧
        ∃ piece, Text.slice? b.content.toList s.start s.stop = some piece ∧
          Text.slice? source.toList (s.shift b.offset).start (s.shift b.offset).stop =
            some piece := by
  refine ⟨?_, fun d offset => ⟨d.spans_shift offset, d.withoutSpans_shift offset⟩,
    fun b _ hnone => Linter.lintSource_of_none hnone, ?_⟩
  · refine ⟨_, by rw [Linter.lintSfc, hblocks]; rfl, ?_⟩
    rw [Linter.foldl_merge]
    rfl
  · intro b hb d hd s hs
    obtain ⟨program, hparse, hstands⟩ := Linter.stands_of_lintSource hregistry hd
    obtain ⟨x, hx, hxs⟩ := hstands s hs
    obtain ⟨piece, hpiece⟩ := Option.isSome_iff_exists.mp (hspans b hb program hparse x hx s hxs)
    have hblock := slice?_of_mem_blocks hblocks hb
    obtain ⟨hfile, hforwards, hend⟩ := Text.slice?_of_slice? hblock hpiece
    obtain ⟨before, after, hsource, hbefore, -⟩ := Text.slice?_eq_some hblock
    have htotal : b.offset + Text.byteLength b.content.toList ≤ Text.byteLength source.toList := by
      rw [hsource, Text.byteLength_append, Text.byteLength_append, hbefore]
      exact Nat.le_add_right _ _
    refine ⟨by omega, by omega, ⟨?_, ?_, hend⟩, piece, hpiece, hfile⟩
    · exact Nat.le_add_left _ _
    · exact Nat.add_le_add_right hforwards _

/-! ## An example -/

def exampleFile : String := "<script>createApp({emits:{a:null}})</script>"

def exampleBlock : ScriptBlock := ⟨"createApp({emits:{a:null}})", 8, false, none⟩

def exampleScript : Program :=
  ⟨[.expression ⟨0, 27⟩ (.call ⟨0, 27⟩ false (.name ⟨0, 9⟩ "createApp") false
    [.item (.object ⟨10, 26⟩ [.entry ⟨11, 25⟩ (.name ⟨11, 16⟩ "emits")
      (.object ⟨17, 25⟩ [.entry ⟨18, 24⟩ (.name ⟨18, 19⟩ "a") (.null ⟨20, 24⟩)])])])]⟩

/-- A linter that reads this one script. -/
def exampleScriptLinter : Linter :=
  .new (fun _ text => if text = exampleBlock.content then some exampleScript else none)
    Dialect.ofFilename?

theorem extractScriptBlocks_exampleFile :
    extractScriptBlocks exampleFile = .ok [exampleBlock] := by
  have hfront : Piece.front (Text.bytes exampleFile) = .element 8 27 := by decide
  have hnosetup : hasSetup [] = false := by
    rw [hasSetup, attributes, attributesFrom]
    rfl
  have hnolang : langRange [] = none := by
    rw [langRange, attributes, attributesFrom]
    rfl
  have hblock :
      BlockRange.ofElement (Text.bytes exampleFile) 0 8 27 = ⟨0, ⟨8, 35⟩, false, none⟩ := by
    have hattributes : Piece.attributeText (Text.bytes exampleFile) 8 = [] := by decide
    rw [BlockRange.ofElement, hattributes, hnosetup, hnolang]
    rfl
  have hscan : scan 0 (Text.bytes exampleFile) [] = .ok [⟨0, ⟨8, 35⟩, false, none⟩] := by
    have hrest : (Text.bytes exampleFile).drop (Piece.element 8 27).length = [] := by decide
    rw [scan, dif_neg (by decide)]
    split <;> rename_i hp <;> rw [hfront] at hp <;> cases hp
    dsimp only
    rw [if_neg (by simp), hrest, scan, dif_pos rfl, hblock]
    rfl
  rw [extractScriptBlocks, hscan]
  decide

theorem spans_exampleScript : exampleScript.root.nodes.filterMap Node.span? =
    [⟨0, 27⟩, ⟨0, 27⟩, ⟨0, 9⟩, ⟨10, 26⟩, ⟨10, 26⟩, ⟨11, 25⟩, ⟨17, 25⟩, ⟨18, 24⟩, ⟨20, 24⟩] := by
  simp [Program.root, exampleScript, Node.nodes_script, Node.nodes_stmt, Node.nodes_expr,
    Node.nodes_element, Node.nodes_property, Node.nodes_key, stmtChildren, exprChildren,
    elementChildren, propertyChildren, keyChildren, partsAt, List.filterMap_cons, Node.span?,
    Stmt.span, Expr.span, Element.span, Property.span]

/-- The report and its suggestion move behind the tag. -/
theorem reports_of_blocks_example :
    ∃ r, exampleScriptLinter.lintSfc exampleFile "A.vue" = .ok r ∧
      r.diagnostics.map Diagnostic.spans = [[⟨26, 32⟩, ⟨28, 32⟩]] := by
  have hregistry : ∀ r ∈ exampleScriptLinter.registry, r = EmitValidator.rule :=
    fun r hr => List.mem_singleton.mp hr
  have hspans : ∀ b ∈ [exampleBlock], ∀ program,
      exampleScriptLinter.parse b.dialect b.content = some program →
      SpansRead b.content program := by
    intro b hb program hparse x hx s hs
    obtain rfl := List.mem_singleton.mp hb
    obtain rfl : exampleScript = program := Option.some.inj hparse
    have hmem : s ∈ exampleScript.root.nodes.filterMap Node.span? :=
      List.mem_filterMap.mpr ⟨x, hx, hs⟩
    have hread : ∀ s ∈ ([⟨0, 27⟩, ⟨0, 27⟩, ⟨0, 9⟩, ⟨10, 26⟩, ⟨10, 26⟩, ⟨11, 25⟩, ⟨17, 25⟩,
        ⟨18, 24⟩, ⟨20, 24⟩] : List Span),
        (Text.slice? exampleBlock.content.toList s.start s.stop).isSome = true := by decide
    exact hread s (spans_exampleScript ▸ hmem)
  have hmoved : ∃ r, exampleScriptLinter.lintSfc exampleFile "A.vue" = .ok r ∧ _ :=
    (reports_of_blocks hregistry (by decide) extractScriptBlocks_exampleFile hspans).1
  obtain ⟨r, hr, hdiagnostics⟩ := hmoved
  refine ⟨r, hr, ?_⟩
  rw [hdiagnostics]
  decide

end EmitLint
