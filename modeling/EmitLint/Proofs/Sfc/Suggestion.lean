/-
# Suggestions in a single-file component

Main statement: `suggestions_stay_in_blocks`.  A suggestion in the result for a
component belongs to one block of it.  To take it in the file gives what taking
it in the block gives, with the rest of the file around that; and when the blocks
of the new file are looked for, all are found again, in order, with the same flags
and languages and with the same text but for that one block.

No closing tag can come about on the way (`firstAt_closes_replace`), because
`() => true` has no `<`, and begins with a byte that no closing tag has.  Of what
reads the scripts it is assumed that where a tree has a `null` the text has those
four letters (`NullsSpelled`).
-/
import EmitLint.Proofs.Rule.Suggestion
import EmitLint.Proofs.Sfc.Editing
import EmitLint.Proofs.Sfc.Offsets
import EmitLint.Proofs.Sfc.RoundTrip

namespace EmitLint

open Syntax Sfc
open Text (byteLength encode)

/-! ## Where a closing tag stands after an edit -/

namespace Sfc

variable {bs before inside new after v : List UInt8} {n k : Nat}

/-- A closing tag has bytes of `</script>` only. -/
theorem lower_mem_of_closes {b : UInt8} (h : Closes bs) (hk : k < Mark.scriptEnd.length)
    (hb : bs[k]? = some b) : lower b ∈ Mark.scriptEnd := by
  have hword : ((bs.take Mark.scriptEnd.length).map lower)[k]? = Mark.scriptEnd[k]? :=
    congrArg (·[k]?) (beq_iff_eq.mp h)
  rw [List.getElem?_map, List.getElem?_take_of_lt hk, hb] at hword
  exact List.mem_of_getElem? hword.symm

/-- What can be put into a text so that no closing tag begins in it or reaches into it. -/
structure KeepsOpen (new : List UInt8) : Prop where
  opens : 60 ∉ new
  first : ∃ b rest, new = b :: rest ∧ lower b ∉ Mark.scriptEnd

/-- No closing tag comes about where such a text takes the place of another. -/
theorem firstAt_closes_replace (hnew : KeepsOpen new)
    (h : FirstAt Closes (before ++ inside ++ after ++ v) (before ++ inside ++ after).length) :
    FirstAt Closes (before ++ new ++ after ++ v) (before ++ new ++ after).length := by
  obtain ⟨hclose, hnone⟩ := h
  rw [List.drop_left] at hclose
  refine ⟨by rwa [List.drop_left], ?_⟩
  intro i hi hcloses
  simp only [List.append_assoc, List.length_append] at hi hnone hcloses
  rcases Nat.lt_or_ge i before.length with hbefore | hbefore
  · by_cases hfits : i + Mark.scriptEnd.length ≤ before.length
    · -- It stands in front of the new text, so it was there before.
      have hroom : Mark.scriptEnd.length ≤ (before.drop i).length := by
        rw [List.length_drop]
        omega
      refine hnone i (by omega) ?_
      rw [List.drop_append_of_le_length (Nat.le_of_lt hbefore)] at hcloses ⊢
      exact settledBy_closes _ _ _ hroom hcloses
    · -- It would reach into the new text.
      obtain ⟨b, rest, rfl, hb⟩ := hnew.first
      refine hb (lower_mem_of_closes (k := before.length - i) hcloses (by omega) ?_)
      rw [List.getElem?_drop, Nat.add_sub_cancel' (Nat.le_of_lt hbefore),
        List.getElem?_append_right (Nat.le_refl _), Nat.sub_self]
      rfl
  · rcases Nat.lt_or_ge i (before.length + new.length) with hinside | hinside
    · -- It would begin in the new text.
      have hhead := head?_of_closes hcloses
      rw [List.head?_drop, List.getElem?_append_right hbefore,
        List.getElem?_append_left (by omega)] at hhead
      exact hnew.opens (List.mem_of_getElem? hhead)
    · -- It stands behind the new text, so it was there before.
      obtain ⟨j, rfl⟩ := Nat.exists_eq_add_of_le hinside
      refine hnone (before.length + inside.length + j) (by omega) ?_
      have hdrop : ∀ middle : List UInt8,
          (before ++ (middle ++ (after ++ v))).drop (before.length + middle.length + j) =
            (after ++ v).drop j := by
        intro middle
        rw [← List.drop_drop, ← List.drop_drop, List.drop_left, List.drop_left]
      rw [hdrop] at hcloses ⊢
      exact hcloses

end Sfc

/-! ## Suggestions and the `null`s they are about -/

namespace EmitValidator

/-- Every `null` of the tree is spelled out in the text. -/
def NullsSpelled (text : String) (program : Program) : Prop :=
  ∀ t ∈ nullSpans program.root, Text.slice? text.toList t.start t.stop = some "null".toList

theorem null_of_mem_reports {c : Context} {m : Component.Mode} {program : Program}
    {d : Diagnostic} {f : Fix} (hd : d ∈ reports c (emitsOf m program)) (hf : f ∈ d.suggestions) :
    ∃ t ∈ nullSpans program.root, f = suggestion t := by
  rcases reports_kinds hd with ⟨-, hnone⟩ | ⟨-, -, t, ht, hone⟩
  · rw [hnone] at hf
    exact absurd hf List.not_mem_nil
  · rw [hone] at hf
    exact ⟨t, mem_nullSpans ht, List.mem_singleton.mp hf⟩

theorem keepsOpen_replacement : KeepsOpen (encode replacement.toList) := by
  refine ⟨by decide, 40, (encode replacement.toList).tail, ?_, ?_⟩
  · decide
  · decide

end EmitValidator

/-- Every suggestion on a script is about a `null` of its tree. -/
theorem Linter.null_of_lintSource {l : Linter} {source filename : String} {kind : ScriptKind}
    {dialect : Dialect} {componentFile : Bool} {d : Diagnostic} {f : Fix}
    (hregistry : ∀ r ∈ l.registry, r = EmitValidator.rule)
    (hd : d ∈ (l.lintSource source filename kind dialect componentFile).diagnostics)
    (hf : f ∈ d.suggestions) :
    ∃ program, l.parse dialect source = some program ∧
      ∃ t ∈ EmitValidator.nullSpans program.root, f = EmitValidator.suggestion t := by
  unfold lintSource at hd
  split at hd
  · exact absurd hd List.not_mem_nil
  · rename_i program hparse
    refine ⟨program, hparse, ?_⟩
    rcases mem_runRules hregistry hd with hd | ⟨c', hd⟩
    · exact absurd hd List.not_mem_nil
    · exact EmitValidator.null_of_mem_reports hd hf

/-! ## One suggestion in the file -/

/-- To take `f` in the file is to take `g` in the block `b`, whose text `new` then is, and
no other block of the file notices: those in `front` stay where they are, and those in
`back` move by the six bytes that `() => true` is longer than `null`. -/
structure StaysIn (source : String) (front : List ScriptBlock) (b : ScriptBlock)
    (back : List ScriptBlock) (f g : Fix) (before new after : String) : Prop where
  split : source = before ++ b.content ++ after
  offset : byteLength before.toList = b.offset
  block : g.apply b.content = some new
  file : f.apply source = some (before ++ new ++ after)
  size : byteLength (before ++ new ++ after).toList < UInt32.size
  blocks : extractScriptBlocks (before ++ new ++ after) =
    .ok (front ++ { b with content := new } :: back.map (·.shift 6))

open EmitValidator in
theorem staysIn_of_null {source : String} {front back : List ScriptBlock} {b : ScriptBlock}
    {t : Span} (hsize : byteLength source.toList < UInt32.size - 6)
    (hblocks : extractScriptBlocks source = .ok (front ++ b :: back))
    (hnull : Text.slice? b.content.toList t.start t.stop = some "null".toList) :
    ∃ before new after, StaysIn source front b back ((suggestion t).shift b.offset)
      (suggestion t) before new after := by
  have hb : b ∈ front ++ b :: back := List.mem_append_right front List.mem_cons_self
  obtain ⟨before, after, hsource, hbefore, -⟩ :=
    Text.slice?_eq_some (slice?_of_mem_blocks hblocks hb)
  obtain ⟨u, w, hcontent, hstart, hstop⟩ := Text.slice?_eq_some hnull
  let new := u ++ replacement.toList ++ w
  have hgrowth : byteLength replacement.toList = byteLength "null".toList + 6 := by decide
  have hlength : byteLength new = byteLength b.content.toList + 6 := by
    simp only [new, hcontent, Text.byteLength_append, hgrowth]
    omega
  have hedited : (String.ofList before ++ String.ofList new ++ String.ofList after) =
      String.ofList (before ++ new ++ after) := by
    simp [← String.toList_inj]
  refine ⟨.ofList before, .ofList new, .ofList after, ?_, ?_, ?_, ?_, ?_, ?_⟩
  · rw [← String.toList_inj, hsource]
    simp
  · rw [String.toList_ofList, hbefore]
  · exact apply_suggestion_append hcontent hstart hstop
  · have hfile : source.toList = (before ++ u) ++ "null".toList ++ (w ++ after) := by
      rw [hsource, hcontent]
      simp
    have happly := apply_suggestion_append (t := t.shift b.offset) hfile
      (by rw [Text.byteLength_append, hbefore, hstart, Nat.add_comm]; rfl)
      (by rw [Text.byteLength_append, hbefore, Nat.add_assoc, hstop, Nat.add_comm]; rfl)
    have htext : before ++ new ++ after =
        before ++ u ++ replacement.toList ++ (w ++ after) := by
      simp [new]
    rw [hedited, htext]
    exact happly
  · rw [hedited, String.toList_ofList]
    simp only [hsource, Text.byteLength_append] at hsize ⊢
    omega
  · rw [hedited]
    refine extractScriptBlocks_replace hblocks hsource hbefore hlength ?_
    have hencoded : ∀ piece : List Char, encode (u ++ piece ++ w) =
        encode u ++ encode piece ++ encode w := by
      intro piece
      rw [Text.encode_append, Text.encode_append]
    intro hclose
    rw [← Text.length_encode, hencoded]
    rw [hcontent, ← Text.length_encode, hencoded] at hclose
    exact firstAt_closes_replace keepsOpen_replacement hclose

namespace Linter

/-- Every suggestion on a component is one on a block of it.  It can be taken in the file
as in the block, and of the blocks that are found afterwards only that one has changed. -/
theorem suggestions_stay_in_blocks {l : Linter} {source filename : String} {r : LintResult}
    (hregistry : ∀ r ∈ l.registry, r = EmitValidator.rule)
    (hnulls : ∀ dialect text program, l.parse dialect text = some program →
      EmitValidator.NullsSpelled text program)
    (hsize : byteLength source.toList < UInt32.size - 6)
    (h : l.lintSfc source filename = .ok r) :
    ∃ blocks, extractScriptBlocks source = .ok blocks ∧
      r.diagnostics = blocks.flatMap (fun b =>
        (l.lintSource b.content filename b.kind b.dialect true).diagnostics.map
          (·.shift b.offset)) ∧
      ∀ front b back, blocks = front ++ b :: back →
        ∀ d ∈ (l.lintSource b.content filename b.kind b.dialect true).diagnostics,
          ∀ f ∈ (d.shift b.offset).suggestions, ∃ g ∈ d.suggestions, f = g.shift b.offset ∧
            ∃ before new after, StaysIn source front b back f g before new after := by
  cases hblocks : extractScriptBlocks source with
  | error e =>
      rw [lintSfc, hblocks] at h
      cases h
  | ok blocks =>
      rw [lintSfc, hblocks] at h
      obtain rfl := Except.ok.inj h
      refine ⟨blocks, rfl, ?_, ?_⟩
      · rw [foldl_merge]
        rfl
      · rintro front b back rfl d hd f hf
        obtain ⟨g, hg, rfl⟩ := List.mem_map.mp hf
        obtain ⟨program, hparse, t, ht, rfl⟩ := null_of_lintSource hregistry hd hg
        exact ⟨_, hg, rfl, staysIn_of_null hsize hblocks (hnulls _ _ _ hparse t ht)⟩

end Linter

/-! ## An example -/

/-- A file with a script and a `setup` script, which say the same. -/
def twinFile : String :=
  "<script>" ++ exampleBlock.content ++ "</script><script setup>" ++ exampleBlock.content ++
    "</script>"

def twinBlock : ScriptBlock := { exampleBlock with offset := 58, setup := true }

theorem extractScriptBlocks_twinFile :
    extractScriptBlocks twinFile = .ok [exampleBlock, twinBlock] := by
  let setup : Written.Attribute := { gap := [' '], name := "setup".toList, value := none }
  let parts : List Written.Part :=
    [.element ⟨"script".toList, [], by decide⟩ exampleBlock.content.toList "script".toList,
     .element ⟨"script".toList, [setup], by decide⟩ exampleBlock.content.toList "script".toList]
  have hwritten : twinFile = String.ofList (Written.written parts) := by decide
  rw [hwritten, Written.blocks_of_written parts (by decide)]
  decide

theorem nullSpans_exampleScript : EmitValidator.nullSpans exampleScript.root = [⟨20, 24⟩] := by
  simp [Program.root, exampleScript, EmitValidator.nullSpans, Node.nodes_script, Node.nodes_stmt,
    Node.nodes_expr, Node.nodes_element, Node.nodes_property, Node.nodes_key, stmtChildren,
    exprChildren, elementChildren, propertyChildren, keyChildren, partsAt, List.filterMap_cons,
    EmitValidator.null?]

/-- When the suggestion in the first script is taken, the second one moves by six bytes. -/
theorem suggestions_stay_in_blocks_twins :
    ∃ edited, (EmitValidator.suggestion ⟨28, 32⟩).apply twinFile = some edited ∧
      extractScriptBlocks edited =
        .ok [{ exampleBlock with content := "createApp({emits:{a:() => true}})" },
          { twinBlock with offset := 64 }] := by
  have hregistry : ∀ r ∈ exampleScriptLinter.registry, r = EmitValidator.rule :=
    fun r hr => List.mem_singleton.mp hr
  have hnulls : ∀ dialect text program, exampleScriptLinter.parse dialect text = some program →
      EmitValidator.NullsSpelled text program := by
    intro dialect text program hparse t ht
    obtain ⟨rfl, hprogram⟩ := Option.ite_none_right_eq_some.mp hparse
    obtain rfl := Option.some.inj hprogram
    rw [nullSpans_exampleScript, List.mem_singleton] at ht
    subst ht
    decide
  obtain ⟨r, hlint⟩ : ∃ r, exampleScriptLinter.lintSfc twinFile "A.vue" = .ok r := by
    rw [Linter.lintSfc, extractScriptBlocks_twinFile]
    exact ⟨_, rfl⟩
  obtain ⟨blocks, hblocks, -, htaken⟩ :=
    Linter.suggestions_stay_in_blocks hregistry hnulls (by decide) hlint
  obtain rfl := Except.ok.inj (extractScriptBlocks_twinFile.symm.trans hblocks)
  obtain ⟨d, hd, hsuggestions⟩ : ∃ d ∈ (exampleScriptLinter.lintSource exampleBlock.content
      "A.vue" exampleBlock.kind exampleBlock.dialect true).diagnostics,
      d.suggestions = [EmitValidator.suggestion ⟨20, 24⟩] := by
    refine List.mem_map.mp ?_
    decide
  have hf : EmitValidator.suggestion ⟨28, 32⟩ ∈ (d.shift exampleBlock.offset).suggestions := by
    rw [Diagnostic.shift, hsuggestions]
    exact List.mem_singleton_self _
  obtain ⟨g, hg, -, before, new, after, hstays⟩ :=
    htaken [] exampleBlock [twinBlock] rfl d hd _ hf
  rw [hsuggestions, List.mem_singleton] at hg
  subst hg
  have happly : (EmitValidator.suggestion ⟨20, 24⟩).apply exampleBlock.content =
      some "createApp({emits:{a:() => true}})" := by
    rw [EmitValidator.suggestion, Fix.single, Fix.apply, Fix.fromBack, List.mergeSort_singleton]
    decide
  obtain rfl := Option.some.inj (hstays.block.symm.trans happly)
  exact ⟨_, hstays.file, hstays.blocks⟩

end EmitLint
