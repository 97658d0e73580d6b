/-
# What the blocks of a file are

Main statement: `blocks_of_parts`.  When the blocks of a file are found, each is
what an element encloses, there is one with either flag at most, and wherever a
script opens there is a part of the file around it.
-/
import EmitLint.Proofs.Sfc.Cut
import Mathlib.Data.List.Nodup

namespace EmitLint.Sfc

/-! ## No flag comes twice -/

/-- The scan takes no second block with the same flag. -/
theorem nodup_setup_of_scan {bs : List UInt8} {pos : Nat} {found ranges : List BlockRange}
    (hfound : (found.map (·.setup)).Nodup)
    (h : scan pos bs found = .ok ranges) : (ranges.map (·.setup)).Nodup := by
  fun_induction scan pos bs found with
  | case1 | case2 =>
      obtain rfl := Except.ok.inj h
      exact hfound
  | case3 | case4 => cases h
  | case5 pos bs found _ tag content hp block hnew n ih =>
      refine ih ?_ h
      rw [List.map_append, List.nodup_append]
      refine ⟨hfound, List.nodup_singleton _, ?_⟩
      intro a ha b hb hab
      obtain ⟨r, hr, rfl⟩ := List.mem_map.mp ha
      obtain rfl := List.mem_singleton.mp hb
      exact hnew (List.any_eq_true.mpr ⟨r, hr, beq_iff_eq.mpr hab⟩)
  | case6 pos bs found _ n hp ih | case7 pos bs found _ n hp ih => exact ih hfound h
  | case8 pos bs found _ hp ih => exact ih hfound h

/-! ## Blocks and parts -/

/-- The block is what this part of the file encloses. -/
structure Part.Encloses (source : String) (p : Part) (b : ScriptBlock) : Prop where
  /-- In front of the content ends the opening tag, at its first `>` outside quotes. -/
  opening : ∃ tag, OpeningTag ((Text.bytes source).drop p.start) tag ∧ b.offset = p.start + tag
  content : Text.slice? source.toList b.offset (b.offset + Text.byteLength b.content.toList) =
    some b.content.toList
  /-- Behind the content, and nowhere in it, stands a closing tag. -/
  closing : FirstAt Closes ((Text.bytes source).drop b.offset) (Text.byteLength b.content.toList)
  stop : b.offset + Text.byteLength b.content.toList + Mark.scriptEnd.length =
    p.stop (Text.bytes source)

section
variable {source : String} {blocks : List ScriptBlock} {p : Part} {parts : List Part}
  {r : BlockRange}

theorem isElement_eq (all : List UInt8) (p : Part) : p.isElement = (p.range? all).isSome := by
  obtain ⟨start, piece⟩ := p
  cases piece <;> rfl

theorem encloses_of_range? (h : p.StandsIn (Text.bytes source))
    (hr : p.range? (Text.bytes source) = some r) :
    p.Encloses source (ScriptBlock.ofRange source r) := by
  obtain ⟨hslice, hlength⟩ := slice?_of_ofRange (cut_of_range? h hr)
  unfold Part.range? at hr
  split at hr
  · rename_i tag content hpiece
    obtain rfl := Option.some.inj hr
    have hcontent := Nat.add_left_cancel hlength
    have hstands := h.stands
    rw [hpiece] at hstands
    cases hstands with
    | element htag _ hfirst =>
        rw [List.drop_drop] at hfirst
        refine ⟨⟨tag, htag, rfl⟩, ?_, ?_, ?_⟩
        · rw [hcontent]
          exact hslice
        · rw [hcontent]
          exact hfirst
        · rw [hcontent, Part.stop, hpiece]
          show p.start + tag + content + Mark.scriptEnd.length =
            p.start + (tag + content + Mark.scriptEnd.length)
          omega
  · cases hr

/-- Block by block, the elements among the parts. -/
theorem forall₂_encloses (h : ∀ p ∈ parts, p.StandsIn (Text.bytes source)) :
    List.Forall₂ (Part.Encloses source) (parts.filter Part.isElement)
      ((parts.filterMap (Part.range? (Text.bytes source))).map (ScriptBlock.ofRange source)) := by
  induction parts with
  | nil => exact .nil
  | cons p parts ih =>
      obtain ⟨hp, hparts⟩ := List.forall_mem_cons.mp h
      rw [List.filter_cons, isElement_eq (Text.bytes source) p, List.filterMap_cons]
      cases hr : p.range? (Text.bytes source) with
      | none => exact ih hparts
      | some r => exact .cons (encloses_of_range? hp hr) (ih hparts)

/-- When the blocks of a file are found, there is at most one of either kind.
The file falls into parts, one behind the other; the blocks are the elements
among them, in order; and no script opens outside of the parts. -/
theorem blocks_of_parts (hsize : Text.byteLength source.toList < UInt32.size)
    (h : extractScriptBlocks source = .ok blocks) :
    (∀ setup, (blocks.map (·.setup)).count setup ≤ 1) ∧
    ∃ parts : List Part,
      (∀ p ∈ parts, p.StandsIn (Text.bytes source) ∧
        p.stop (Text.bytes source) < UInt32.size) ∧
      parts.Pairwise (fun p q => p.stop (Text.bytes source) ≤ q.start) ∧
      List.Forall₂ (Part.Encloses source) (parts.filter Part.isElement) blocks ∧
      ∀ i, isScriptOpen ((Text.bytes source).drop i) = true →
        ∃ p ∈ parts, p.start ≤ i ∧ i < p.stop (Text.bytes source) := by
  obtain ⟨ranges, hscan, rfl⟩ := exists_ranges h
  obtain ⟨parts, hreads, rfl⟩ := reads_of_scan List.drop_zero.symm hscan
  have hstands := standsIn_of_reads hreads
  refine ⟨?_, parts, fun p hp => ⟨hstands p hp, ?_⟩, pairwise_of_reads hreads,
    forall₂_encloses hstands, ?_⟩
  · rw [← List.nodup_iff_count_le_one, List.map_map]
    have hnone : (([] : List BlockRange).map (·.setup)).Nodup := List.nodup_nil
    exact nodup_setup_of_scan hnone hscan
  · have hstop := Part.stop_le_length (hstands p hp)
    rw [Text.length_bytes] at hstop
    omega
  · intro i hi
    exact exists_part_of_reads hreads (Nat.zero_le i) hi

end

/-! ## An example -/

/-- A script in a comment, one without content, a block, and a comment that stays open. -/
def tangledFile : String := "<!--<script>--><script/><SCRIPT setup>x</Script><!--<script>"

theorem extractScriptBlocks_tangledFile :
    extractScriptBlocks tangledFile = .ok [⟨"x", 38, true, none⟩] := by
  have hblock : BlockRange.ofElement ((Text.bytes tangledFile).drop 24) 24 14 1 =
      ⟨24, ⟨38, 39⟩, true, none⟩ := by
    have hattributes : Piece.attributeText ((Text.bytes tangledFile).drop 24) 14 =
        ascii " setup" := by decide
    have hread : attributes (ascii " setup") = [⟨⟨1, 6⟩, none⟩] := by
      have hname : nextName? (ascii " setup") 0 = some ⟨1, 6⟩ := by decide
      rw [attributes, attributesFrom_of_some hname, if_neg (by decide),
        attributesFrom_of_none (by decide)]
    have hsetup : hasSetup (ascii " setup") = true := by
      rw [hasSetup, hread]
      decide
    have hlang : langRange (ascii " setup") = none := by
      rw [langRange, hread]
      decide
    rw [BlockRange.ofElement, hattributes, hsetup, hlang]
    rfl
  have helement : Piece.front ((Text.bytes tangledFile).drop 24) = .element 14 1 := by decide
  have hscan : scan 0 (Text.bytes tangledFile) [] = .ok [⟨24, ⟨38, 39⟩, true, none⟩] := by
    rw [scan_of_comment (n := 15) (by decide), scan_of_external (n := 9) (by decide),
      List.drop_drop, scan_of_element helement]
    dsimp only
    rw [hblock, if_neg (by simp), scan_of_openComment (by decide)]
    rfl
  rw [extractScriptBlocks, hscan]
  decide

/-- The block is an element of the file, and the script in the comment is in a part too. -/
theorem blocks_of_parts_tangled :
    Text.byteLength tangledFile.toList < UInt32.size ∧
    extractScriptBlocks tangledFile = .ok [⟨"x", 38, true, none⟩] ∧
    (∃ p : Part, p.StandsIn (Text.bytes tangledFile) ∧
      p.Encloses tangledFile ⟨"x", 38, true, none⟩) ∧
    ∃ p : Part, p.StandsIn (Text.bytes tangledFile) ∧
      p.start ≤ 4 ∧ 4 < p.stop (Text.bytes tangledFile) := by
  have hsize : Text.byteLength tangledFile.toList < UInt32.size := by decide
  obtain ⟨-, parts, hstands, -, hblocks, hopen⟩ :=
    blocks_of_parts hsize extractScriptBlocks_tangledFile
  refine ⟨hsize, extractScriptBlocks_tangledFile, ?_, ?_⟩
  · cases helements : parts.filter Part.isElement with
    | nil =>
        rw [helements] at hblocks
        cases hblocks
    | cons p rest =>
        rw [helements] at hblocks
        have hp : p ∈ parts.filter Part.isElement := helements ▸ List.mem_cons_self
        exact ⟨p, (hstands p (List.mem_of_mem_filter hp)).1, (List.forall₂_cons.mp hblocks).1⟩
  · obtain ⟨p, hp, hstart, hstop⟩ := hopen 4 (by decide)
    exact ⟨p, (hstands p hp).1, hstart, hstop⟩

end EmitLint.Sfc
