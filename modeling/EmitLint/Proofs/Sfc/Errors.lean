/-
# Which error a file has

Main statement: `extractScriptBlocks_eq_error_iff`.  The script blocks of a file cannot be
located exactly when somewhere in it a script opens that is never closed, or that is a
second one of its kind, and all in front of that place reads well: the scan comes to it
outside of any comment, tag or block, and finds the blocks in front of it.  So an error
is the first in its file, and no text behind it could have kept the scan from coming
there.
-/
import EmitLint.Proofs.Sfc.Tiling

namespace EmitLint.Sfc

open Text (byteLength encode)

section
variable {source : String} {before after : List Char} {blocks : List ScriptBlock}
  {ranges : List BlockRange} {e : ScriptError}

theorem extractScriptBlocks_of_scan (h : scan 0 (encode before) [] = .ok ranges) :
    extractScriptBlocks (String.ofList before) =
      .ok (ranges.map (ScriptBlock.ofRange (String.ofList before))) := by
  rw [extractScriptBlocks, Text.bytes_ofList, h]
  rfl

theorem scan_of_extractScriptBlocks_error (h : extractScriptBlocks source = .error e) :
    scan 0 (encode source.toList) [] = .error e := by
  have hbytes : Text.bytes source = encode source.toList := rfl
  rw [extractScriptBlocks, hbytes] at h
  cases hscan : scan 0 (encode source.toList) [] with
  | ok ranges => rw [hscan] at h; cases h
  | error e' => rw [hscan] at h; exact congrArg Except.error (Except.error.inj h)

/-- The flags of the blocks that are cut out are those of their ranges. -/
theorem map_setup_ofRange (source : String) (ranges : List BlockRange) :
    (ranges.map (ScriptBlock.ofRange source)).map (·.setup) = ranges.map (·.setup) := by
  rw [List.map_map]
  rfl

/-- The place of a defect is a place between two characters. -/
theorem exists_split_of_fails {cs : List Char} {pos : Nat} {found : List BlockRange}
    (h : Fails pos (encode cs) found e) :
    ∃ before after pieces ranges, cs = before ++ after ∧
      pos + byteLength before = e.offset ∧ scan pos (encode before) found = .ok ranges ∧
      Tiled (encode before) pieces ∧
      Defect (ranges.map (·.setup)) (encode after) e.offset e := by
  obtain ⟨xs, rest, pieces, ranges, hsplit, htiled, hscan, hdefect⟩ := h
  have hhead := head?_of_isScriptOpen hdefect.isScriptOpen
  cases rest with
  | nil => cases hhead
  | cons b rest =>
      obtain rfl := Option.some.inj hhead
      obtain ⟨before, c, after, hsource, rfl, hc, hb, rfl⟩ :=
        Text.append_of_encode_eq hsplit (by decide)
      have hoffset : pos + byteLength before = e.offset := by
        rw [hdefect.offset_eq, Text.length_encode]
      refine ⟨before, c :: after, pieces, ranges, hsource, hoffset, hscan, htiled, ?_⟩
      rw [Text.encode_cons_of_ascii hc, ← hb, ← hoffset, ← Text.length_encode]
      exact hdefect

/-- The error of a file, and the text and the blocks in front of it. -/
theorem exists_defect (h : extractScriptBlocks source = .error e) :
    ∃ before after pieces ranges, source.toList = before ++ after ∧
      byteLength before = e.offset ∧ scan 0 (encode before) [] = .ok ranges ∧
      Tiled (encode before) pieces ∧
      Defect (ranges.map (·.setup)) (encode after) e.offset e := by
  have hsplit := exists_split_of_fails (fails_of_scan (scan_of_extractScriptBlocks_error h))
  simpa only [Nat.zero_add] using hsplit

theorem extractScriptBlocks_of_defect {pieces : List Piece}
    (hsource : source.toList = before ++ after) (hoffset : byteLength before = e.offset)
    (hblocks : extractScriptBlocks (String.ofList before) = .ok blocks)
    (htiled : Tiled (encode before) pieces)
    (hdefect : Defect (blocks.map (·.setup)) (encode after) e.offset e) :
    extractScriptBlocks source = .error e := by
  obtain ⟨ranges, hscan, rfl⟩ := exists_ranges hblocks
  rw [Text.bytes_ofList] at hscan
  rw [map_setup_ofRange, ← hoffset, ← Text.length_encode,
    ← Nat.zero_add (encode before).length] at hdefect
  have hbytes : Text.bytes source = encode before ++ encode after := by
    rw [← Text.encode_append, ← hsource]
    rfl
  rw [extractScriptBlocks, hbytes,
    scan_eq_error_iff.mpr ⟨_, _, pieces, ranges, rfl, htiled, hscan, hdefect⟩]
  rfl

/-- A file has an error exactly when at its offset a script opens with that defect, while
the text in front of it has no error itself and is read to its end outside of any comment,
tag or block.  A script is defective that is never closed, for want of a `>` outside quotes
or else of a closing tag, or that is complete and a second one of its kind; one that is both
is reported as not closed. -/
theorem extractScriptBlocks_eq_error_iff (hsize : byteLength source.toList < UInt32.size) :
    extractScriptBlocks source = .error e ↔
      e.offset < UInt32.size ∧ ∃ before after blocks pieces,
        source.toList = before ++ after ∧ byteLength before = e.offset ∧
        extractScriptBlocks (String.ofList before) = .ok blocks ∧
        Tiled (encode before) pieces ∧
        isScriptOpen (encode after) = true ∧
        Defect (blocks.map (·.setup)) (encode after) e.offset e := by
  constructor
  · intro h
    obtain ⟨before, after, pieces, ranges, hsource, hoffset, hscan, htiled, hdefect⟩ :=
      exists_defect h
    have hle : byteLength before ≤ byteLength source.toList := by
      rw [hsource, Text.byteLength_append]
      exact Nat.le_add_right _ _
    refine ⟨by omega, before, after, _, pieces, hsource, hoffset,
      extractScriptBlocks_of_scan hscan, htiled, hdefect.isScriptOpen, ?_⟩
    rw [map_setup_ofRange]
    exact hdefect
  · rintro ⟨-, before, after, blocks, pieces, hsource, hoffset, hblocks, htiled, -, hdefect⟩
    exact extractScriptBlocks_of_defect hsource hoffset hblocks htiled hdefect

end

/-! ## An example -/

/-- Behind a comment that hides a script there is one without an end; it is the error,
and not the quote in it that stays open. -/
theorem extractScriptBlocks_eq_error_iff_unclosed :
    extractScriptBlocks "<!--<script>--><script>é\"" = .error (.unclosed 15) := by
  have hfront : Piece.front (encode "<!--<script>-->".toList) = .comment 15 := by decide
  have hblocks : extractScriptBlocks (String.ofList "<!--<script>-->".toList) = .ok [] := by
    have hscan : scan 0 (encode "<!--<script>-->".toList) [] = .ok [] := by
      rw [scan_of_comment hfront, List.drop_eq_nil_of_le (by decide), scan_nil]
    exact extractScriptBlocks_of_scan hscan
  have htiled : Tiled (encode "<!--<script>-->".toList) [.comment 15] := by
    refine .cons (by decide) (Piece.front_eq_iff.mp hfront) (by simp [Piece.Stops]) ?_
    rw [List.drop_eq_nil_of_le (by decide)]
    exact .nil
  have hstands : Stands (encode "<script>é\"".toList) .unclosed :=
    Piece.front_eq_iff.mp (by decide)
  exact (extractScriptBlocks_eq_error_iff (by decide)).mpr
    ⟨by decide, _, "<script>é\"".toList, [], _, rfl, by decide, hblocks, htiled, by decide,
      .unclosed hstands⟩

end EmitLint.Sfc
