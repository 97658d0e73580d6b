/-
# The two spellings of an external script

A script whose text stands in another file is written with a slash at the end of its tag,
or with nothing between its tags.  The first spelling is passed over.  The second is a
block like any other, with an empty text: what decides is the byte in front of the `>`,
and neither the attributes nor the content.  Main statement: `spellings_agree_iff`.
Behind the second spelling no script of its kind can stand, so the two agree only where
both are errors.
-/
import EmitLint.Proofs.Sfc.Errors

namespace EmitLint.Sfc

open Text (encode byteLength)

/-! ## One more block in front -/

namespace Defect

variable {flags flags' : List Bool} {bs : List UInt8} {offset : Nat} {e : ScriptError}

theorem mono (hflags : flags ⊆ flags') (h : Defect flags bs offset e) :
    Defect flags' bs offset e := by
  cases h with
  | unclosed hstands => exact .unclosed hstands
  | duplicate hstands hflag => exact .duplicate hstands (hflags hflag)

theorem shift (h : Defect flags bs offset e) (n : Nat) :
    Defect flags bs (offset + n) (e.shift n) := by
  cases h with
  | unclosed hstands => exact .unclosed hstands
  | duplicate hstands hflag => exact .duplicate hstands hflag

end Defect

section
variable {bs xs rest : List UInt8} {pos : Nat} {found ranges : List BlockRange} {r : BlockRange}
  {e : ScriptError} {pieces : List Piece}

/-- With one more block in front the same blocks are found, unless one of them is of its
kind: that one is then reported. -/
theorem scan_cons (h : scan pos bs found = .ok ranges) (hr : r.setup ∉ found.map (·.setup)) :
    r.setup ∉ ranges.map (·.setup) ∧ scan pos bs (r :: found) = .ok (r :: ranges) ∨
      r.setup ∈ ranges.map (·.setup) ∧
        ∃ offset, scan pos bs (r :: found) = .error (.duplicate r.setup offset) := by
  fun_induction scan pos bs found with
  | case1 pos found =>
      obtain rfl := Except.ok.inj h
      exact .inl ⟨hr, scan_nil pos _⟩
  | case2 pos bs found _ hp =>
      obtain rfl := Except.ok.inj h
      exact .inl ⟨hr, scan_of_openComment hp⟩
  | case3 | case4 => cases h
  | case5 pos bs found _ tag content hp block hnew =>
      rename_i n ih
      rw [any_setup_iff] at hnew
      by_cases hsame : block.setup = r.setup
      · obtain ⟨more, rfl, -⟩ := found_of_scan h
        refine .inr ⟨?_, pos, ?_⟩
        · rw [← hsame, List.map_append, List.map_append]
          exact List.mem_append_left _ (List.mem_append_right _ List.mem_cons_self)
        · rw [← hsame, scan_of_element hp]
          exact if_pos (List.mem_cons.mpr (.inl hsame))
      · have hstep : scan pos bs (r :: found) =
            scan (pos + n) (bs.drop n) (r :: (found ++ [block])) :=
          scan_of_new_element hp fun hmem => (List.mem_cons.mp hmem).elim hsame hnew
        rw [hstep]
        refine ih h ?_
        rw [List.map_append, List.mem_append, not_or]
        exact ⟨hr, fun hmem => hsame (List.mem_singleton.mp hmem).symm⟩
  | case6 pos bs found _ n hp ih =>
      rw [scan_of_comment hp]
      exact ih h hr
  | case7 pos bs found _ n hp ih =>
      rw [scan_of_external hp]
      exact ih h hr
  | case8 pos bs found hbs hp ih =>
      rw [scan_of_text hbs hp]
      exact ih h hr

/-- A defect stays the first one, unless a block in front of it is now a second one. -/
theorem scan_cons_of_defect (hxs : Tiled xs pieces) (hscan : scan pos xs found = .ok ranges)
    (hdefect : Defect (ranges.map (·.setup)) rest (pos + xs.length) e)
    (hr : r.setup ∉ found.map (·.setup)) :
    r.setup ∉ ranges.map (·.setup) ∧ scan pos (xs ++ rest) (r :: found) = .error e ∨
      r.setup ∈ ranges.map (·.setup) ∧
        ∃ offset, scan pos (xs ++ rest) (r :: found) = .error (.duplicate r.setup offset) := by
  rw [scan_append_of_tiled hxs (head?_of_isScriptOpen hdefect.isScriptOpen)]
  rcases scan_cons hscan hr with ⟨hnew, hmore⟩ | ⟨hrepeated, offset, hmore⟩
  · refine .inl ⟨hnew, ?_⟩
    rw [hmore]
    exact scan_of_defect (hdefect.mono (List.subset_cons_self _ _))
  · refine .inr ⟨hrepeated, offset, ?_⟩
    rw [hmore]
    rfl

end

/-! ## The two spellings -/

open Written (Tag Part)

/-- A file with an external script that has a closing tag. -/
def emptied (before : List Char) (t : Tag) (after : List Char) : List Char :=
  before ++ t.front ++ "></script>".toList ++ after

/-- The same file with a slash in place of the closing tag. -/
def selfClosed (before : List Char) (t : Tag) (after : List Char) : List Char :=
  before ++ t.front ++ " />".toList ++ after

section
variable {before after : List Char} {t : Tag} {blocks : List ScriptBlock} {e : ScriptError}

/-- The spelling with a slash leaves nothing behind. -/
theorem scan_selfClosed (hbefore : '<' ∉ before) (t : Tag) (after : List Char) :
    scan 0 (encode (selfClosed before t after)) [] =
      scan (byteLength (before ++ t.front ++ " />".toList)) (encode after) [] := by
  have htag : Written.IsTag t.name (t.attributeText ++ " /".toList) := by
    have hblank : encode " /".toList = 32 :: encode ['/'] := by decide
    refine (Written.IsTag.of_tag t).append ⟨t.spells, ?_, ?_⟩
    · rw [hblank]
      exact .byte (by decide) (by decide) (by decide) (Written.isTag_slash t.spells).closed
    · rw [hblank]
      rintro b ⟨⟩
      decide
  have hfront : t.front ++ " />".toList =
      Written.tagFront t.name (t.attributeText ++ " /".toList) ++ ['>'] := by
    simp [Tag.front, Written.tagFront]
  have hlast : (t.attributeText ++ " /".toList).getLast? = some '/' := by simp
  have hstands := @Written.stands_slashed _ _ (encode after) htag hlast
  rw [← hfront, ← Piece.front_eq_iff] at hstands
  rw [selfClosed, List.append_assoc before, List.append_assoc before, Text.encode_append,
    Text.encode_append, Written.scan_text hbefore, Nat.zero_add, scan_of_external hstands,
    ← Text.length_encode (t.front ++ _), List.drop_left, Text.length_encode,
    Text.byteLength_append before]

/-- The other one leaves an empty block. -/
theorem scan_emptied (hquoted : t.Quoted) (hbefore : '<' ∉ before) (after : List Char) :
    ∃ r, ScriptBlock.ofRange (String.ofList (emptied before t after)) r =
        ⟨"", byteLength before + byteLength t.front + 1, t.setup, t.lang⟩ ∧
      scan 0 (encode (emptied before t after)) [] =
        scan (byteLength (before ++ t.front ++ "></script>".toList)) (encode after) [r] := by
  have hwritten : (Part.element t [] "script".toList
      (Written.getLast?_attributeText hquoted)).written = t.front ++ "></script>".toList := rfl
  have hsource : (String.ofList (emptied before t after)).toList =
      before ++ (t.front ++ "></script>".toList) ++ after := by
    rw [String.toList_ofList, emptied, List.append_assoc before]
  obtain ⟨r, hr, hscan⟩ := Written.scan_of_block [] (encode after) (hwritten ▸ hsource) rfl
  refine ⟨r, hr, ?_⟩
  simp only [List.map_nil, List.not_mem_nil, if_false, List.nil_append, hwritten] at hscan
  rw [emptied, List.append_assoc before, Text.encode_append, Text.encode_append,
    List.append_assoc (encode before), Written.scan_text hbefore, Nat.zero_add, hscan]

theorem byteLength_emptied (before : List Char) (t : Tag) :
    byteLength (before ++ t.front ++ "></script>".toList) =
      byteLength (before ++ t.front ++ " />".toList) + 7 := by
  rw [Text.byteLength_append, Text.byteLength_append (before ++ t.front), Nat.add_assoc]
  rfl

theorem map_setup_shift (ranges : List BlockRange) (n : Nat) :
    (ranges.map (·.shift n)).map (·.setup) = ranges.map (·.setup) := by
  rw [List.map_map]
  rfl

/-- The blocks behind an external script stay the same with the other spelling, and the
script itself is one more; unless there is one of its kind, which is then a second one. -/
theorem emptied_of_ok (hquoted : t.Quoted) (hbefore : '<' ∉ before)
    (h : extractScriptBlocks (String.ofList (selfClosed before t after)) = .ok blocks) :
    t.setup ∉ blocks.map (·.setup) ∧
        extractScriptBlocks (String.ofList (emptied before t after)) =
          .ok (⟨"", byteLength before + byteLength t.front + 1, t.setup, t.lang⟩ ::
            blocks.map (·.shift 7)) ∨
      t.setup ∈ blocks.map (·.setup) ∧ ∃ offset,
        extractScriptBlocks (String.ofList (emptied before t after)) =
          .error (.duplicate t.setup offset) := by
  obtain ⟨ranges, hscan, rfl⟩ := exists_ranges h
  obtain ⟨r, hr, hemptied⟩ := scan_emptied hquoted hbefore after
  rw [Text.bytes_ofList, scan_selfClosed hbefore] at hscan
  have hmoved := scan_moved 7 (byteLength (before ++ t.front ++ " />".toList)) (encode after) []
  rw [hscan, ← byteLength_emptied, List.map_nil] at hmoved
  have hsetup : r.setup = t.setup := congrArg ScriptBlock.setup hr
  rw [extractScriptBlocks, Text.bytes_ofList, hemptied, map_setup_ofRange, ← hsetup,
    ← map_setup_shift ranges 7]
  rcases scan_cons hmoved List.not_mem_nil with ⟨hnew, hmore⟩ | ⟨hrepeated, offset, hmore⟩
  · refine .inl ⟨hnew, ?_⟩
    obtain ⟨more, rfl, hplaces⟩ := found_of_scan hscan
    have hblocks := map_ofRange_shift (String.toList_ofList (l := selfClosed before t after))
      (String.toList_ofList (l := emptied before t after)) (byteLength_emptied before t) hplaces
    rw [hmore, Except.map, List.map_cons, hr, hblocks, hsetup]
  · refine .inr ⟨hrepeated, offset, ?_⟩
    rw [hmore]
    rfl

/-- An error behind an external script stays the first one with the other spelling, unless
there is a script of the kind of that one in front of it, which is then a second one. -/
theorem emptied_of_error (hquoted : t.Quoted) (hbefore : '<' ∉ before)
    (h : extractScriptBlocks (String.ofList (selfClosed before t after)) = .error e) :
    ∃ front back blocks, selfClosed before t after = front ++ back ∧
      byteLength front = e.offset ∧ extractScriptBlocks (String.ofList front) = .ok blocks ∧
      (t.setup ∉ blocks.map (·.setup) ∧
          extractScriptBlocks (String.ofList (emptied before t after)) = .error (e.shift 7) ∨
        t.setup ∈ blocks.map (·.setup) ∧ ∃ offset,
          extractScriptBlocks (String.ofList (emptied before t after)) =
            .error (.duplicate t.setup offset)) := by
  have hscan := scan_of_extractScriptBlocks_error h
  rw [String.toList_ofList, scan_selfClosed hbefore] at hscan
  obtain ⟨inside, back, pieces, ranges, rfl, hoffset, hinside, htiled, hdefect⟩ :=
    exists_split_of_fails (fails_of_scan hscan)
  obtain ⟨r, hr, hemptied⟩ := scan_emptied hquoted hbefore (inside ++ back)
  have hsetup : r.setup = t.setup := congrArg ScriptBlock.setup hr
  have hmoved := scan_moved 7 (byteLength (before ++ t.front ++ " />".toList)) (encode inside) []
  rw [hinside, ← byteLength_emptied, List.map_nil] at hmoved
  have hplace : e.offset + 7 =
      byteLength (before ++ t.front ++ "></script>".toList) + (encode inside).length := by
    rw [Text.length_encode, byteLength_emptied, ← hoffset, Nat.add_right_comm]
  have hdefect := hdefect.shift 7
  rw [hplace, ← map_setup_shift ranges 7] at hdefect
  have hfront : extractScriptBlocks (String.ofList (selfClosed before t inside)) =
      .ok (ranges.map (ScriptBlock.ofRange (String.ofList (selfClosed before t inside)))) :=
    extractScriptBlocks_of_scan ((scan_selfClosed hbefore t inside).trans hinside)
  refine ⟨selfClosed before t inside, back, _, ?_, ?_, hfront, ?_⟩
  · rw [selfClosed, selfClosed, List.append_assoc _ inside]
  · rw [selfClosed, Text.byteLength_append, hoffset]
  · rw [extractScriptBlocks, Text.bytes_ofList, hemptied, map_setup_ofRange, ← hsetup,
      ← map_setup_shift ranges 7, Text.encode_append]
    rcases scan_cons_of_defect (r := r) htiled hmoved hdefect List.not_mem_nil with
      ⟨hnew, hmore⟩ | ⟨hrepeated, offset, hmore⟩
    · exact .inl ⟨hnew, by rw [hmore]; rfl⟩
    · exact .inr ⟨hrepeated, offset, by rw [hmore]; rfl⟩

end

/-! ## When the spellings agree -/

/-- The kind of an error: what has come twice, or nothing if a script is not closed. -/
def ScriptError.kind : ScriptError → Option Bool
  | duplicate setup _ => some setup
  | unclosed _ => none

/-- The same blocks, `n` bytes further on, or errors of one kind. -/
inductive SameOutcome (n : Nat) :
    Except ScriptError (List ScriptBlock) → Except ScriptError (List ScriptBlock) → Prop
  | ok (blocks : List ScriptBlock) : SameOutcome n (.ok blocks) (.ok (blocks.map (·.shift n)))
  | error {e e' : ScriptError} : e.kind = e'.kind → SameOutcome n (.error e) (.error e')

section
variable {before after : List Char} {t : Tag}

theorem kind_shift (e : ScriptError) (n : Nat) : (e.shift n).kind = e.kind := by
  cases e <;> rfl

/-- A place in a text has only one text in front of it. -/
theorem append_inj_of_byteLength {front back front' back' : List Char}
    (h : front ++ back = front' ++ back') (hlength : byteLength front = byteLength front') :
    front = front' := by
  have hsplit := Text.splitAt?_append front back
  rw [h, hlength, Text.splitAt?_append] at hsplit
  exact (congrArg Prod.fst (Option.some.inj hsplit)).symm

/-- With nothing between its tags an external script is one more block, where a slash at the
end of its tag would leave none; and if there is a script of its kind behind it, that one
is reported as a second one.  So the two spellings agree exactly if the file with the slash
is an error, and in front of that no script of the kind stands, unless a second one of the
kind is the error.  Whether there is a `src` among the attributes makes no difference. -/
theorem spellings_agree_iff (hquoted : t.Quoted) (hbefore : '<' ∉ before) :
    (∀ blocks, extractScriptBlocks (String.ofList (selfClosed before t after)) = .ok blocks →
      t.setup ∉ blocks.map (·.setup) →
      extractScriptBlocks (String.ofList (emptied before t after)) =
        .ok (⟨"", byteLength before + byteLength t.front + 1, t.setup, t.lang⟩ ::
          blocks.map (·.shift 7))) ∧
    (∀ blocks, extractScriptBlocks (String.ofList (selfClosed before t after)) = .ok blocks →
      t.setup ∈ blocks.map (·.setup) → ∃ offset,
      extractScriptBlocks (String.ofList (emptied before t after)) =
        .error (.duplicate t.setup offset)) ∧
    (SameOutcome 7 (extractScriptBlocks (String.ofList (selfClosed before t after)))
        (extractScriptBlocks (String.ofList (emptied before t after))) ↔
      ∃ e front back blocks,
        extractScriptBlocks (String.ofList (selfClosed before t after)) = .error e ∧
        selfClosed before t after = front ++ back ∧ byteLength front = e.offset ∧
        extractScriptBlocks (String.ofList front) = .ok blocks ∧
        (t.setup ∈ blocks.map (·.setup) → e.kind = some t.setup)) := by
  refine ⟨fun blocks h hnew => ?_, fun blocks h hrepeated => ?_, ?_, ?_⟩
  · exact ((emptied_of_ok hquoted hbefore h).resolve_right fun hother => hnew hother.1).2
  · exact ((emptied_of_ok hquoted hbefore h).resolve_left fun hother => hother.1 hrepeated).2
  · intro hsame
    cases hclosed : extractScriptBlocks (String.ofList (selfClosed before t after)) with
    | ok blocks =>
        rw [hclosed] at hsame
        rcases emptied_of_ok hquoted hbefore hclosed with ⟨-, hmore⟩ | ⟨-, offset, hmore⟩
        · rw [hmore] at hsame
          generalize hlist : _ :: blocks.map (·.shift 7) = more at hsame
          cases hsame
          have hlength := congrArg List.length hlist
          simp at hlength
        · rw [hmore] at hsame
          cases hsame
    | error e =>
        obtain ⟨front, back, blocks, hsplit, hoffset, hblocks, hcases⟩ :=
          emptied_of_error hquoted hbefore hclosed
        refine ⟨e, front, back, blocks, rfl, hsplit, hoffset, hblocks, fun hmem => ?_⟩
        rcases hcases with ⟨hnew, -⟩ | ⟨-, offset, hmore⟩
        · exact absurd hmem hnew
        · rw [hclosed, hmore] at hsame
          cases hsame with
          | error hkind => exact hkind
  · rintro ⟨e, front, back, blocks, hclosed, hsplit, hoffset, hblocks, hkind⟩
    obtain ⟨front', back', blocks', hsplit', hoffset', hblocks', hcases⟩ :=
      emptied_of_error hquoted hbefore hclosed
    obtain rfl := append_inj_of_byteLength (hsplit.symm.trans hsplit') (hoffset.trans hoffset'.symm)
    obtain rfl := Except.ok.inj (hblocks.symm.trans hblocks')
    rw [hclosed]
    rcases hcases with ⟨-, hmore⟩ | ⟨hmem, offset, hmore⟩
    · rw [hmore]
      exact .error (kind_shift e 7).symm
    · rw [hmore]
      exact .error (hkind hmem)

end

/-! ## An example -/

theorem exists_externalTag :
    ∃ t : Tag, t.Quoted ∧ t.front = "<script src=\"./a.ts\"".toList ∧ t.setup = false :=
  ⟨⟨"script".toList, [⟨[' '], "src".toList, some (.double "./a.ts".toList), by decide, by decide,
    by decide, by decide⟩], by decide⟩, by decide, by decide, by decide⟩

theorem ofList_emptied {t : Tag} {front : String} (h : t.front = front.toList) (after : String) :
    String.ofList (emptied [] t after.toList) = front ++ "></script>" ++ after := by
  rw [emptied, h, List.nil_append, String.ofList_append, String.ofList_append,
    String.ofList_toList, String.ofList_toList, String.ofList_toList]

theorem ofList_selfClosed {t : Tag} {front : String} (h : t.front = front.toList)
    (after : String) :
    String.ofList (selfClosed [] t after.toList) = front ++ " />" ++ after := by
  rw [selfClosed, h, List.nil_append, String.ofList_append, String.ofList_append,
    String.ofList_toList, String.ofList_toList, String.ofList_toList]

theorem scan_bare (pos : Nat) (found : List BlockRange) :
    scan pos (encode "<script>b</script>".toList) found =
      if false ∈ found.map (·.setup) then .error (.duplicate false pos)
      else .ok (found ++ [⟨pos, ⟨pos + 8, pos + 8 + 1⟩, false, none⟩]) := by
  have hfront : Piece.front (encode "<script>b</script>".toList) = .element 8 1 := by decide
  rw [scan_of_element hfront, ofElement_bare]
  dsimp only
  rw [List.drop_eq_nil_of_le (by decide), scan_nil]

theorem selfClosed_script :
    extractScriptBlocks ("<script src=\"./a.ts\"" ++ " />" ++ "<script>b</script>") =
      .ok [⟨"b", 31, false, none⟩] := by
  obtain ⟨t, -, hfront, -⟩ := exists_externalTag
  have hplace : byteLength ([] ++ t.front ++ " />".toList) = 23 := by
    rw [hfront]
    decide
  have hblock : ScriptBlock.ofRange ("<script src=\"./a.ts\"" ++ " />" ++ "<script>b</script>")
      ⟨23, ⟨31, 32⟩, false, none⟩ = ⟨"b", 31, false, none⟩ := by
    decide
  rw [← hblock, ← ofList_selfClosed hfront, extractScriptBlocks, Text.bytes_ofList,
    scan_selfClosed List.not_mem_nil, hplace, scan_bare, if_neg (by simp)]
  rfl

/-- A script from another file, with a closing tag, is a block, and makes the script of the
file a second one. -/
theorem emptied_script :
    extractScriptBlocks ("<script src=\"./a.ts\"" ++ "></script>" ++ "<script>b</script>") =
        .error (.duplicate false 30) ∧
      extractScriptBlocks ("<script src=\"./a.ts\"" ++ " />" ++ "<script>b</script>") =
        .ok [⟨"b", 31, false, none⟩] := by
  refine ⟨?_, selfClosed_script⟩
  obtain ⟨t, hquoted, hfront, hsetup⟩ := exists_externalTag
  obtain ⟨r, hr, hscan⟩ := scan_emptied hquoted List.not_mem_nil "<script>b</script>".toList
  have hflag : r.setup = false := (congrArg ScriptBlock.setup hr).trans hsetup
  have hplace : byteLength ([] ++ t.front ++ "></script>".toList) = 30 := by
    rw [hfront]
    decide
  rw [← ofList_emptied hfront, extractScriptBlocks, Text.bytes_ofList, hscan, hplace, scan_bare,
    if_pos (by simp [hflag])]
  rfl

/-- A script behind the external one is a second one.  If it is not closed, that is the error
with either spelling. -/
theorem spellings_agree_iff_external :
    (∃ offset,
      extractScriptBlocks ("<script src=\"./a.ts\"" ++ "></script>" ++ "<script>b</script>") =
        .error (.duplicate false offset)) ∧
    SameOutcome 7
      (extractScriptBlocks ("<script src=\"./a.ts\"" ++ " />" ++ "<script>"))
      (extractScriptBlocks ("<script src=\"./a.ts\"" ++ "></script>" ++ "<script>")) := by
  obtain ⟨t, hquoted, hfront, hsetup⟩ := exists_externalTag
  have hbefore : '<' ∉ ([] : List Char) := List.not_mem_nil
  rw [← ofList_emptied hfront, ← ofList_emptied hfront, ← ofList_selfClosed hfront, ← hsetup]
  constructor
  · refine (spellings_agree_iff hquoted hbefore).2.1 [⟨"b", 31, false, none⟩] ?_ ?_
    · rw [ofList_selfClosed hfront]
      exact selfClosed_script
    · rw [hsetup]
      decide
  · have hplace : byteLength ([] ++ t.front ++ " />".toList) = 23 := by
      rw [hfront]
      decide
    have hunclosed : Piece.front (encode "<script>".toList) = .unclosed := by decide
    refine (spellings_agree_iff hquoted hbefore).2.2.mpr
      ⟨.unclosed 23, selfClosed [] t [], "<script>".toList, [], ?_, ?_, ?_, ?_, ?_⟩
    · rw [extractScriptBlocks, Text.bytes_ofList, scan_selfClosed hbefore, hplace,
        scan_of_unclosed hunclosed]
      rfl
    · simp [selfClosed]
    · rw [selfClosed, List.append_nil, hplace]
      rfl
    · rw [extractScriptBlocks, Text.bytes_ofList, scan_selfClosed hbefore, Text.encode_nil,
        scan_nil]
      rfl
    · exact fun h => absurd h List.not_mem_nil

end EmitLint.Sfc
