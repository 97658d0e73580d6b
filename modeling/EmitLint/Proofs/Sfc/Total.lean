/-
# The scan never looks where nothing is

The loop of `Proofs/Sfc/Cursor.lean` over the file against the scan.  Main statement:
`extract?_eq`.  On every text the scan with its accesses checked ends, none of them
fails, and the answer is that of the scan.

For the bytes the reason is that a loop tests its position before it looks.  For the
pieces it is that the attributes and the content of a script are cut between ASCII
bytes: the one behind `<script` and the `>` of the tag, that `>` and a `<`.
-/
import EmitLint.Proofs.Sfc.RoundTrip
import EmitLint.Proofs.Sfc.Turns

namespace EmitLint.Sfc.Cursor

open Text (encode)

/-! ## Where a tag is cut -/

section
variable {bs : List UInt8} {cs : List Char} {source : String} {pos tagEnd n : Nat}

theorem getElem?_of_tagEnd (h : Sfc.tagEnd .plain bs = some n) : bs[n]? = some 62 := by
  obtain ⟨text, rest, rfl, -, rfl⟩ := tagEnd_eq_some_iff.mp h
  rw [List.getElem?_append_right (Nat.le_refl _), Nat.sub_self]
  rfl

theorem getElem?_of_findClose (h : findClose bs = some n) : bs[n]? = some 60 := by
  have hcloses := head?_of_closes (findClose_eq_some_iff.mp h).1
  rwa [List.head?_drop] at hcloses

theorem lt_of_isScriptOpen (h : isScriptOpen (bs.drop pos) = true) : pos < bs.length := by
  refine Nat.lt_of_not_le ?_
  intro hend
  rw [List.drop_eq_nil_of_le hend] at h
  cases h

/-- The name of a script is followed by an ASCII byte. -/
theorem isPlace_of_isScriptOpen (h : isScriptOpen ((encode cs).drop pos) = true) :
    IsPlace cs (pos + Mark.script.length) := by
  rw [isScriptOpen, Bool.and_eq_true] at h
  obtain ⟨-, hnext⟩ := h
  split at hnext
  · rename_i b hb
    rw [List.getElem?_drop] at hb
    refine isPlace_of_ascii hb ?_
    simp only [Bool.or_eq_true, beq_iff_eq] at hnext
    rcases hnext with ((((rfl | rfl) | rfl) | rfl) | rfl) | rfl <;> decide
  · cases hnext

/-- A script opens at `pos`, and its tag ends with the `>` at `tagEnd`. -/
structure TagAt (source : String) (pos tagEnd : Nat) : Prop where
  attrs : IsPiece source.toList ⟨pos + Mark.script.length, tagEnd⟩
  stop : (Text.bytes source)[tagEnd]? = some 62
  front : Piece.front ((Text.bytes source).drop pos) =
    if (Text.bytes source)[tagEnd - 1]? = some 47 then .external (tagEnd + 1 - pos)
    else (findClose ((Text.bytes source).drop (tagEnd + 1))).elim .unclosed
      (.element (tagEnd + 1 - pos))

theorem tagAt_of_tagEnd (hopen : isScriptOpen ((Text.bytes source).drop pos) = true)
    (hend : Sfc.tagEnd .plain ((Text.bytes source).drop (pos + Mark.script.length)) = some n) :
    TagAt source pos (pos + Mark.script.length + n) := by
  have hstop := getElem?_of_tagEnd hend
  rw [List.getElem?_drop] at hstop
  refine ⟨⟨Nat.le_add_right _ _, isPlace_of_isScriptOpen hopen,
    isPlace_of_ascii hstop (by decide)⟩, hstop, ?_⟩
  rw [← List.drop_drop] at hend
  have hlength : pos + Mark.script.length + n + 1 - pos = Mark.script.length + n + 1 := by omega
  have hbehind : pos + (Mark.script.length + n + 1) = pos + Mark.script.length + n + 1 := by omega
  have hlast :
      pos + (Mark.script.length + n + 1 - 2) = pos + Mark.script.length + n - 1 := by
    rw [Mark.length_script]
    omega
  rw [Piece.front_of_openingTag ((Piece.tagEnd_iff_openingTag hopen).mp hend), hlength,
    List.getElem?_drop, hlast, List.drop_drop, hbehind]

theorem TagAt.lt (h : TagAt source pos tagEnd) : pos + Mark.script.length ≤ tagEnd :=
  h.attrs.forwards

/-- In front of the `>` stands a byte. -/
theorem TagAt.before? (h : TagAt source pos tagEnd) :
    ∃ b, before? (Text.bytes source) tagEnd = some b ∧
      (Text.bytes source)[tagEnd - 1]? = some b := by
  obtain ⟨hinside, -⟩ := List.getElem?_eq_some_iff.mp h.stop
  have hpos : 0 < tagEnd := Nat.lt_of_lt_of_le (by rw [Mark.length_script]; omega) h.lt
  have hlast : tagEnd - 1 < (Text.bytes source).length := by omega
  obtain ⟨b, hb, -⟩ := exists_byte hlast
  exact ⟨b, (if_pos hpos).trans hb, hb⟩

theorem TagAt.content {content : Nat} (h : TagAt source pos tagEnd)
    (hclose : findClose ((Text.bytes source).drop (tagEnd + 1)) = some content) :
    IsPiece source.toList ⟨tagEnd + 1, tagEnd + 1 + content⟩ := by
  have hbehind := getElem?_of_findClose hclose
  rw [List.getElem?_drop] at hbehind
  exact ⟨Nat.le_add_right _ _, isPlace_succ_of_ascii h.stop (by decide),
    isPlace_of_ascii hbehind (by decide)⟩

/-- The block of an element, cut out of the file piece by piece. -/
theorem TagAt.ofRange_ofElement (h : TagAt source pos tagEnd) (content : Nat) :
    let attrs := piece source.toList ⟨pos + Mark.script.length, tagEnd⟩
    ScriptBlock.ofRange source (BlockRange.ofElement ((Text.bytes source).drop pos) pos
        (tagEnd + 1 - pos) content) =
      ⟨String.ofList (piece source.toList ⟨tagEnd + 1, tagEnd + 1 + content⟩), tagEnd + 1,
        hasSetup (encode attrs),
        ((langRange (encode attrs)).map (piece attrs)).map String.ofList⟩ := by
  have hle := h.lt
  have htext : Piece.attributeText ((Text.bytes source).drop pos) (tagEnd + 1 - pos) =
      encode (piece source.toList ⟨pos + Mark.script.length, tagEnd⟩) := by
    have hlength : tagEnd + 1 - pos - 1 - Mark.script.length =
        tagEnd - (pos + Mark.script.length) := by omega
    rw [h.attrs.encode_piece, Piece.attributeText, bytesIn, List.drop_drop, hlength]
    rfl
  have hstart : pos + (tagEnd + 1 - pos) = tagEnd + 1 := by omega
  rw [BlockRange.ofElement, htext, ScriptBlock.ofRange]
  simp only [hstart, ScriptBlock.mk.injEq, true_and]
  refine ⟨rfl, ?_⟩
  cases hlang : langRange (encode (piece source.toList ⟨pos + Mark.script.length, tagEnd⟩)) with
  | none => rfl
  | some r =>
      rw [Option.map_some, Option.map_some, Option.map_some, Option.map_some,
        ← piece_piece h.attrs (isPiece_of_langRange hlang)]
      rfl

end

/-! ## Scripts -/

section
variable {source : String} {s : Progress} {found : List BlockRange} {tagEnd : Nat}
  {answer : Except ScriptError (List ScriptBlock)}

/-- What the scan answers from here on. -/
def due (source : String) (pos : Nat) (found : List BlockRange) :
    Except ScriptError (List ScriptBlock) :=
  (scan pos ((Text.bytes source).drop pos) found).map fun ranges =>
    ranges.map (ScriptBlock.ofRange source)

theorem due_of_scan {pos n : Nat} {more : List BlockRange}
    (h : scan pos ((Text.bytes source).drop pos) found =
      scan (pos + n) (((Text.bytes source).drop pos).drop n) more) :
    due source pos found = due source (pos + n) more := by
  rw [due, h, List.drop_drop]
  rfl

/-- The blocks are those of the ranges found, and from here on the answer is due. -/
def Owes (source : String) (answer : Except ScriptError (List ScriptBlock)) (s : Progress) :
    Prop :=
  ∃ found, s.blocks = found.map (ScriptBlock.ofRange source) ∧ due source s.pos found = answer

/-- Behind its tag a script is read without a failure. -/
theorem elementTurn_eq (h : TagAt source s.pos tagEnd) :
    elementTurn source tagEnd s =
      some ((findClose ((Text.bytes source).drop (tagEnd + 1))).elim
        (.done (.error (.unclosed s.pos))) fun content =>
          let block := ScriptBlock.ofRange source (BlockRange.ofElement
            ((Text.bytes source).drop s.pos) s.pos (tagEnd + 1 - s.pos) content)
          if s.blocks.any (·.setup == block.setup) then
            .done (.error (.duplicate block.setup s.pos))
          else
            .onward ⟨tagEnd + 1 + content + Mark.scriptEnd.length, s.blocks ++ [block]⟩) := by
  rw [elementTurn, h.attrs.slice?]
  simp only [attributes?_eq, close?_eq, Option.bind_eq_bind, Option.bind_some]
  cases hclose : findClose ((Text.bytes source).drop (tagEnd + 1)) with
  | none => rfl
  | some content =>
      have hcontent := (h.content hclose).slice?
      simp only [Option.map_some, hcontent, Option.bind_some, Option.elim_some,
        h.ofRange_ofElement]
      split <;> rfl

/-- Behind its tag a script is taken off whole, or it ends the scan. -/
theorem elementTurn_keeps (h : TagAt source s.pos tagEnd)
    (hopened : (Text.bytes source)[tagEnd - 1]? ≠ some 47) (hs : Owes source answer s) :
    Keeps (elementTurn source tagEnd) Progress.pos (Text.bytes source).length
      (Owes source answer) answer s := by
  obtain ⟨found, hblocks, rfl⟩ := hs
  have hle := h.lt
  have hfront := h.front
  rw [if_neg hopened] at hfront
  rw [Keeps, elementTurn_eq h]
  cases hclose : findClose ((Text.bytes source).drop (tagEnd + 1)) with
  | none =>
      rw [hclose] at hfront
      rw [due, scan_of_unclosed hfront]
      exact .inl rfl
  | some content =>
      rw [hclose] at hfront
      have hscan : scan s.pos _ found = _ := scan_of_element hfront
      simp only [Option.elim_some]
      generalize BlockRange.ofElement ((Text.bytes source).drop s.pos) s.pos
        (tagEnd + 1 - s.pos) content = block at hscan ⊢
      have hsetup : s.blocks.any (·.setup == (ScriptBlock.ofRange source block).setup) = true ↔
          block.setup ∈ found.map (·.setup) := by
        rw [hblocks, List.any_map]
        exact any_setup_iff
      by_cases hdouble : block.setup ∈ found.map (·.setup)
      · rw [if_pos (hsetup.mpr hdouble)]
        simp only [if_pos hdouble] at hscan
        rw [due, hscan]
        exact .inl rfl
      · rw [if_neg (mt hsetup.mp hdouble)]
        simp only [if_neg hdouble] at hscan
        obtain ⟨hinside, -⟩ := List.getElem?_eq_some_iff.mp h.stop
        have hnext : s.pos + (Piece.element (tagEnd + 1 - s.pos) content).length =
            tagEnd + 1 + content + Mark.scriptEnd.length := by
          rw [Piece.length]
          omega
        refine .inr ⟨_, rfl, by omega, ?_, found ++ [block], ?_, ?_⟩
        · show s.pos < tagEnd + 1 + content + Mark.scriptEnd.length
          omega
        · rw [List.map_append, hblocks]
          rfl
        · rw [due_of_scan hscan, hnext]

/-- A script that opens is taken off whole, or it ends the scan. -/
theorem scriptTurn_keeps (hopen : isScriptOpen ((Text.bytes source).drop s.pos) = true)
    (hs : Owes source answer s) :
    Keeps (scriptTurn source) Progress.pos (Text.bytes source).length (Owes source answer)
      answer s := by
  rw [Keeps, scriptTurn, tagEnd?_eq]
  simp only [Option.bind_eq_bind, Option.bind_some]
  cases hend : Sfc.tagEnd .plain ((Text.bytes source).drop (s.pos + Mark.script.length)) with
  | none =>
      obtain ⟨found, -, rfl⟩ := hs
      have hfront := Piece.front_of_isScriptOpen hopen
      rw [Piece.ofScriptOpen, List.drop_drop, hend] at hfront
      rw [due, scan_of_unclosed hfront]
      exact .inl rfl
  | some n =>
      have htag := tagAt_of_tagEnd hopen hend
      obtain ⟨b, hbefore, hb⟩ := htag.before?
      simp only [Option.map_some, hbefore, Option.bind_some]
      by_cases hslash : b = 47
      · obtain ⟨found, hblocks, rfl⟩ := hs
        have hfront := htag.front
        rw [hb, if_pos (congrArg some hslash)] at hfront
        have hle := htag.lt
        have hnext : s.pos + (s.pos + Mark.script.length + n + 1 - s.pos) =
            s.pos + Mark.script.length + n + 1 := by omega
        rw [if_pos hslash]
        refine .inr ⟨_, rfl, lt_of_isScriptOpen hopen, ?_, found, hblocks, ?_⟩
        · show s.pos < s.pos + Mark.script.length + n + 1
          omega
        · rw [due_of_scan (scan_of_external hfront), hnext]
      · rw [if_neg hslash]
        refine elementTurn_keeps htag ?_ hs
        rw [hb]
        exact fun h => hslash (Option.some.inj h)

/-! ## The file -/

/-- The scan passes whatever stands in front of the next `<`. -/
theorem scan_of_findByte (pos : Nat) (bs : List UInt8) (found : List BlockRange) :
    scan pos bs found =
      (findByte 60 bs).elim (.ok found) fun n => scan (pos + n) (bs.drop n) found := by
  induction bs generalizing pos with
  | nil => exact scan_nil pos found
  | cons b bs ih =>
      rw [findByte]
      by_cases hb : b = 60
      · rw [if_pos hb]
        rfl
      · rw [if_neg hb, scan_of_text (List.cons_ne_nil b bs) (Written.front_eq_text hb),
          List.drop_one, List.tail_cons, ih]
        cases findByte 60 bs with
        | none => rfl
        | some n =>
            simp only [Option.map_some, Option.elim_some, List.drop_succ_cons]
            rw [Nat.add_assoc, Nat.add_comm 1]

theorem front_of_not_isScriptOpen {bs : List UInt8} (hcomment : ¬ Mark.comment <+: bs)
    (hopen : isScriptOpen bs = false) : Piece.front bs = .text :=
  Piece.front_eq_iff.mpr (.text hcomment hopen)

/-- What stands at a `<` is taken off, or it ends the scan. -/
theorem markTurn_keeps
    (hinside : s.pos < (Text.bytes source).length) (hs : Owes source answer s) :
    Keeps (markTurn source) Progress.pos (Text.bytes source).length (Owes source answer)
      answer s := by
  rw [Keeps, markTurn, rest?_of_le (Nat.le_of_lt hinside)]
  simp only [Option.bind_eq_bind, Option.bind_some, opens?_eq, List.isPrefixOf_iff_prefix]
  by_cases hcomment : Mark.comment <+: (Text.bytes source).drop s.pos
  · obtain ⟨found, hblocks, rfl⟩ := hs
    have hfront := Piece.front_of_comment hcomment
    rw [if_pos hcomment, rest?_of_le hcomment.length_le]
    simp only [Option.bind_some]
    cases hend : findWord Mark.commentEnd
        (((Text.bytes source).drop s.pos).drop Mark.comment.length) with
    | none =>
        rw [hend] at hfront
        rw [due, scan_of_openComment hfront, hblocks]
        exact .inl rfl
    | some n =>
        rw [hend] at hfront
        refine .inr ⟨_, rfl, hinside, ?_, found, hblocks, ?_⟩
        · exact Nat.lt_add_of_pos_right (by rw [Mark.length_comment]; omega)
        · exact (due_of_scan (scan_of_comment hfront)).symm
  · rw [if_neg hcomment]
    by_cases hopen : isScriptOpen ((Text.bytes source).drop s.pos) = true
    · rw [if_pos hopen]
      exact scriptTurn_keeps hopen hs
    · rw [if_neg hopen]
      obtain ⟨found, hblocks, rfl⟩ := hs
      have hfront := front_of_not_isScriptOpen hcomment (Bool.eq_false_iff.mpr hopen)
      have hne : (Text.bytes source).drop s.pos ≠ [] := by
        rw [ne_eq, List.drop_eq_nil_iff]
        omega
      refine .inr ⟨_, rfl, hinside, Nat.lt_succ_self _, found, hblocks, ?_⟩
      exact (due_of_scan (scan_of_text hne hfront)).symm

/-- From one `<` to the next the answer stays the same. -/
theorem scanTurn_keeps (hs : Owes source answer s) :
    Keeps (scanTurn source) Progress.pos (Text.bytes source).length (Owes source answer)
      answer s := by
  obtain ⟨found, hblocks, hdue⟩ := hs
  rw [Keeps, scanTurn]
  by_cases hinside : s.pos < (Text.bytes source).length
  · have hscan := scan_of_findByte s.pos ((Text.bytes source).drop s.pos) found
    rw [if_pos hinside, rest?_of_le (Nat.le_of_lt hinside)]
    simp only [Option.bind_eq_bind, Option.bind_some]
    cases hfound : findByte 60 ((Text.bytes source).drop s.pos) with
    | none =>
        rw [hfound] at hscan
        rw [← hdue, due, hscan, hblocks]
        exact .inl rfl
    | some n =>
        rw [hfound] at hscan
        have hn := findByte_lt hfound
        rw [List.length_drop] at hn
        have hthere : Owes source answer ⟨s.pos + n, s.blocks⟩ :=
          ⟨found, hblocks, (due_of_scan hscan).symm.trans hdue⟩
        have hmark : s.pos + n < (Text.bytes source).length := by omega
        refine (markTurn_keeps hmark hthere).imp_right ?_
        rintro ⟨next, hturn, -, hforwards, hnext⟩
        exact ⟨next, hturn, hinside, Nat.lt_of_le_of_lt (Nat.le_add_right _ _) hforwards, hnext⟩
  · rw [if_neg hinside, ← hdue, due, List.drop_eq_nil_of_le (Nat.le_of_not_lt hinside), scan_nil,
      hblocks]
    exact .inl rfl

theorem runs_scanTurn (source : String) :
    Runs (scanTurn source) Progress.pos (Text.bytes source).length ⟨0, []⟩
      (extractScriptBlocks source) := by
  refine runs_of_keeps (Owes source (extractScriptBlocks source))
    (fun s hs => scanTurn_keeps hs) ⟨[], rfl, ?_⟩
  rw [due, List.drop_zero]
  rfl

end

/-- Every text is scanned to its end, and no access on the way fails.  With a position in
the text, each byte looked up and each piece cut out, the scan gives the same blocks or
the same error.  Each of its loops moves forwards with every turn until it ends: that
over the file, those for the end of a tag, for the closing tag and for a run of bytes,
wherever they begin, and that over the attributes of any text.  The names and values of
these attributes are pieces of it. -/
theorem extract?_eq (source : String) :
    extract? source = some (extractScriptBlocks source) ∧
    Runs (scanTurn source) Progress.pos (Text.bytes source).length ⟨0, []⟩
      (extractScriptBlocks source) ∧
    (∀ bs pos,
      Runs (tagEndTurn bs) id bs.length pos ((tagEnd .plain (bs.drop pos)).map (pos + ·)) ∧
      Runs (closeTurn bs) id bs.length pos ((findClose (bs.drop pos)).map (pos + ·)) ∧
      ∀ p, Runs (skipTurn bs p) id bs.length pos (pos + runLength p (bs.drop pos))) ∧
    ∀ attrs,
      Runs (attributeTurn attrs) Reading.pos (encode attrs).length ⟨0, false, none⟩
        (hasSetup (encode attrs), (langRange (encode attrs)).map (piece attrs)) ∧
      ∀ a ∈ attributes (encode attrs),
        IsPiece attrs a.name ∧ ∀ v, a.value = some v → IsPiece attrs v := by
  refine ⟨?_, runs_scanTurn source, fun bs pos => ⟨runs_tagEndTurn bs pos, runs_closeTurn bs pos,
    fun p => runs_skipTurn bs p pos⟩, fun attrs => ⟨?_, isPiece_of_mem_attributes attrs⟩⟩
  · exact run_of_runs (runs_scanTurn source) (Nat.lt_succ_of_le (Nat.sub_le _ _))
  · rw [← noted_start]
    exact runs_attributeTurn attrs

end EmitLint.Sfc.Cursor
