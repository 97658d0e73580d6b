/-
# Scripts inside other elements

The scan goes over the bytes of a file and knows no nesting: a script that opens inside
another root element is taken for one of the file, and a comment that opens there hides
what stands behind the element.  Main statement: `body_immaterial_iff`.  Whatever stands
around an element, its body makes no difference to the blocks and errors of the file
exactly if, read alone, it falls into single bytes, closed comments and self-closing
scripts.
-/
import EmitLint.Proofs.Sfc.Errors

namespace EmitLint.Sfc

open Text (byte byteLength encode IsAscii)
open Written (Spells Without)

/-! ## Element names -/

/-- The text is of ASCII letters only. -/
def Letters (name : List Char) : Prop := ∀ c ∈ name, c.isAlpha = true

instance (name : List Char) : Decidable (Letters name) :=
  List.decidableBAll (fun c : Char => c.isAlpha = true) name

/-- The signs that mark up a file. -/
def signs : List Char := ['<', '>', '/', '-', '!', ' ', '\t', '\n', '\r']

section
variable {name : List Char} {rest : List UInt8} {b : UInt8}

/-- No letter is one of the signs. -/
theorem Letters.not_sign (h : Letters name) (hb : b ∈ encode name) : b ∉ signs.map byte := by
  refine Written.avoids_encode (by decide) (fun c hc hsign => ?_) b hb
  have hnone : signs.all (fun c => !c.isAlpha) = true := by decide
  have hother := List.all_eq_true.mp hnone c hsign
  rw [h c hc] at hother
  cases hother

/-! ## Tags of other elements -/

/-- Where a script opens, the letters behind the `<` spell its name. -/
theorem spells_of_isScriptOpen (h : Letters name)
    (hopen : isScriptOpen (60 :: (encode name ++ 62 :: rest)) = true) : Spells "script" name := by
  have hmark : Mark.script = 60 :: ascii "script" := by decide
  have hword : IsAscii "script".toList := by decide
  rw [← Written.map_lower_eq_ascii_iff hword]
  rw [isScriptOpen, Bool.and_eq_true, Written.startsWith_iff, hmark, List.map_cons,
    List.map_append, List.map_cons] at hopen
  obtain ⟨hbegins, hnext⟩ := hopen
  obtain ⟨-, hbegins⟩ := List.cons_prefix_cons.mp hbegins
  rcases List.prefix_or_prefix_of_prefix hbegins (List.prefix_append _ _) with hlong | hshort
  · obtain ⟨back, hback⟩ := hlong
    cases back with
    | nil => rw [← hback, List.append_nil]
    | cons c back =>
        -- The name goes on behind the word, so no sign follows that.
        have hlength := congrArg List.length hback
        rw [List.length_append, List.length_cons, List.length_map] at hlength
        have hscript : (ascii "script").length = 6 := by decide
        have hinside : 6 < (encode name).length := by omega
        have hletter := h.not_sign (List.getElem_mem hinside)
        have hseven : (60 :: ascii "script").length = 7 := by decide
        rw [hseven, List.getElem?_cons_succ, List.getElem?_append_left hinside,
          List.getElem?_eq_getElem hinside] at hnext
        have hsigns : signs.map byte = [60, 62, 47, 45, 33, 32, 9, 10, 13] := by decide
        rw [hsigns] at hletter
        simp only [List.mem_cons, List.not_mem_nil, or_false, not_or] at hletter
        simp [hletter] at hnext
  · obtain ⟨back, hback⟩ := hshort
    cases back with
    | nil => rw [← hback, List.append_nil]
    | cons c back =>
        -- The name ends in front of the end of the word, which would then hold a `>`.
        rw [← hback, List.prefix_append_right_inj, List.cons_prefix_cons] at hbegins
        have hend : (62 : UInt8) ∈ ascii "script" := by
          rw [← hback, hbegins.1]
          exact List.mem_append_right _ List.mem_cons_self
        exact absurd hend (by decide)

/-- An opening tag of another element, without attributes. -/
def openTag (name : List Char) : List Char := '<' :: (name ++ ['>'])

/-- A closing tag. -/
def closeTag (name : List Char) : List Char := '<' :: '/' :: (name ++ ['>'])

theorem encode_openTag (name : List Char) :
    encode (openTag name) = 60 :: (encode name ++ [62]) := by
  rw [openTag, Text.encode_cons_of_ascii (by decide), Text.encode_append]
  rfl

theorem encode_closeTag (name : List Char) :
    encode (closeTag name) = 60 :: 47 :: (encode name ++ [62]) := by
  rw [closeTag, Text.encode_cons_of_ascii (by decide), Text.encode_cons_of_ascii (by decide),
    Text.encode_append]
  rfl

/-- A closing tag has no `>` but at its end, and no slash in front of that. -/
theorem closeTag_end (h : Letters name) (hne : name ≠ []) :
    62 ∉ 60 :: 47 :: encode name ∧
      ∃ b, (60 :: 47 :: encode name).getLast? = some b ∧ b ≠ 47 := by
  constructor
  · rw [List.mem_cons, List.mem_cons, not_or, not_or]
    exact ⟨by decide, by decide, fun hb => h.not_sign hb (by decide)⟩
  · obtain ⟨front, b, hb⟩ := List.eq_nil_or_concat' (encode name) |>.resolve_left
      (Text.encode_ne_nil hne)
    have hmem : b ∈ encode name := hb ▸ List.mem_append_right front List.mem_cons_self
    refine ⟨b, ?_, fun hslash => h.not_sign hmem (by rw [hslash]; decide)⟩
    rw [hb, ← List.cons_append, ← List.cons_append, List.getLast?_concat]

theorem not_comment_of_ne {bs : List UInt8} (hb : b ≠ 33) : ¬ Mark.comment <+: 60 :: b :: bs := by
  have hcomment : Mark.comment = [60, 33, 45, 45] := by decide
  intro h
  rw [hcomment, List.cons_prefix_cons, List.cons_prefix_cons] at h
  exact hb h.2.1.symm

/-- A `<` that opens nothing is passed with all up to the next one. -/
theorem scan_plain {bs : List UInt8} (hcomment : ¬ Mark.comment <+: 60 :: (bs ++ rest))
    (hopen : isScriptOpen (60 :: (bs ++ rest)) = false) (hbs : ∀ b ∈ bs, b ≠ 60) (pos : Nat)
    (found : List BlockRange) :
    scan pos (60 :: bs ++ rest) found = scan (pos + (60 :: bs).length) rest found := by
  have hfront : Piece.front (60 :: bs ++ rest) = .text :=
    Piece.front_eq_iff.mpr (.text hcomment hopen)
  rw [scan_of_text (by simp) hfront, List.cons_append, List.drop_one, List.tail_cons,
    Written.scan_gap hbs, List.length_cons, Nat.add_assoc, Nat.add_comm 1]

theorem ne_of_mem_tag (h : Letters name) (hb : b ∈ encode name ++ [62]) :
    b ≠ 60 ∧ b ≠ 45 ∧ b ≠ 33 := by
  rcases List.mem_append.mp hb with hb | hb
  · have hsign := h.not_sign hb
    refine ⟨?_, ?_, ?_⟩ <;>
      · rintro rfl
        exact hsign (by decide)
  · obtain rfl := List.mem_singleton.mp hb
    decide

/-- The opening tag of another element is passed. -/
theorem scan_openTag (h : Letters name) (hscript : ¬ Spells "script" name) (rest : List UInt8)
    (pos : Nat) (found : List BlockRange) :
    scan pos (encode (openTag name) ++ rest) found =
      scan (pos + byteLength (openTag name)) rest found := by
  rw [← Text.length_encode, encode_openTag]
  refine scan_plain ?_ ?_ (fun b hb => (ne_of_mem_tag h hb).1) pos found
  · obtain ⟨b, bs, hb⟩ := List.exists_cons_of_ne_nil (List.append_ne_nil_of_right_ne_nil
      (encode name) (List.cons_ne_nil (62 : UInt8) []))
    rw [hb]
    exact not_comment_of_ne (ne_of_mem_tag h (hb ▸ List.mem_cons_self)).2.2
  · rw [Bool.eq_false_iff, List.append_assoc]
    exact mt (spells_of_isScriptOpen h) hscript

/-- So is any closing tag. -/
theorem scan_closeTag (h : Letters name) (rest : List UInt8) (pos : Nat)
    (found : List BlockRange) :
    scan pos (encode (closeTag name) ++ rest) found =
      scan (pos + byteLength (closeTag name)) rest found := by
  rw [← Text.length_encode, encode_closeTag]
  refine scan_plain (not_comment_of_ne (by decide)) ?_ ?_ pos found
  · rw [Bool.eq_false_iff]
    intro hopen
    rw [isScriptOpen, Bool.and_eq_true, Written.startsWith_iff] at hopen
    have hmark := hopen.1
    have hscript : Mark.script = [60, 115, 99, 114, 105, 112, 116] := by decide
    rw [hscript, List.cons_append, List.map_cons, List.map_cons, List.cons_prefix_cons,
      List.cons_prefix_cons] at hmark
    exact absurd hmark.2.1 (by decide)
  · exact List.forall_mem_cons.mpr ⟨by decide, fun b hb => (ne_of_mem_tag h hb).1⟩

end

/-! ## Where a text holds more than other text -/

section
variable {bs xs rest : List UInt8}

/-- Up to some place a text falls into pieces that leave nothing behind; if that is not
its end, another piece begins there. -/
theorem exists_not_passed (bs : List UInt8) :
    ∃ xs rest pieces, bs = xs ++ rest ∧ Tiled xs pieces ∧ (∀ p ∈ pieces, p.Passed) ∧
      (rest = [] ∨ ¬ (Piece.front rest).Passed) := by
  induction hlength : bs.length using Nat.strong_induction_on generalizing bs with
  | _ k ih =>
      by_cases hbs : bs = []
      · exact ⟨[], [], [], hbs, .nil, List.forall_mem_nil _, .inl rfl⟩
      · by_cases hp : (Piece.front bs).Passed
        · have hpos := (Piece.length_front_pos bs).resolve_right hp.not_stops
          have hle := length_le_of_front hbs rfl
          obtain ⟨ys, rest, pieces, hsplit, hys, hpassed, hrest⟩ :=
            ih _ (by rw [List.length_drop]; omega) (bs.drop (Piece.front bs).length) rfl
          obtain ⟨xs, rfl, -, -, -, htiled⟩ := tiled_cons hbs rfl hp.not_stops hsplit hys
          exact ⟨xs, rest, _, rfl, htiled, List.forall_mem_cons.mpr ⟨hp, hpassed⟩, hrest⟩
        · exact ⟨[], bs, [], rfl, .nil, List.forall_mem_nil _, .inr hp⟩

/-- What then begins is an open comment or a script, and not a self-closing one. -/
theorem not_passed_cases (h : ¬ (Piece.front bs).Passed) :
    Stands bs .openComment ∨ isScriptOpen bs = true ∧ ∀ n, Piece.front bs ≠ .external n := by
  have hstands := Piece.stands_front bs
  generalize Piece.front bs = p at h hstands ⊢
  cases hstands with
  | text => exact absurd (.inl rfl) h
  | comment => exact absurd (.inr (.inl ⟨_, rfl⟩)) h
  | openComment hcomment hnone => exact .inl (.openComment hcomment hnone)
  | external => exact absurd (.inr (.inr ⟨_, rfl⟩)) h
  | element htag => exact .inr ⟨htag.1, fun n => by simp⟩
  | endless hopen => exact .inr ⟨hopen, fun n => by simp⟩
  | unclosed htag => exact .inr ⟨htag.1, fun n => by simp⟩

theorem head?_of_not_passed (h : ¬ (Piece.front bs).Passed) : bs.head? = some 60 := by
  rcases not_passed_cases h with hopen | ⟨hopen, -⟩
  · cases hopen with
    | openComment hcomment _ =>
        obtain ⟨back, rfl⟩ := hcomment
        rfl
  · exact head?_of_isScriptOpen hopen

/-- Where a script opens and nothing is found, it is a self-closing one. -/
theorem external_of_scan {pos : Nat} (hopen : isScriptOpen bs = true)
    (h : scan pos bs [] = .ok []) : ∃ n, Piece.front bs = .external n := by
  have hstands := Piece.stands_front bs
  generalize hfront : Piece.front bs = p at hstands
  cases hstands with
  | text _ hclosed =>
      rw [hclosed] at hopen
      cases hopen
  | comment hcomment _ | openComment hcomment _ =>
      exact absurd hcomment (Piece.not_comment_of_isScriptOpen hopen)
  | external _ _ => exact ⟨_, rfl⟩
  | element =>
      rw [scan_of_new_element hfront List.not_mem_nil] at h
      obtain ⟨more, hmore, -⟩ := found_of_scan h
      simp at hmore
  | endless | unclosed =>
      rw [scan_of_unclosed hfront] at h
      cases h

/-- The end of a self-closing tag is not in a text whose only `>` has no slash in front of
it. -/
theorem front_of_external_append {tail : List UInt8} {n : Nat} (htail : 62 ∉ tail)
    (hlast : ∃ b, tail.getLast? = some b ∧ b ≠ 47)
    (h : Piece.front (bs ++ (tail ++ [62])) = .external n) : Piece.front bs = .external n := by
  refine front_of_front_append h (by simp [Piece.Stops]) ?_
  show n ≤ bs.length
  by_contra hlong
  obtain ⟨b, hb, hslash⟩ := hlast
  cases Piece.front_eq_iff.mp h with
  | external htag hbefore =>
      obtain ⟨m, rfl, hend⟩ := getElem?_of_openingTag htag
      rw [List.getElem?_append_right (by omega)] at hend
      have hm : m - bs.length = tail.length := by
        have hlength := (List.getElem?_eq_some_iff.mp hend).1
        rw [List.length_append, List.length_singleton] at hlength
        rcases Nat.lt_or_eq_of_le (Nat.le_of_lt_succ hlength) with hinside | heq
        · rw [List.getElem?_append_left hinside] at hend
          exact absurd (List.mem_of_getElem? hend) htail
        · exact heq
      have hne : 0 < tail.length := List.length_pos_iff.mpr (by rintro rfl; cases hb)
      have hplace : m + 1 - 2 - bs.length = tail.length - 1 := by omega
      rw [List.getElem?_append_right (by omega), hplace,
        List.getElem?_append_left (by omega), ← List.getLast?_eq_getElem?, hb] at hbefore
      exact hslash (Option.some.inj hbefore)

/-- A comment stays open when a text without its end follows. -/
theorem openComment_append {tail : List UInt8} (htail : tail.head? = some 60) (hdash : 45 ∉ tail)
    (h : Stands bs .openComment) : Stands (bs ++ tail) .openComment := by
  cases h with
  | openComment hcomment hnone =>
      refine .openComment (hcomment.trans (List.prefix_append bs tail)) fun m hend => ?_
      rw [List.drop_append_of_le_length hcomment.length_le, List.drop_append] at hend
      by_cases hm : (bs.drop Mark.comment.length).drop m = []
      · rw [hm, List.nil_append] at hend
        have hmem : (45 : UInt8) ∈ Mark.commentEnd := by decide
        exact hdash (List.mem_of_mem_drop (hend.subset hmem))
      · have hlt : m < (bs.drop Mark.comment.length).length := by
          rw [List.drop_eq_nil_iff] at hm
          omega
        rw [Nat.sub_eq_zero_of_le (Nat.le_of_lt hlt), List.drop_zero] at hend
        exact hnone m (prefix_of_append_lt (by decide) hm htail hend)

end
/-! ## A root element and its body -/

/-- A file with a root element of this name. -/
def nested (before name body after : String) : String :=
  before ++ "<" ++ name ++ ">" ++ body ++ "</" ++ name ++ ">" ++ after

section
variable {before name body after : String}

theorem toList_nested (before name body after : String) :
    (nested before name body after).toList =
      before.toList ++ openTag name.toList ++ body.toList ++
        (closeTag name.toList ++ after.toList) := by
  simp [nested, openTag, closeTag]

/-- The scan comes to the body. -/
theorem scan_nested (hname : Letters name.toList) (hscript : ¬ Spells "script" name.toList)
    (hbefore : '<' ∉ before.toList) (body after : String) :
    scan 0 (Text.bytes (nested before name body after)) [] =
      scan (byteLength (before.toList ++ openTag name.toList))
        (encode body.toList ++ encode (closeTag name.toList ++ after.toList)) [] := by
  have hbytes : Text.bytes (nested before name body after) =
      encode before.toList ++ (encode (openTag name.toList) ++
        (encode body.toList ++ encode (closeTag name.toList ++ after.toList))) := by
    rw [← Text.encode_append, ← Text.encode_append, ← Text.encode_append, ← List.append_assoc,
      ← List.append_assoc, ← toList_nested]
    rfl
  rw [hbytes, Written.scan_text hbefore, scan_openTag hname hscript, Nat.zero_add,
    Text.byteLength_append]

theorem head?_closeTag (name : List Char) (after : List Char) :
    (encode (closeTag name ++ after)).head? = some 60 := by
  rw [Text.encode_append, encode_closeTag]
  rfl

/-- A body that leaves nothing behind makes no difference. -/
theorem extractScriptBlocks_nested {pieces : List Piece} (hname : Letters name.toList)
    (hscript : ¬ Spells "script" name.toList) (hbefore : '<' ∉ before.toList)
    (hbody : Tiled (encode body.toList) pieces) (hpassed : ∀ p ∈ pieces, p.Passed) :
    extractScriptBlocks (nested before name body after) =
      moved ScriptBlock.shift (byteLength body.toList)
        (extractScriptBlocks (nested before name "" after)) := by
  have hempty : (nested before name "" after).toList =
      before.toList ++ openTag name.toList ++ (closeTag name.toList ++ after.toList) := by
    rw [toList_nested]
    simp
  refine extractScriptBlocks_moved [] [] hempty (toList_nested before name body after)
    (Text.byteLength_append _ _) rfl (scan_nested hname hscript hbefore "" after) ?_
  rw [scan_nested hname hscript hbefore,
    scan_append_of_passed hbody hpassed (head?_closeTag name.toList after.toList),
    Text.length_encode, ← Text.byteLength_append]

theorem extractScriptBlocks_eq_nil_iff {source : String} :
    extractScriptBlocks source = .ok [] ↔ scan 0 (Text.bytes source) [] = .ok [] := by
  rw [extractScriptBlocks]
  cases scan 0 (Text.bytes source) [] with
  | error e => simp [Except.map]
  | ok ranges => simp [Except.map]

theorem dash_not_mem_closeTag (hname : Letters name.toList) :
    45 ∉ encode (closeTag name.toList ++ "<script>".toList) := by
  rw [Text.encode_append, encode_closeTag, List.mem_append, List.mem_cons, List.mem_cons, not_or,
    not_or, not_or]
  exact ⟨⟨by decide, by decide, fun h => (ne_of_mem_tag hname h).2.1 rfl⟩, by decide⟩

/-- An open comment or a script in the body makes a difference: the one hides a script
behind the element, and the other is found. -/
theorem passed_of_same (hname : Letters name.toList) (hne : name ≠ "")
    (hscript : ¬ Spells "script" name.toList)
    (hsame : ∀ after : String, extractScriptBlocks (nested "" name body after) =
      moved ScriptBlock.shift (byteLength body.toList)
        (extractScriptBlocks (nested "" name "" after)))
    {xs rest : List UInt8} {pieces : List Piece} (hbody : encode body.toList = xs ++ rest)
    (hxs : Tiled xs pieces) (hpassed : ∀ p ∈ pieces, p.Passed) :
    (Piece.front rest).Passed := by
  by_contra hrest
  have hhead := head?_of_not_passed hrest
  have hscan : ∀ after : String, scan 0 (Text.bytes (nested "" name body after)) [] =
      scan (byteLength ("".toList ++ openTag name.toList) + xs.length)
        (rest ++ encode (closeTag name.toList ++ after.toList)) [] := by
    intro after
    rw [scan_nested hname hscript (by simp), hbody, List.append_assoc,
      scan_append_of_passed hxs hpassed]
    rw [List.head?_append, hhead]
    rfl
  have hempty : ∀ after : String, ∃ pos, scan 0 (Text.bytes (nested "" name "" after)) [] =
      scan pos (encode after.toList) [] := by
    intro after
    rw [scan_nested hname hscript (by simp), Text.encode_append]
    exact ⟨_, scan_closeTag hname _ _ _⟩
  rcases not_passed_cases hrest with hcomment | ⟨hopen, hnot⟩
  · have hnone : extractScriptBlocks (nested "" name body "<script>") = .ok [] := by
      rw [extractScriptBlocks_eq_nil_iff, hscan]
      refine scan_of_openComment (Piece.front_eq_iff.mpr ?_)
      exact openComment_append (head?_closeTag _ _) (dash_not_mem_closeTag hname) hcomment
    obtain ⟨pos, hpos⟩ := hempty "<script>"
    have hunclosed : scan pos (encode "<script>".toList) [] = .error (.unclosed pos) :=
      scan_of_unclosed (by decide)
    rw [hsame, extractScriptBlocks, hpos, hunclosed] at hnone
    cases hnone
  · obtain ⟨pos, hpos⟩ := hempty ""
    have hnone : extractScriptBlocks (nested "" name "" "") = .ok [] := by
      rw [extractScriptBlocks_eq_nil_iff, hpos]
      exact scan_nil pos []
    have hfound := hsame ""
    rw [hnone] at hfound
    have hfound := extractScriptBlocks_eq_nil_iff.mp hfound
    have hne' : rest ≠ [] := by
      rintro rfl
      cases hhead
    rw [hscan] at hfound
    obtain ⟨n, hexternal⟩ :=
      external_of_scan (by rw [isScriptOpen_append_lt hne' (head?_closeTag _ _), hopen]) hfound
    rw [String.toList_empty, List.append_nil, encode_closeTag] at hexternal
    obtain ⟨hend, hlast⟩ := closeTag_end hname (by simpa using hne)
    exact hnot n (front_of_external_append hend hlast hexternal)

/-- What stands inside an element makes no difference, whatever stands around it, exactly
if it falls into single bytes, closed comments and self-closing scripts: then the blocks
of the file are those of the file with the element left empty, or the error is, and all
is moved by the length of the body.  In any other body a script opens, or a comment that
is not closed in it. -/
theorem body_immaterial_iff (hname : Letters name.toList) (hne : name ≠ "")
    (hscript : ¬ Spells "script" name.toList) :
    (∀ before after : String, '<' ∉ before.toList →
      extractScriptBlocks (nested before name body after) =
        moved ScriptBlock.shift (byteLength body.toList)
          (extractScriptBlocks (nested before name "" after))) ↔
      ∃ pieces, Tiled (Text.bytes body) pieces ∧ ∀ p ∈ pieces, p.Passed := by
  constructor
  · intro hsame
    obtain ⟨xs, rest, pieces, hsplit, htiled, hpassed, hrest⟩ := exists_not_passed (Text.bytes body)
    rcases hrest with rfl | hrest
    · exact ⟨pieces, by rw [hsplit, List.append_nil]; exact htiled, hpassed⟩
    · refine absurd (passed_of_same hname hne hscript (fun after => ?_) hsplit htiled hpassed) hrest
      exact hsame "" after (by simp)
  · rintro ⟨pieces, htiled, hpassed⟩ before after hbefore
    exact extractScriptBlocks_nested hname hscript hbefore htiled hpassed

end

/-! ## Examples -/

/-- A script in a block of documentation is found, and makes the script behind the block
a second one. -/
theorem documented_script :
    extractScriptBlocks (nested "" "docs" "<script></script>" "<script></script>") =
        .error (.duplicate false 30) ∧
      extractScriptBlocks (nested "" "docs" "" "<script></script>") =
        .ok [⟨"", 21, false, none⟩] := by
  have hname : Letters "docs".toList := by decide
  have hscript : ¬ Spells "script" "docs".toList := by decide
  have hfront : ∀ rest, Piece.front (encode "<script></script>".toList ++ rest) = .element 8 0 := by
    have hbare : Piece.front (encode "<script></script>".toList ++ []) = .element 8 0 := by decide
    exact fun rest => front_append (by simp [Piece.Stops]) (by decide) hbare
  constructor
  · have hfirst : scan 0 (Text.bytes (nested "" "docs" "<script></script>" "<script></script>"))
        [] = .error (.duplicate false 30) := by
      rw [scan_nested hname hscript (by simp), scan_of_element (hfront _), ofElement_bare]
      dsimp only
      rw [if_neg (by simp), List.drop_left' (by decide), Text.encode_append,
        scan_closeTag hname, ← List.append_nil (encode "<script></script>".toList),
        scan_of_element (hfront []), ofElement_bare]
      rfl
    rw [extractScriptBlocks, hfirst]
    rfl
  · have hfirst : scan 0 (Text.bytes (nested "" "docs" "" "<script></script>")) [] =
        .ok [⟨13, ⟨21, 21⟩, false, none⟩] := by
      rw [scan_nested hname hscript (by simp), Text.encode_append]
      simp only [String.toList_empty, Text.encode_nil, List.nil_append]
      rw [scan_closeTag hname, ← List.append_nil (encode "<script></script>".toList),
        scan_of_element (hfront []), ofElement_bare]
      dsimp only
      rw [if_neg (by simp), List.drop_left' (by decide), scan_nil]
      rfl
    rw [extractScriptBlocks, hfirst]
    decide

/-- A comment and a self-closing script in a block make no difference; a script does. -/
theorem body_immaterial_iff_docs :
    (∀ before after : String, '<' ∉ before.toList →
      extractScriptBlocks (nested before "docs" "<!--<script>--><Script src/>" after) =
        moved ScriptBlock.shift 28 (extractScriptBlocks (nested before "docs" "" after))) ∧
    ¬ ∀ before after : String, '<' ∉ before.toList →
      extractScriptBlocks (nested before "docs" "<script></script>" after) =
        moved ScriptBlock.shift 17 (extractScriptBlocks (nested before "docs" "" after)) := by
  have hname : Letters "docs".toList := by decide
  have hscript : ¬ Spells "script" "docs".toList := by decide
  constructor
  · have htiled : Tiled (Text.bytes "<!--<script>--><Script src/>")
        [.comment 15, .external 13] := by
      refine .cons (by decide) (Piece.front_eq_iff.mp (by decide)) (by simp [Piece.Stops]) ?_
      refine .cons (by decide) (Piece.front_eq_iff.mp (by decide)) (by simp [Piece.Stops]) ?_
      rw [List.drop_eq_nil_of_le (by decide)]
      exact .nil
    refine (body_immaterial_iff hname (by decide) hscript).mpr ⟨_, htiled, ?_⟩
    simp [Piece.Passed]
  · intro hsame
    obtain ⟨pieces, htiled, hpassed⟩ := (body_immaterial_iff hname (by decide) hscript).mp hsame
    cases htiled with
    | cons _ hstands _ _ =>
        have hfront : Piece.front (Text.bytes "<script></script>") = .element 8 0 := by decide
        rw [← Piece.front_eq_iff, hfront] at hstands
        have hp := hpassed _ List.mem_cons_self
        rw [← hstands] at hp
        simp [Piece.Passed] at hp

end EmitLint.Sfc
