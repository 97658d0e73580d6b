/-
# A written file is read back

What is put together as `Written` says is taken apart again by the scan, part by
part.  Main statement: `extractScriptBlocks_written`.  The blocks that are found
are those that were written, with their texts, offsets, flags and languages; and
where a second element has the flag of one in front, that one is reported.
-/
import EmitLint.Proofs.Sfc.Attributes
import EmitLint.Proofs.Sfc.Cut
import EmitLint.Proofs.Sfc.Places

namespace EmitLint.Sfc.Written

open Text (encode byte byteLength IsAscii)

/-! ## Marks -/

/-- No end of the word is a beginning of it. -/
def Borderless (w : List UInt8) : Prop := ∀ k < w.length, 0 < k → ¬ w.drop k <+: w

instance (w : List UInt8) : Decidable (Borderless w) :=
  inferInstanceAs (Decidable (∀ k < w.length, 0 < k → ¬ w.drop k <+: w))

section
variable {w front mark rest : List UInt8} {f : UInt8 → UInt8}

/-- In front of such a word it begins nowhere, unless it stands there altogether. -/
theorem prefix_of_borderless (hw : Borderless w) (hfront : front ≠ [])
    (h : w <+: front ++ (w ++ rest)) : w <+: front := by
  rcases List.prefix_or_prefix_of_prefix h (List.prefix_append front _) with hprefix | hprefix
  · exact hprefix
  · obtain ⟨back, rfl⟩ := hprefix
    have hback : back <+: (front ++ back) ++ rest := List.prefix_append_right_inj front |>.mp h
    cases back with
    | nil => exact ⟨[], by simp⟩
    | cons b back =>
        have hborder : b :: back <+: front ++ b :: back :=
          List.prefix_of_prefix_length_le hback (List.prefix_append _ _) (by simp)
        have hlength : front.length < (front ++ b :: back).length := by simp
        refine absurd ?_ (hw front.length hlength (List.length_pos_iff.mpr hfront))
        rw [List.drop_left]
        exact hborder

/-- Behind a text that is free of it, the word stands for the first time. -/
theorem firstAt_mark (mark rest : List UInt8) (hw : Borderless w) (hmark : mark.map f = w)
    (hfree : ∀ i, ¬ w <+: (front.drop i).map f) :
    FirstAt (fun bs => w <+: bs.map f) (front ++ (mark ++ rest)) front.length := by
  constructor
  · show w <+: ((front ++ (mark ++ rest)).drop front.length).map f
    rw [List.drop_left, List.map_append, hmark]
    exact List.prefix_append _ _
  · intro i hi h
    rw [List.drop_append_of_le_length (Nat.le_of_lt hi), List.map_append, List.map_append,
      hmark] at h
    refine hfree i (prefix_of_borderless hw ?_ h)
    rw [ne_eq, List.map_eq_nil_iff, List.drop_eq_nil_iff]
    omega

theorem startsWith_iff {bs : List UInt8} : startsWith w bs = true ↔ w <+: bs.map lower := by
  rw [startsWith, beq_iff_eq, List.prefix_iff_eq_take, List.map_take]
  exact eq_comm

end

section
variable {body content close : List Char} {rest : List UInt8}

theorem firstAt_commentEnd (h : Text.occursIn "-->".toList body = false) :
    FirstAt (Mark.commentEnd <+: ·) (encode body ++ (Mark.commentEnd ++ rest))
      (byteLength body) := by
  have hmark : Mark.commentEnd = encode "-->".toList := by decide
  have hfree : ∀ i, ¬ Mark.commentEnd <+: ((encode body).drop i).map id := by
    intro i hi
    rw [List.map_id, hmark] at hi
    rw [Text.occursIn_of_bytes (by decide) (by decide) hi] at h
    cases h
  have hfirst := firstAt_mark Mark.commentEnd rest (by decide) (List.map_id _) hfree
  simpa only [List.map_id, Text.length_encode] using hfirst

theorem firstAt_closes
    (hclosed : Text.occursIn "</script>".toList (content.map Char.toLower) = false)
    (hclose : Spells "</script>" close) :
    FirstAt Closes (encode content ++ (encode close ++ rest)) (byteLength content) := by
  have hmark : Mark.scriptEnd = encode "</script>".toList := by decide
  have hfree : ∀ i, ¬ Mark.scriptEnd <+: ((encode content).drop i).map lower := by
    intro i hi
    rw [List.map_drop, map_lower_encode, hmark] at hi
    rw [Text.occursIn_of_bytes (by decide) (by decide) hi] at hclosed
    cases hclosed
  have hlower : (encode close).map lower = Mark.scriptEnd := by
    rw [map_lower_encode, hclose, hmark]
  have hfirst := firstAt_mark (encode close) rest (by decide) hlower hfree
  have hcloses : Closes = fun bs => Mark.scriptEnd <+: bs.map lower :=
    funext fun _ => propext startsWith_iff
  rw [hcloses, ← Text.length_encode]
  exact hfirst

end

/-! ## Tags -/

/-- The name and the attribute text of an opening tag of a script. -/
structure IsTag (name text : List Char) : Prop where
  spells : Spells "script" name
  /-- There is no `>` in it but in quotes. -/
  closed : TagText (encode text)
  /-- The name is followed by a blank, which is no form feed, or by a slash. -/
  opens : ∀ b ∈ (encode text).head?, b ∈ ([32, 9, 10, 13, 47] : List UInt8)

/-- A tag up to its `>`. -/
def tagFront (name text : List Char) : List Char := '<' :: name ++ text

namespace IsTag

variable {name text text' : List Char}

theorem append (h : IsTag name text) (h' : IsTag name text') : IsTag name (text ++ text') where
  spells := h.spells
  closed := by
    rw [Text.encode_append]
    exact tagText_append h.closed h'.closed
  opens := by
    intro b hb
    rw [Text.encode_append, List.head?_append, Option.mem_def, Option.or_eq_some_iff] at hb
    rcases hb with hb | ⟨-, hb⟩
    · exact h.opens b hb
    · exact h'.opens b hb

/-- A text that is put together from attributes. -/
theorem of_flatMap {α : Type} {f : α → List Char} (h : Spells "script" name)
    (hgap : ∀ a, ∃ (x : Attribute) (rest : List Char), f a = x.gap ++ rest)
    (hclosed : ∀ a, TagText (encode (f a))) (as : List α) : IsTag name (as.flatMap f) where
  spells := h
  closed := tagText_flatMap hclosed as
  opens := by
    have hgaps : gaps.map byte = [32, 9, 10, 13] := by decide
    intro b hb
    have hmem := mem_gaps_of_head? hgap b hb
    rw [hgaps] at hmem
    exact List.mem_append_left [47] hmem

theorem of_tag (t : Tag) : IsTag t.name t.attributeText :=
  of_flatMap t.spells (fun a => ⟨a, _, rfl⟩) tagText_attribute t.attributes

end IsTag

section
variable {name text : List Char} {rest : List UInt8}

theorem map_lower_name (h : Spells "script" name) :
    (encode ('<' :: name)).map lower = Mark.script := by
  have hmark : Mark.script = encode "<script".toList := by decide
  have hspells : name.map Char.toLower = "script".toList := h
  rw [map_lower_encode, List.map_cons, hspells, hmark]
  rfl

theorem byteLength_name (h : Spells "script" name) :
    byteLength ('<' :: name) = Mark.script.length := by
  rw [← map_lower_name h, List.length_map, Text.length_encode]

theorem encode_front (name text : List Char) :
    encode (tagFront name text) = encode ('<' :: name) ++ encode text :=
  Text.encode_append _ _

theorem byteLength_front (h : Spells "script" name) (text : List Char) :
    byteLength (tagFront name text) = Mark.script.length + byteLength text := by
  rw [tagFront, Text.byteLength_append, byteLength_name h]

theorem drop_front (h : Spells "script" name) (text : List Char) :
    (encode (tagFront name text) ++ rest).drop Mark.script.length = encode text ++ rest := by
  rw [encode_front, ← byteLength_name h, ← Text.length_encode, List.append_assoc, List.drop_left]

theorem isScriptOpen_front (h : IsTag name text) :
    isScriptOpen (encode (tagFront name text) ++ 62 :: rest) = true := by
  have hnext : ∃ b, (encode text ++ 62 :: rest).head? = some b ∧
      b ∈ ([32, 9, 10, 13, 47] ++ [62] : List UInt8) := by
    have hopens := h.opens
    cases hhead : encode text with
    | nil => exact ⟨62, rfl, by decide⟩
    | cons b bs =>
        rw [hhead] at hopens
        exact ⟨b, rfl, List.mem_append_left _ (hopens b rfl)⟩
  have hscript : startsWith Mark.script (encode (tagFront name text) ++ 62 :: rest) = true := by
    rw [startsWith_iff, encode_front, List.append_assoc, List.map_append, map_lower_name h.spells]
    exact List.prefix_append _ _
  obtain ⟨b, hb, hmem⟩ := hnext
  have hget : (encode (tagFront name text) ++ 62 :: rest)[Mark.script.length]? = some b := by
    rw [← hb, ← drop_front h.spells text, List.head?_drop]
  rw [isScriptOpen, hscript, hget, Bool.true_and]
  simp only [List.cons_append, List.nil_append, List.mem_cons, List.not_mem_nil, or_false] at hmem
  rcases hmem with rfl | rfl | rfl | rfl | rfl | rfl <;> rfl

theorem openingTag_front (h : IsTag name text) :
    OpeningTag (encode (tagFront name text) ++ 62 :: rest)
      (byteLength (tagFront name text) + 1) := by
  refine ⟨isScriptOpen_front h, encode text, rest, drop_front h.spells text, h.closed, ?_⟩
  rw [Text.length_encode, byteLength_front h.spells]

theorem attributeText_front (h : Spells "script" name) :
    Piece.attributeText (encode (tagFront name text) ++ rest)
      (byteLength (tagFront name text) + 1) = encode text := by
  rw [Piece.attributeText, drop_front h, byteLength_front h, Nat.add_sub_cancel,
    Nat.add_sub_cancel_left, ← Text.length_encode, List.take_left]

/-- The last byte of a tag is a slash only if that of its attributes is. -/
theorem getLast?_front (h : Spells "script" name) :
    (encode (tagFront name text)).getLast? = some 47 ↔ text.getLast? = some '/' := by
  rw [encode_front, List.getLast?_append, Option.or_eq_some_iff]
  constructor
  · rintro (hslash | ⟨-, hslash⟩)
    · exact Text.getLast?_of_encode (by decide) hslash
    · have hlast := congrArg List.getLast? (map_lower_name h)
      rw [List.getLast?_map, hslash] at hlast
      exact absurd hlast (by decide)
  · intro hslash
    obtain ⟨front, rfl⟩ := List.getLast?_eq_some_iff.mp hslash
    have hend : encode ['/'] = [47] := by decide
    rw [Text.encode_append, hend, List.getLast?_concat]
    exact .inl rfl

/-- The byte in front of the `>`. -/
theorem getElem?_front (h : Spells "script" name) :
    (encode (tagFront name text) ++ 62 :: rest)[byteLength (tagFront name text) + 1 - 2]? =
      (encode (tagFront name text)).getLast? := by
  have hpos : 0 < (encode (tagFront name text)).length := by
    rw [Text.length_encode, byteLength_front h]
    exact Nat.lt_of_lt_of_le (by decide) (Nat.le_add_right _ _)
  rw [← Text.length_encode, List.getElem?_append_left (by omega), List.getLast?_eq_getElem?]
  rfl

end

/-! ## Parts -/

section
variable {name text content close : List Char} {rest : List UInt8}

theorem stands_comment {body : List Char} (h : Text.occursIn "-->".toList body = false) :
    Stands (encode (Part.comment body h).written ++ rest)
      (.comment (byteLength (Part.comment body h).written)) := by
  have hcomment : encode "<!--".toList = Mark.comment := by decide
  have hcommentEnd : encode "-->".toList = Mark.commentEnd := by decide
  have hwritten : encode (Part.comment body h).written ++ rest =
      Mark.comment ++ (encode body ++ (Mark.commentEnd ++ rest)) := by
    rw [Part.written, Text.encode_append, Text.encode_append, hcomment, hcommentEnd,
      List.append_assoc, List.append_assoc]
  have hlength : byteLength (Part.comment body h).written =
      Mark.comment.length + byteLength body + Mark.commentEnd.length := by
    rw [← hcomment, ← hcommentEnd, Text.length_encode, Text.length_encode, Nat.add_assoc,
      Part.written, Text.byteLength_append, Text.byteLength_append]
  rw [hwritten, hlength]
  refine .comment (List.prefix_append _ _) ?_
  rw [List.drop_left]
  exact firstAt_commentEnd h

/-- With a slash in front of its `>` a tag stands alone. -/
theorem stands_slashed (h : IsTag name text) (hslash : text.getLast? = some '/') :
    Stands (encode (tagFront name text ++ ['>']) ++ rest)
      (.external (byteLength (tagFront name text ++ ['>']))) := by
  rw [Text.encode_append, List.append_assoc, Text.byteLength_append]
  refine .external (openingTag_front h) ?_
  exact (getElem?_front h.spells).trans ((getLast?_front h.spells).mpr hslash)

theorem isTag_slash (h : Spells "script" name) : IsTag name ['/'] where
  spells := h
  closed := .byte (by decide) (by decide) (by decide) .nil
  opens := by
    have hslash : encode ['/'] = [47] := by decide
    rw [hslash]
    rintro b ⟨⟩
    decide

theorem stands_external (t : Tag) :
    Stands (encode (Part.external t).written ++ rest)
      (.external (byteLength (Part.external t).written)) := by
  have hwritten : (Part.external t).written =
      tagFront t.name (t.attributeText ++ ['/']) ++ ['>'] := by
    simp [Part.written, Tag.front, tagFront]
  rw [hwritten]
  exact stands_slashed ((IsTag.of_tag t).append (isTag_slash t.spells)) List.getLast?_concat

theorem spells_closing (h : Spells "script" close) : Spells "</script>" (closing close) := by
  have hclose : close.map Char.toLower = "script".toList := h
  rw [Spells, closing, List.map_append, List.map_append, hclose]
  decide

/-- A script from its opening to its closing tag. -/
def elementText (name text content close : List Char) : List Char :=
  tagFront name text ++ '>' :: (content ++ closing close)

theorem encode_element (name text content close : List Char) :
    encode (elementText name text content close) ++ rest =
      encode (tagFront name text) ++
        62 :: (encode content ++ (encode (closing close) ++ rest)) := by
  have hend : byte '>' = 62 := by decide
  rw [elementText, Text.encode_append, Text.encode_cons_of_ascii (by decide), Text.encode_append,
    hend, List.append_assoc, List.cons_append, List.append_assoc]

theorem stands_element (h : IsTag name text) (hopened : text.getLast? ≠ some '/')
    (hclosed : Text.occursIn "</script>".toList (content.map Char.toLower) = false)
    (hclose : Spells "script" close) (rest : List UInt8) :
    Stands (encode (elementText name text content close) ++ rest)
      (.element (byteLength (tagFront name text) + 1) (byteLength content)) := by
  rw [encode_element]
  refine .element (openingTag_front h) ?_ ?_
  · rw [getElem?_front h.spells]
    exact mt (getLast?_front h.spells).mp hopened
  · have hdrop : (encode (tagFront name text) ++ 62 :: (encode content ++
        (encode (closing close) ++ rest))).drop (byteLength (tagFront name text) + 1) =
        encode content ++ (encode (closing close) ++ rest) := by
      rw [← Text.length_encode, ← List.drop_drop, List.drop_left]
      rfl
    rw [hdrop]
    exact firstAt_closes hclosed (spells_closing hclose)

theorem length_element (name text content : List Char) (h : Spells "script" close) :
    (Piece.element (byteLength (tagFront name text) + 1) (byteLength content)).length =
      byteLength (elementText name text content close) := by
  have hclosing : byteLength (closing close) = Mark.scriptEnd.length := by
    have hlower : (encode (closing close)).map lower = encode "</script>".toList := by
      rw [map_lower_encode, spells_closing h]
    have hlength := congrArg List.length hlower
    rw [List.length_map, Text.length_encode] at hlength
    exact hlength
  have hend : '>'.utf8Size = 1 := by decide
  rw [Piece.length, elementText, Text.byteLength_append, Text.byteLength_cons,
    Text.byteLength_append, hclosing, hend]
  omega

end

/-! ## The scan -/

section
variable {rest bs : List UInt8} {pos : Nat} {found : List BlockRange} {p : Part}

theorem front_eq_text {b : UInt8} (hb : b ≠ 60) : Piece.front (b :: bs) = .text := by
  refine Piece.front_eq_iff.mpr (.text ?_ ?_)
  · intro hcomment
    exact hb (List.cons_prefix_cons.mp hcomment).1.symm
  · rw [Bool.eq_false_iff]
    intro hopen
    rw [isScriptOpen, Bool.and_eq_true, startsWith_iff] at hopen
    have hlower : 60 = lower b := (List.cons_prefix_cons.mp hopen.1).1
    exact hb (eq_of_lower hlower.symm)

/-- What is no `<` is passed byte by byte. -/
theorem scan_gap (h : ∀ b ∈ bs, b ≠ 60) :
    scan pos (bs ++ rest) found = scan (pos + bs.length) rest found := by
  induction bs generalizing pos with
  | nil => rfl
  | cons b bs ih =>
      obtain ⟨hb, hbs⟩ := List.forall_mem_cons.mp h
      rw [List.cons_append, scan_of_text (List.cons_ne_nil _ _) (front_eq_text hb)]
      show scan (pos + 1) (bs ++ rest) found = _
      rw [ih hbs, List.length_cons, Nat.add_assoc, Nat.add_comm 1]

theorem scan_text {text : List Char} (h : '<' ∉ text) :
    scan pos (encode text ++ rest) found = scan (pos + byteLength text) rest found := by
  rw [← Text.length_encode]
  refine scan_gap fun b hb => ?_
  rintro rfl
  exact h ((Text.byte_mem_encode (c := '<') (by decide)).mp hb)

/-- Whatever is no element leaves nothing behind. -/
theorem scan_of_not_element (h : p.setup? = none) :
    scan pos (encode p.written ++ rest) found = scan (pos + byteLength p.written) rest found := by
  have hdrop : (encode p.written ++ rest).drop (byteLength p.written) = rest := by
    rw [← Text.length_encode, List.drop_left]
  cases p with
  | gap text plain => exact scan_text plain
  | comment body closed =>
      rw [scan_of_comment (Piece.front_eq_iff.mpr (stands_comment closed)), hdrop]
  | external t =>
      rw [scan_of_external (Piece.front_eq_iff.mpr (stands_external t)), hdrop]
  | element => cases h

end

/-! ## The blocks of the elements -/

section
variable {source : String} {before after : List Char} {found : List BlockRange} {p : Part}
  {parts : List Part} {b : ScriptBlock}

theorem slice_of_slice? {i j : Nat} {piece : List Char}
    (h : Text.slice? source.toList i j = some piece) :
    Text.slice source i j = String.ofList piece := by
  rw [Text.slice, h, Option.getD_some]

/-- The language of a tag with this attribute text. -/
def langOf (text : List Char) : Option String :=
  (langRange (encode text)).map fun r => String.ofList (piece text r)

theorem langOf_attributeText (t : Tag) : langOf t.attributeText = t.lang := by
  have hrange := langRange_attributeText t
  rw [langOf]
  generalize t.lang = l, langRange (encode t.attributeText) = r at hrange ⊢
  cases hrange with
  | none => rfl
  | some hslice =>
      rw [Option.map_some, piece, hslice, Option.getD_some, String.ofList_toList]

/-- What the scan cuts out of the file for an element is the block of that element. -/
theorem ofRange_element {name text content : List Char} (h : Spells "script" name)
    (rest : List UInt8)
    (hsource : source.toList = before ++ tagFront name text ++ '>' :: (content ++ after)) :
    ScriptBlock.ofRange source (BlockRange.ofElement (encode (tagFront name text) ++ rest)
        (byteLength before) (byteLength (tagFront name text) + 1) (byteLength content)) =
      ⟨String.ofList content, byteLength before + byteLength (tagFront name text) + 1,
        hasSetup (encode text), langOf text⟩ := by
  have hcontent : Text.slice? source.toList
      (byteLength before + (byteLength (tagFront name text) + 1))
      (byteLength before + (byteLength (tagFront name text) + 1) + byteLength content) =
        some content := by
    have hslice := Text.slice?_append (before ++ tagFront name text ++ ['>']) content after
    have hend : byteLength (before ++ tagFront name text ++ ['>']) =
        byteLength before + (byteLength (tagFront name text) + 1) := by
      rw [Text.byteLength_append, Text.byteLength_append, Nat.add_assoc]
      rfl
    rw [hend] at hslice
    rw [hsource]
    simpa using hslice
  have hattributes : Text.slice? source.toList (byteLength before + Mark.script.length)
      (byteLength before + Mark.script.length + byteLength text) = some text := by
    have hslice := Text.slice?_append (before ++ '<' :: name) text ('>' :: (content ++ after))
    rw [Text.byteLength_append, byteLength_name h] at hslice
    rw [hsource, tagFront]
    simpa using hslice
  have hlang : (langRange (encode text)).map (fun r =>
      Text.slice source (r.start + (byteLength before + Mark.script.length))
        (r.stop + (byteLength before + Mark.script.length))) = langOf text := by
    rw [langOf]
    cases hrange : langRange (encode text) with
    | none => rfl
    | some r =>
        have hfile := (Text.slice?_of_slice? hattributes (isPiece_of_langRange hrange).slice?).1
        rw [Option.map_some, slice_of_slice? hfile, Option.map_some]
  rw [BlockRange.ofElement, attributeText_front h, ScriptBlock.ofRange]
  simp only [slice_of_slice? hcontent, Option.map_map]
  rw [ScriptBlock.mk.injEq]
  exact ⟨rfl, (Nat.add_assoc _ _ _).symm, rfl, hlang⟩

/-- An element becomes a block, unless there is one with its flag. -/
theorem scan_of_elementText {name text content close : List Char} (h : IsTag name text)
    (hopened : text.getLast? ≠ some '/')
    (hclosed : Text.occursIn "</script>".toList (content.map Char.toLower) = false)
    (hclose : Spells "script" close) (found : List BlockRange) (rest : List UInt8)
    (hsource : source.toList = before ++ elementText name text content close ++ after) :
    ∃ r, ScriptBlock.ofRange source r =
        ⟨String.ofList content, byteLength before + byteLength (tagFront name text) + 1,
          hasSetup (encode text), langOf text⟩ ∧
      scan (byteLength before) (encode (elementText name text content close) ++ rest) found =
        if hasSetup (encode text) ∈ found.map (·.setup) then
          .error (.duplicate (hasSetup (encode text)) (byteLength before))
        else
          scan (byteLength (before ++ elementText name text content close)) rest
            (found ++ [r]) := by
  have hfront := Piece.front_eq_iff.mpr (stands_element h hopened hclosed hclose rest)
  have hsplit : source.toList =
      before ++ tagFront name text ++ '>' :: (content ++ (closing close ++ after)) := by
    rw [hsource, elementText]
    simp
  have hrange := ofRange_element h.spells
    (62 :: (encode content ++ (encode (closing close) ++ rest))) hsplit
  rw [← encode_element] at hrange
  have hsetup := congrArg ScriptBlock.setup hrange
  rw [ScriptBlock.ofRange] at hsetup
  refine ⟨_, hrange, ?_⟩
  rw [scan_of_element hfront, length_element name text content hclose]
  dsimp only at hsetup ⊢
  rw [hsetup, ← Text.length_encode (elementText _ _ _ _), List.drop_left, Text.length_encode,
    Text.byteLength_append]

/-- The same for a part of a written file. -/
theorem scan_of_block (found : List BlockRange) (rest : List UInt8)
    (hsource : source.toList = before ++ p.written ++ after)
    (hb : p.block? (byteLength before) = some b) :
    ∃ r, ScriptBlock.ofRange source r = b ∧
      scan (byteLength before) (encode p.written ++ rest) found =
        if b.setup ∈ found.map (·.setup) then .error (.duplicate b.setup (byteLength before))
        else scan (byteLength (before ++ p.written)) rest (found ++ [r]) := by
  cases p with
  | gap | comment | external => cases hb
  | element t content close hopened hclosed hspells =>
      obtain rfl := Option.some.inj hb
      have hscan := scan_of_elementText (IsTag.of_tag t) hopened hclosed hspells found rest hsource
      rw [hasSetup_attributeText, langOf_attributeText] at hscan
      exact hscan

/-! ## All parts -/

theorem map_setup_block? (p : Part) (offset : Nat) :
    (p.block? offset).map (·.setup) = p.setup? := by
  cases p <;> rfl

theorem map_setup_blocksFrom (parts : List Part) (offset : Nat) :
    (blocksFrom offset parts).map (·.setup) = setups parts := by
  induction parts generalizing offset with
  | nil => rfl
  | cons p parts ih =>
      rw [blocksFrom, List.map_append, ih, setups, setups, List.filterMap_cons,
        ← map_setup_block? p offset]
      cases p.block? offset <;> rfl

/-- The scan goes from part to part, as long as no flag comes twice. -/
theorem scan_written (parts : List Part) {before after : List Char} (found : List BlockRange)
    (hsource : source.toList = before ++ written parts ++ after)
    (hnew : (found.map (·.setup) ++ setups parts).Nodup) :
    ∃ ranges, ranges.map (ScriptBlock.ofRange source) = blocksFrom (byteLength before) parts ∧
      scan (byteLength before) (encode (written parts ++ after)) found =
        scan (byteLength (before ++ written parts)) (encode after) (found ++ ranges) := by
  induction parts generalizing before found with
  | nil =>
      refine ⟨[], rfl, ?_⟩
      rw [written, List.flatMap_nil, List.append_nil, List.append_nil, List.nil_append]
  | cons p parts ih =>
      have hwritten : written (p :: parts) = p.written ++ written parts := List.flatMap_cons
      have hrest : source.toList = before ++ p.written ++ written parts ++ after := by
        rw [hsource, hwritten]
        simp
      have hflag := map_setup_block? p (byteLength before)
      rw [hwritten, List.append_assoc p.written, Text.encode_append, ← List.append_assoc before,
        blocksFrom, ← Text.byteLength_append]
      rw [setups, List.filterMap_cons, ← hflag] at hnew
      cases hb : p.block? (byteLength before) with
      | none =>
          rw [hb] at hflag hnew
          obtain ⟨ranges, hblocks, hscan⟩ := ih found hrest hnew
          refine ⟨ranges, hblocks, ?_⟩
          rw [scan_of_not_element hflag.symm, ← Text.byteLength_append]
          exact hscan
      | some b =>
          rw [hb] at hnew
          have hfirst : b.setup ∉ found.map (·.setup) := by
            intro hmem
            exact (List.nodup_append.mp hnew).2.2 _ hmem _ List.mem_cons_self rfl
          obtain ⟨r, rfl, hstep⟩ := scan_of_block found (encode (written parts ++ after))
            (hrest.trans (List.append_assoc _ _ _)) hb
          rw [if_neg hfirst] at hstep
          have hfound : ((found ++ [r]).map (·.setup) ++ setups parts).Nodup := by
            rw [List.map_append, List.append_assoc]
            exact hnew
          obtain ⟨ranges, hblocks, hscan⟩ := ih (found ++ [r]) hrest hfound
          refine ⟨r :: ranges, ?_, ?_⟩
          · rw [List.map_cons, hblocks]
            rfl
          · rw [hstep, hscan, List.append_assoc found, List.append_assoc before]
            rfl

/-- A block ends in front of the end of the parts. -/
theorem le_of_mem_blocksFrom {offset : Nat} (h : b ∈ blocksFrom offset parts) :
    b.offset + byteLength b.content.toList ≤ offset + byteLength (written parts) := by
  induction parts generalizing offset with
  | nil => cases h
  | cons p parts ih =>
      rw [written, List.flatMap_cons, Text.byteLength_append]
      rcases List.mem_append.mp h with hb | hb
      · cases p with
        | gap | comment | external => cases hb
        | element t content close =>
            obtain rfl := List.mem_singleton.mp hb
            have hend : '>'.utf8Size = 1 := by decide
            rw [Part.written, Text.byteLength_append, Text.byteLength_cons, Text.byteLength_append,
              String.toList_ofList, hend]
            dsimp only
            omega
      · have hle := ih hb
        rw [written] at hle
        omega

end

/-- A file in which no flag comes twice is read as it was written. -/
theorem blocks_of_written (parts : List Part) (hnew : (setups parts).Nodup) :
    extractScriptBlocks (String.ofList (written parts)) = .ok (blocksFrom 0 parts) := by
  have hsource : (String.ofList (written parts)).toList = [] ++ written parts ++ [] := by
    rw [String.toList_ofList, List.nil_append, List.append_nil]
  obtain ⟨ranges, hblocks, hscan⟩ := scan_written parts [] hsource hnew
  rw [List.append_nil] at hscan
  rw [extractScriptBlocks, Text.bytes_ofList]
  show (scan (byteLength []) _ []).map _ = _
  rw [hscan, Text.encode_nil, scan_nil, List.nil_append]
  exact congrArg Except.ok hblocks

/-- The blocks of a written file are found, each with the text that was written,
where it was written, and with the flag and the language of its tag.  If a flag
comes twice, the tag is reported with which it does so first. -/
theorem extractScriptBlocks_written (parts : List Part)
    (hsize : byteLength (written parts) < UInt32.size) :
    ((setups parts).Nodup →
      extractScriptBlocks (String.ofList (written parts)) = .ok (blocksFrom 0 parts)) ∧
    (∀ front p back setup, parts = front ++ p :: back → (setups front).Nodup →
      p.setup? = some setup → setup ∈ setups front →
      extractScriptBlocks (String.ofList (written parts)) =
        .error (.duplicate setup (byteLength (written front)))) ∧
    ∀ b ∈ blocksFrom 0 parts, b.offset + byteLength b.content.toList < UInt32.size := by
  have htext : (String.ofList (written parts)).toList = written parts := String.toList_ofList
  refine ⟨blocks_of_written parts, ?_, fun b hb => ?_⟩
  · rintro front p back setup rfl hnew hp hsetup
    have hwritten : written (front ++ p :: back) =
        written front ++ (p.written ++ written back) := by
      rw [written, List.flatMap_append, List.flatMap_cons]
      rfl
    have hsource : (String.ofList (written (front ++ p :: back))).toList =
        [] ++ written front ++ (p.written ++ written back) := by
      rw [htext, hwritten, List.nil_append]
    obtain ⟨ranges, hblocks, hscan⟩ := scan_written front [] hsource hnew
    rw [← map_setup_block? p (byteLength (written front)), Option.map_eq_some_iff] at hp
    obtain ⟨b, hb, rfl⟩ := hp
    obtain ⟨r, -, hstep⟩ := scan_of_block ranges (encode (written back))
      (hsource.trans (List.append_assoc _ _ _).symm) hb
    have hflags := congrArg (List.map ScriptBlock.setup) hblocks
    rw [map_setup_blocksFrom, List.map_map] at hflags
    have hrepeated : b.setup ∈ ranges.map (·.setup) := hflags ▸ hsetup
    rw [if_pos hrepeated, List.nil_append] at hstep
    rw [extractScriptBlocks, Text.bytes_ofList, hwritten]
    show (scan (byteLength []) _ []).map _ = _
    rw [hscan, List.nil_append, List.nil_append, Text.encode_append, hstep]
    rfl
  · have hle := le_of_mem_blocksFrom hb
    omega

/-! ## An example -/

/-- The tag `<SCRIPT Setup` with `lang='a>b'` and `LANG=ts` behind it. -/
def setupTag : Tag where
  name := "SCRIPT".toList
  attributes :=
    [{ gap := " ".toList, name := "Setup".toList, value := none },
     { gap := "\n".toList, name := "lang".toList, value := some (.single "a>b".toList) },
     { gap := "  ".toList, name := "LANG".toList, value := some (.bare "ts".toList) }]

/-- The tag `<script src="<script>"`. -/
def sourceTag : Tag where
  name := "script".toList
  attributes :=
    [{ gap := " ".toList, name := "src".toList, value := some (.double "<script>".toList) }]

def exampleParts : List Part :=
  [.comment "<script>".toList, .external sourceTag, .gap "é>\n".toList,
   .element setupTag "</scrip><!--".toList "Script".toList]

def repeatedParts : List Part :=
  [.element ⟨"script".toList, [], by decide⟩ [] "script".toList,
   .element ⟨"script".toList, [], by decide⟩ [] "script".toList]

/-- The script in the comment, the one in the attribute, and the open comment in
the content are passed, and a second element with the flag is reported. -/
theorem extractScriptBlocks_written_example :
    byteLength (written exampleParts) < UInt32.size ∧ (setups exampleParts).Nodup ∧
    extractScriptBlocks (String.ofList (written exampleParts)) =
      .ok [⟨"</scrip><!--", 77, true, some "ts"⟩] ∧
    byteLength (written repeatedParts) < UInt32.size ∧
    extractScriptBlocks (String.ofList (written repeatedParts)) =
      .error (.duplicate false 17) := by
  have hsize : byteLength (written exampleParts) < UInt32.size := by decide
  have hnew : (setups exampleParts).Nodup := by decide
  have hsizeRepeated : byteLength (written repeatedParts) < UInt32.size := by decide
  have hfound := (extractScriptBlocks_written exampleParts hsize).1 hnew
  have hblocks : blocksFrom 0 exampleParts = [⟨"</scrip><!--", 77, true, some "ts"⟩] := by decide
  have hrepeated := (extractScriptBlocks_written repeatedParts hsizeRepeated).2.1
    [repeatedParts.head (by decide)] _ [] false rfl (by decide) rfl (by decide)
  rw [hblocks] at hfound
  exact ⟨hsize, hnew, hfound, hsizeRepeated, hrepeated⟩

end EmitLint.Sfc.Written
