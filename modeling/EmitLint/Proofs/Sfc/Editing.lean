/-
# The blocks of an edited file

Main statement: `extractScriptBlocks_replace`.  When the content of one block is
exchanged for a longer one, and the closing tag of the block is still the first in
it, then the blocks of the file are found again.  The reasons are that what is read
in front of the content does not depend on it (`scan_of_passed`, `scan_of_kept`),
and that what is read behind it depends only on where it begins (`scan_shift`).
-/
import EmitLint.Proofs.Sfc.Cut
import EmitLint.Proofs.Sfc.Locality
import EmitLint.Proofs.Text.Ascii

namespace EmitLint.Sfc

/-! ## Where the parts of a block stand -/

section
variable {bs : List UInt8} {pos : Nat}

theorem findByte_lt {b : UInt8} {n : Nat} (h : findByte b bs = some n) : n < bs.length := by
  induction bs generalizing n with
  | nil => cases h
  | cons c bs ih =>
      rw [findByte] at h
      split at h
      · obtain rfl := Option.some.inj h
        exact Nat.succ_pos _
      · obtain ⟨m, hm, rfl⟩ := Option.map_eq_some_iff.mp h
        exact Nat.succ_lt_succ (ih hm)

/-- A value ends in front of the end of the attributes. -/
theorem stop_readValue_le (h : pos ≤ bs.length) : (readValue bs pos).1.stop ≤ bs.length := by
  unfold readValue
  split
  · exact h
  · rename_i b rest hrest
    have hlength : (b :: rest).length = bs.length - pos := by
      rw [← hrest, List.length_drop]
    rw [List.length_cons] at hlength
    split
    · have hend : (findByte b rest).getD rest.length ≤ rest.length := by
        cases hfound : findByte b rest with
        | none => exact Nat.le_refl _
        | some n => exact Nat.le_of_lt (findByte_lt hfound)
      show pos + 1 + (findByte b rest).getD rest.length ≤ bs.length
      omega
    · have hrun := runLength_le (fun b => !isBlank b) (b :: rest)
      rw [List.length_cons] at hrun
      show pos + runLength (fun b => !isBlank b) (b :: rest) ≤ bs.length
      omega

theorem stop_attributesFrom_le {a : Attribute} {v : Range} (ha : a ∈ attributesFrom bs pos)
    (hv : a.value = some v) : v.stop ≤ bs.length := by
  fun_induction attributesFrom bs pos with
  | case1 => exact absurd ha List.not_mem_nil
  | case2 pos name hname hequals value ih =>
      rcases List.mem_cons.mp ha with rfl | ha
      · obtain rfl := Option.some.inj hv
        obtain ⟨hstop, -⟩ := List.getElem?_eq_some_iff.mp hequals
        exact stop_readValue_le hstop
      · exact ih ha
  | case3 pos name hname _ ih =>
      rcases List.mem_cons.mp ha with rfl | ha
      · cases hv
      · exact ih ha

theorem stop_langRange_le {r : Range} (h : langRange bs = some r) : r.stop ≤ bs.length := by
  unfold langRange at h
  split at h
  · rename_i a ha
    exact stop_attributesFrom_le (List.mem_reverse.mp (List.mem_of_find?_eq_some ha)) h
  · cases h

end

/-- A range that stands as that of an element does: the value of `lang` in the tag,
and the tag in front of the content. -/
structure BlockRange.Ordered (r : BlockRange) : Prop where
  tag : r.tag + Mark.script.length < r.content.start
  lang : ∀ s, r.lang = some s → r.tag ≤ s.start ∧ s.stop ≤ r.content.start
  content : r.content.start ≤ r.content.stop

theorem ordered_ofElement {bs : List UInt8} {tag : Nat} (pos content : Nat)
    (h : OpeningTag bs tag) : (BlockRange.ofElement bs pos tag content).Ordered := by
  have htag := lt_of_openingTag h
  refine ⟨?_, ?_, Nat.le_add_right _ _⟩
  · show pos + Mark.script.length < pos + tag
    omega
  · intro s hs
    obtain ⟨r, hr, rfl⟩ := Option.map_eq_some_iff.mp hs
    have hstop := stop_langRange_le hr
    have hlength := List.length_take_le (tag - 1 - Mark.script.length)
      (bs.drop Mark.script.length)
    rw [Piece.attributeText] at hstop
    constructor
    · show pos ≤ r.start + (pos + Mark.script.length)
      omega
    · show r.stop + (pos + Mark.script.length) ≤ pos + tag
      omega

/-! ## What the scan adds -/

section
variable {bs : List UInt8} {pos : Nat} {found ranges : List BlockRange} {r : BlockRange}

theorem range_of_part {all : List UInt8} {p : Part} (h : p.StandsIn all)
    (hr : p.range? all = some r) :
    r.Ordered ∧ r.tag = p.start ∧ r.content.stop ≤ p.stop all := by
  unfold Part.range? at hr
  split at hr
  · rename_i tag content hpiece
    obtain rfl := Option.some.inj hr
    have hstands := h.stands
    rw [hpiece] at hstands
    cases hstands with
    | element htag _ _ =>
        refine ⟨ordered_ofElement _ _ htag, rfl, ?_⟩
        rw [Part.stop, hpiece]
        show p.start + tag + content ≤ p.start + (tag + content + Mark.scriptEnd.length)
        omega
  · cases hr

/-- The ranges that the scan adds stand behind the place where it begins. -/
theorem found_of_scan (h : scan pos bs found = .ok ranges) :
    ∃ more, ranges = found ++ more ∧ ∀ r ∈ more, r.Ordered ∧ pos ≤ r.tag := by
  have hbs : bs = (List.replicate pos 0 ++ bs).drop pos := by
    rw [List.drop_left' (List.length_replicate)]
  obtain ⟨parts, hreads, rfl⟩ := reads_of_scan hbs h
  refine ⟨_, rfl, ?_⟩
  intro r hr
  obtain ⟨p, hp, hrange⟩ := List.mem_filterMap.mp hr
  obtain ⟨hordered, htag, -⟩ := range_of_part (standsIn_of_reads hreads p hp) hrange
  refine ⟨hordered, ?_⟩
  rw [htag]
  exact le_start_of_reads hreads p hp

/-- Each range ends in front of the next one. -/
theorem pairwise_of_scan (h : scan 0 bs [] = .ok ranges) :
    ranges.Pairwise fun q r => q.content.stop ≤ r.tag := by
  obtain ⟨parts, hreads, rfl⟩ := reads_of_scan List.drop_zero.symm h
  have hstands := standsIn_of_reads hreads
  rw [List.nil_append, List.pairwise_filterMap]
  refine (pairwise_of_reads hreads).imp_of_mem ?_
  intro p q hp hq hpq r hr s hs
  obtain ⟨-, -, hstop⟩ := range_of_part (hstands p hp) hr
  obtain ⟨-, htag, -⟩ := range_of_part (hstands q hq) hs
  omega

end

/-! ## A scan in another place -/

namespace BlockRange

/-- The range in a file with `n` more bytes in front of it. -/
def shift (r : BlockRange) (n : Nat) : BlockRange :=
  { r with tag := r.tag + n, content := r.content.shift n, lang := r.lang.map (·.shift n) }

/-- The range with a content of `n` bytes. -/
def resize (r : BlockRange) (n : Nat) : BlockRange :=
  { r with content := ⟨r.content.start, r.content.start + n⟩ }

@[simp] theorem setup_shift (r : BlockRange) (n : Nat) : (r.shift n).setup = r.setup := rfl

@[simp] theorem setup_resize (r : BlockRange) (n : Nat) : (r.resize n).setup = r.setup := rfl

theorem ofElement_shift (bs : List UInt8) (pos tag content n : Nat) :
    ofElement bs (pos + n) tag content = (ofElement bs pos tag content).shift n := by
  have hplace : ∀ m, pos + n + m = pos + m + n := fun m => Nat.add_right_comm pos n m
  simp only [ofElement, shift, Option.map_map, Function.comp_def, Span.shift, hplace,
    Nat.add_assoc, Nat.add_comm n]

end BlockRange

section
variable {bs : List UInt8} {pos : Nat} {found found' ranges : List BlockRange}

/-- What the scan finds in a text does not depend on what stands in front of it. -/
theorem scan_shift (n : Nat) (found' : List BlockRange)
    (hflags : found'.map (·.setup) = found.map (·.setup))
    (h : scan pos bs found = .ok (found ++ ranges)) :
    scan (pos + n) bs found' = .ok (found' ++ ranges.map (·.shift n)) := by
  fun_induction scan pos bs found generalizing found' ranges with
  | case1 pos found =>
      have hranges : ranges = [] := by simpa using h
      rw [scan_nil, hranges]
      simp
  | case2 pos bs found hbs hp =>
      have hranges : ranges = [] := by simpa using h
      rw [scan_of_openComment hp, hranges]
      simp
  | case3 | case4 => cases h
  | case5 pos bs found _ tag content hp block hnew =>
      rename_i m ih
      obtain ⟨more, hmore, -⟩ := found_of_scan h
      obtain rfl : ranges = block :: more := by simpa using hmore
      have hfresh : (BlockRange.ofElement bs (pos + n) tag content).setup ∉
          found'.map (·.setup) := by
        rw [hflags, ← any_setup_iff]
        exact hnew
      have hfound : scan (pos + m) (bs.drop m) (found ++ [block]) =
          .ok (found ++ [block] ++ more) := by simpa using h
      have hrest := ih (found' ++ [block.shift n]) (by simp [hflags]) hfound
      rw [scan_of_new_element hp hfresh, BlockRange.ofElement_shift, Nat.add_right_comm]
      simpa using hrest
  | case6 pos bs found _ m hp ih =>
      rw [scan_of_comment hp, Nat.add_right_comm]
      exact ih found' hflags h
  | case7 pos bs found _ m hp ih =>
      rw [scan_of_external hp, Nat.add_right_comm]
      exact ih found' hflags h
  | case8 pos bs found hbs hp ih =>
      rw [scan_of_text hbs hp, Nat.add_right_comm]
      exact ih found' hflags h

end

/-! ## A scan with another content in a block -/

section
variable {bs x old new v : List UInt8} {pos n k : Nat} {found front back more : List BlockRange}
  {r : BlockRange}

/-- A range that is found behind a piece has the piece, and a tag, in front of it. -/
theorem lt_content_of_scan (h : scan (pos + n) bs found = .ok (found ++ more)) (hr : r ∈ more)
    (hstart : r.content.start = pos + k) : n + Mark.script.length < k := by
  obtain ⟨others, hothers, hplaces⟩ := found_of_scan h
  rw [List.append_cancel_left hothers] at hr
  obtain ⟨hordered, htag⟩ := hplaces r hr
  have hcontent := hordered.tag
  omega

theorem content_drop {m : Nat} (hm : m ≤ x.length)
    (hr : r.content = ⟨pos + x.length, pos + x.length + k⟩) :
    r.content = ⟨pos + m + (x.drop m).length, pos + m + (x.drop m).length + k⟩ := by
  have hplace : pos + m + (x.drop m).length = pos + x.length := by
    rw [List.length_drop]
    omega
  rw [hr, hplace]

theorem drop_of_append {m : Nat} (hbs : x ++ v = bs) (hm : m ≤ x.length) :
    x.drop m ++ v = bs.drop m := by
  rw [← hbs, List.drop_append_of_le_length hm]

theorem ofElement_append {tag content : Nat} (h : tag ≤ x.length)
    (hscript : Mark.script.length ≤ tag) :
    BlockRange.ofElement (x ++ bs) pos tag content = BlockRange.ofElement x pos tag content := by
  have hattributes : Piece.attributeText (x ++ bs) tag = Piece.attributeText x tag := by
    rw [Piece.attributeText, Piece.attributeText,
      List.drop_append_of_le_length (Nat.le_trans hscript h), List.take_append_of_le_length]
    rw [List.length_drop]
    omega
  rw [BlockRange.ofElement, BlockRange.ofElement, hattributes]

/-- The element whose content changes is an element still. -/
theorem front_replace
    (hclose : FirstAt Closes (old ++ v) old.length → FirstAt Closes (new ++ v) new.length)
    (h : Piece.front (x ++ (old ++ v)) = .element x.length old.length) :
    Mark.script.length ≤ x.length ∧
      Piece.front (x ++ (new ++ v)) = .element x.length new.length := by
  rw [Piece.front_eq_iff] at h ⊢
  cases h with
  | element htag hslash hfirst =>
      have hscript := lt_of_openingTag htag
      rw [List.getElem?_append_left (by omega)] at hslash
      rw [List.drop_left] at hfirst
      refine ⟨Nat.le_of_lt hscript, .element (openingTag_append (Nat.le_refl _) htag) ?_ ?_⟩
      · rw [List.getElem?_append_left (by omega)]
        exact hslash
      · rw [List.drop_left]
        exact hclose hfirst

/-- A piece that is read and leaves nothing behind. -/
def Piece.Passed (p : Piece) : Prop :=
  p = .text ∨ (∃ n, p = .comment n) ∨ ∃ n, p = .external n

/-- Such a piece is read as before when something far behind it is exchanged. -/
theorem scan_of_passed {rest : List UInt8} {p : Piece} (hp : p.Passed)
    (hreach : p.length + Mark.script.length < x.length) (h : Piece.front (x ++ bs) = p) :
    scan pos (x ++ rest) found = scan (pos + p.length) (x.drop p.length ++ rest) found := by
  have hdrop : (x ++ rest).drop p.length = x.drop p.length ++ rest :=
    List.drop_append_of_le_length (by omega)
  have hfront : ¬ p.Stops → p.reach ≤ x.length → Piece.front (x ++ rest) = p :=
    fun hstops hlength => front_append hstops hlength h
  rw [← hdrop]
  rcases hp with rfl | ⟨n, rfl⟩ | ⟨n, rfl⟩
  · have hone : Piece.text.length = 1 := rfl
    have hlength : Piece.text.reach ≤ x.length := by
      show Mark.script.length + 1 ≤ x.length
      omega
    have hne : x ++ rest ≠ [] := by
      rw [← List.length_pos_iff, List.length_append]
      omega
    exact scan_of_text hne (hfront (by simp [Piece.Stops]) hlength)
  · have hlength : n ≤ x.length := by
      rw [Piece.length] at hreach
      omega
    exact scan_of_comment (hfront (by simp [Piece.Stops]) hlength)
  · have hlength : n ≤ x.length := by
      rw [Piece.length] at hreach
      omega
    exact scan_of_external (hfront (by simp [Piece.Stops]) hlength)

/-- So the scan gets over it and goes on with what is left of the text in front. -/
theorem scan_replace_of_passed {p : Piece} {result : Except ScriptError (List BlockRange)}
    (hp : p.Passed) (hbs : x ++ (old ++ v) = bs) (hfront : Piece.front bs = p)
    (hmem : r ∈ more) (hr : r.content = ⟨pos + x.length, pos + x.length + k⟩)
    (h : scan (pos + p.length) (bs.drop p.length) found = .ok (found ++ more))
    (ih : ∀ y : List UInt8,
      r.content = ⟨pos + p.length + y.length, pos + p.length + y.length + k⟩ →
        y ++ (old ++ v) = bs.drop p.length →
          scan (pos + p.length) (y ++ (new ++ v)) found = result) :
    scan pos (x ++ (new ++ v)) found = result := by
  have hreach := lt_content_of_scan h hmem (congrArg Span.start hr)
  have hm : p.length ≤ x.length := by omega
  rw [scan_of_passed hp hreach (hbs.symm ▸ hfront)]
  exact ih (x.drop p.length) (content_drop hm hr) (drop_of_append hbs hm)

/-- An element in front of the one whose content changes is found as before. -/
theorem scan_of_kept {rest rest' : List UInt8} {tag content : Nat} (hbs : x ++ rest = bs)
    (hp : Piece.front bs = .element tag content)
    (hlength : (Piece.element tag content).length ≤ x.length)
    (hnew : (BlockRange.ofElement bs pos tag content).setup ∉ found.map (·.setup)) :
    scan pos (x ++ rest') found =
      scan (pos + (Piece.element tag content).length)
        (x.drop (Piece.element tag content).length ++ rest')
        (found ++ [BlockRange.ofElement bs pos tag content]) := by
  subst hbs
  have htag : tag ≤ x.length := by
    rw [Piece.length] at hlength
    omega
  have hscript : Mark.script.length ≤ tag := by
    cases Piece.front_eq_iff.mp hp with
    | element htag _ _ => exact Nat.le_of_lt (lt_of_openingTag htag)
  have hfront : Piece.front (x ++ rest') = .element tag content :=
    front_append (by simp [Piece.Stops]) hlength hp
  rw [ofElement_append htag hscript] at hnew ⊢
  rw [scan_of_new_element hfront, ofElement_append htag hscript,
    List.drop_append_of_le_length hlength]
  rw [ofElement_append htag hscript]
  exact hnew

/-- The step from the element whose content changes, and what is found behind it. -/
theorem scan_of_replaced {tag content : Nat}
    (hclose : FirstAt Closes (old ++ v) old.length → FirstAt Closes (new ++ v) new.length)
    (hlength : new.length = old.length + n) (hbs : x ++ (old ++ v) = bs)
    (hp : Piece.front bs = .element tag content)
    (hnew : (BlockRange.ofElement bs pos tag content).setup ∉ found.map (·.setup))
    (hr : (BlockRange.ofElement bs pos tag content).content =
      ⟨pos + x.length, pos + x.length + old.length⟩)
    (h : scan (pos + (Piece.element tag content).length)
        (bs.drop (Piece.element tag content).length)
        (found ++ [BlockRange.ofElement bs pos tag content]) =
      .ok (found ++ BlockRange.ofElement bs pos tag content :: back)) :
    scan pos (x ++ (new ++ v)) found = .ok (found ++
      (BlockRange.ofElement bs pos tag content).resize new.length :: back.map (·.shift n)) := by
  subst hbs
  obtain ⟨htag, hcontent⟩ := Span.mk.inj hr
  obtain rfl : tag = x.length := Nat.add_left_cancel htag
  obtain rfl : content = old.length := Nat.add_left_cancel hcontent
  obtain ⟨hscript, hfront⟩ := front_replace hclose hp
  have hblock : BlockRange.ofElement (x ++ (new ++ v)) pos x.length new.length =
      (BlockRange.ofElement (x ++ (old ++ v)) pos x.length old.length).resize new.length := by
    rw [ofElement_append (Nat.le_refl _) hscript, ofElement_append (Nat.le_refl _) hscript]
    rfl
  have hdrop : ∀ inside : List UInt8,
      (x ++ (inside ++ v)).drop (Piece.element x.length inside.length).length =
        v.drop Mark.scriptEnd.length := by
    intro inside
    rw [Piece.length, ← List.drop_drop, ← List.drop_drop, List.drop_left, List.drop_left]
  have hplace : pos + (Piece.element x.length new.length).length =
      pos + (Piece.element x.length old.length).length + n := by
    rw [Piece.length, Piece.length, hlength]
    omega
  rw [hdrop] at h
  rw [scan_of_new_element hfront (hblock ▸ hnew), hblock, hdrop, hplace]
  generalize BlockRange.ofElement (x ++ (old ++ v)) pos x.length old.length = block at h ⊢
  have hfound : scan (pos + (Piece.element x.length old.length).length)
      (v.drop Mark.scriptEnd.length) (found ++ [block]) = .ok (found ++ [block] ++ back) := by
    simpa using h
  have hshift := scan_shift n (found ++ [block.resize new.length]) (by simp) hfound
  simpa using hshift

/-- When the content of an element changes, so that it still ends where its closing
tag stands, then its range grows with it, all in front of it stay as they are, and all
behind it move. -/
theorem scan_replace
    (hclose : FirstAt Closes (old ++ v) old.length → FirstAt Closes (new ++ v) new.length)
    (hlength : new.length = old.length + n)
    (hr : r.content = ⟨pos + x.length, pos + x.length + old.length⟩)
    (h : scan pos (x ++ (old ++ v)) found = .ok (found ++ (front ++ r :: back))) :
    scan pos (x ++ (new ++ v)) found =
      .ok (found ++ (front ++ r.resize new.length :: back.map (·.shift n))) := by
  have hmem : r ∈ front ++ r :: back := List.mem_append_right front List.mem_cons_self
  generalize hbs : x ++ (old ++ v) = bs at h
  fun_induction scan pos bs found generalizing x front with
  | case1 pos found => simp at h
  | case2 pos bs found _ hp => simp at h
  | case3 | case4 => cases h
  | case5 pos bs found _ tag content hp block hnew =>
      rename_i m ih
      obtain ⟨more, hmore, -⟩ := found_of_scan h
      rw [any_setup_iff] at hnew
      cases front with
      | nil =>
          obtain ⟨rfl, rfl⟩ : r = block ∧ back = more := by simpa using hmore
          exact scan_of_replaced hclose hlength hbs hp hnew hr (by simpa using h)
      | cons q front =>
          obtain ⟨rfl, rfl⟩ : block = q ∧ more = front ++ r :: back := by
            simpa [eq_comm] using hmore
          have hlater : r ∈ front ++ r :: back := List.mem_append_right front List.mem_cons_self
          have hfound : scan (pos + m) (bs.drop m) (found ++ [block]) =
              .ok (found ++ [block] ++ (front ++ r :: back)) := by simpa using h
          have hreach := lt_content_of_scan hfound hlater (congrArg Span.start hr)
          have hm : m ≤ x.length := by omega
          have hrest := ih (content_drop hm hr) hlater (drop_of_append hbs hm) hfound
          rw [scan_of_kept hbs hp hm hnew]
          simpa using hrest
  | case6 pos bs found _ m hp =>
      rename_i ih
      exact scan_replace_of_passed (.inr (.inl ⟨m, rfl⟩)) hbs hp hmem hr h
        fun _ hy hrest => ih hy hmem hrest h
  | case7 pos bs found _ m hp =>
      rename_i ih
      exact scan_replace_of_passed (.inr (.inr ⟨m, rfl⟩)) hbs hp hmem hr h
        fun _ hy hrest => ih hy hmem hrest h
  | case8 pos bs found _ hp =>
      rename_i ih
      exact scan_replace_of_passed (.inl rfl) hbs hp hmem hr h
        fun _ hy hrest => ih hy hmem hrest h

end

/-! ## The blocks of the edited file -/

namespace ScriptBlock

/-- The block in a file with `n` more bytes in front of it. -/
def shift (b : ScriptBlock) (n : Nat) : ScriptBlock := { b with offset := b.offset + n }

end ScriptBlock

open Text (byteLength encode)

section
variable {source edited : String} {before before' after : List Char} {r : BlockRange} {n : Nat}

theorem slice_eq {text text' : String} {i j i' j' : Nat}
    (h : Text.slice? text.toList i j = Text.slice? text'.toList i' j') :
    Text.slice text i j = Text.slice text' i' j' := by
  rw [Text.slice, Text.slice, h]

/-- A block does not depend on what stands behind it. -/
theorem ofRange_left (hsource : source.toList = before ++ after) (hr : r.Ordered)
    (h : r.content.stop ≤ byteLength before) :
    ScriptBlock.ofRange source r = ScriptBlock.ofRange (String.ofList before) r := by
  have hslice : ∀ i j, j ≤ byteLength before →
      Text.slice source i j = Text.slice (String.ofList before) i j := by
    intro i j hj
    refine slice_eq ?_
    rw [hsource, String.toList_ofList, Text.slice?_append_left after hj]
  have hlang : ∀ s, r.lang = some s → s.stop ≤ byteLength before :=
    fun s hs => Nat.le_trans (hr.lang s hs).2 (Nat.le_trans hr.content h)
  rw [ScriptBlock.ofRange, ScriptBlock.ofRange, ScriptBlock.mk.injEq]
  exact ⟨hslice _ _ h, rfl, rfl, Option.map_congr fun s hs => hslice _ _ (hlang s hs)⟩

/-- A block moves with what stands in front of it. -/
theorem ofRange_right (hsource : source.toList = before ++ after)
    (hedited : edited.toList = before' ++ after)
    (hlength : byteLength before' = byteLength before + n) (hr : r.Ordered)
    (h : byteLength before ≤ r.tag) :
    ScriptBlock.ofRange edited (r.shift n) = (ScriptBlock.ofRange source r).shift n := by
  have hslice : ∀ i j, r.tag ≤ i →
      Text.slice edited (i + n) (j + n) = Text.slice source i j := by
    intro i j hi
    refine slice_eq ?_
    rw [hsource, hedited, Text.slice?_append_right after (Nat.le_trans h hi) hlength]
  have hcontent : r.tag ≤ r.content.start := by
    have htag := hr.tag
    omega
  rw [ScriptBlock.ofRange, ScriptBlock.ofRange, ScriptBlock.shift, ScriptBlock.mk.injEq]
  refine ⟨hslice _ _ hcontent, rfl, rfl, ?_⟩
  rw [BlockRange.shift, Option.map_map]
  exact Option.map_congr fun s hs => hslice _ _ (hr.lang s hs).1

/-- The block itself keeps everything but its content. -/
theorem ofRange_resize {old new : List Char} (hsource : source.toList = before ++ old ++ after)
    (hedited : edited.toList = before ++ new ++ after) (hr : r.Ordered)
    (hstart : r.content.start = byteLength before) :
    ScriptBlock.ofRange edited (r.resize (byteLength new)) =
      { ScriptBlock.ofRange source r with content := String.ofList new } := by
  have hcontent : Text.slice edited (byteLength before) (byteLength before + byteLength new) =
      String.ofList new := by
    rw [Text.slice, hedited, Text.slice?_append, Option.getD_some]
  have hlang : ∀ s, r.lang = some s →
      Text.slice edited s.start s.stop = Text.slice source s.start s.stop := by
    intro s hs
    have hstop := (hr.lang s hs).2
    rw [hstart] at hstop
    refine slice_eq ?_
    rw [hsource, hedited, List.append_assoc, List.append_assoc, Text.slice?_append_left _ hstop,
      Text.slice?_append_left _ hstop]
  rw [ScriptBlock.ofRange, ScriptBlock.ofRange, ScriptBlock.mk.injEq]
  refine ⟨?_, rfl, rfl, ?_⟩
  · rw [BlockRange.resize, hstart]
    exact hcontent
  · rw [BlockRange.resize]
    exact Option.map_congr hlang

/-- Block by block, what is cut out of the edited file. -/
theorem map_ofRange_replace {old new : List Char} {fronts backs : List BlockRange}
    (hsource : source.toList = before ++ old ++ after)
    (hedited : edited.toList = before ++ new ++ after)
    (hlength : byteLength new = byteLength old + n)
    (hordered : ∀ q ∈ fronts ++ r :: backs, q.Ordered)
    (hpairs : (fronts ++ r :: backs).Pairwise fun q r => q.content.stop ≤ r.tag)
    (hstart : r.content.start = byteLength before)
    (hstop : r.content.stop = byteLength before + byteLength old) :
    (fronts ++ r.resize (byteLength new) :: backs.map (·.shift n)).map
        (ScriptBlock.ofRange edited) =
      fronts.map (ScriptBlock.ofRange source) ++
        { ScriptBlock.ofRange source r with content := String.ofList new } ::
          (backs.map (ScriptBlock.ofRange source)).map (·.shift n) := by
  obtain ⟨-, hbehind, hfront⟩ := List.pairwise_append.mp hpairs
  have hr : r.Ordered := hordered r (List.mem_append_right fronts List.mem_cons_self)
  have hfronts : ∀ q ∈ fronts,
      ScriptBlock.ofRange edited q = ScriptBlock.ofRange source q := by
    intro q hq
    have hq' : q.Ordered := hordered q (List.mem_append_left _ hq)
    have hle : q.content.stop ≤ byteLength before := by
      have htag := hfront q hq r List.mem_cons_self
      have hcontent := hr.tag
      omega
    rw [List.append_assoc] at hsource hedited
    rw [ofRange_left hsource hq' hle, ofRange_left hedited hq' hle]
  have hbacks : ∀ q ∈ backs,
      ScriptBlock.ofRange edited (q.shift n) = (ScriptBlock.ofRange source q).shift n := by
    intro q hq
    have hq' : q.Ordered :=
      hordered q (List.mem_append_right fronts (List.mem_cons_of_mem r hq))
    have hle : byteLength (before ++ old) ≤ q.tag := by
      rw [Text.byteLength_append, ← hstop]
      exact List.rel_of_pairwise_cons hbehind hq
    refine ofRange_right hsource hedited ?_ hq' hle
    rw [Text.byteLength_append, Text.byteLength_append, hlength, Nat.add_assoc]
  rw [List.map_append, List.map_cons, List.map_map, List.map_map,
    ofRange_resize hsource hedited hr hstart, List.map_congr_left hfronts]
  refine congrArg (fronts.map _ ++ ·) (congrArg (_ :: ·) ?_)
  exact List.map_congr_left hbacks

/-- When the content of a block grows and still ends where its closing tag stands, all
blocks of the file are found again: those in front where they were, the block itself
with its new content, and those behind moved. -/
theorem extractScriptBlocks_replace {front back : List ScriptBlock} {b : ScriptBlock}
    {new : List Char} (h : extractScriptBlocks source = .ok (front ++ b :: back))
    (hsource : source.toList = before ++ b.content.toList ++ after)
    (hbefore : byteLength before = b.offset)
    (hlength : byteLength new = byteLength b.content.toList + n)
    (hclose : FirstAt Closes (encode b.content.toList ++ encode after)
        (byteLength b.content.toList) →
      FirstAt Closes (encode new ++ encode after) (byteLength new)) :
    extractScriptBlocks (String.ofList (before ++ new ++ after)) =
      .ok (front ++ { b with content := String.ofList new } :: back.map (·.shift n)) := by
  obtain ⟨ranges, hscan, hblocks⟩ := exists_ranges h
  obtain ⟨fronts, rest, rfl, rfl, hrest⟩ := List.map_eq_append_iff.mp hblocks.symm
  obtain ⟨r, backs, rfl, rfl, rfl⟩ := List.map_eq_cons_iff.mp hrest
  have hordered : ∀ q ∈ fronts ++ r :: backs, q.Ordered := by
    obtain ⟨more, hmore, hplaces⟩ := found_of_scan hscan
    intro q hq
    rw [hmore, List.nil_append] at hq
    exact (hplaces q hq).1
  have hstart : r.content.start = byteLength before := hbefore.symm
  have hcut := cut_of_scan hscan r (List.mem_append_right fronts List.mem_cons_self)
  obtain ⟨-, hstop⟩ := slice?_of_ofRange hcut
  generalize (ScriptBlock.ofRange source r).content.toList = old at *
  have hbytes : Text.bytes source = encode before ++ (encode old ++ encode after) := by
    rw [← Text.encode_append, ← Text.encode_append, ← List.append_assoc, ← hsource]
    rfl
  have hcontent : r.content = ⟨0 + (encode before).length,
      0 + (encode before).length + (encode old).length⟩ := by
    rw [Text.length_encode, Text.length_encode, Nat.zero_add, ← hstart, hstop]
  have hreplaced : scan 0 (encode before ++ (encode new ++ encode after)) [] =
      .ok (fronts ++ r.resize (byteLength new) :: backs.map (·.shift n)) := by
    have hfound : scan 0 (encode before ++ (encode old ++ encode after)) [] =
        .ok ([] ++ (fronts ++ r :: backs)) := hbytes ▸ hscan
    rw [← Text.length_encode, ← Text.length_encode] at hclose hlength
    rw [← Text.length_encode new]
    exact scan_replace hclose hlength hcontent hfound
  rw [← Text.encode_append, ← Text.encode_append, ← List.append_assoc,
    ← Text.bytes_ofList] at hreplaced
  rw [extractScriptBlocks, hreplaced]
  refine congrArg Except.ok ?_
  exact map_ofRange_replace hsource String.toList_ofList hlength hordered
    (pairwise_of_scan hscan) hstart (by rw [← hstart, hstop])

end
end EmitLint.Sfc
