/-
# A file as a row of pieces

The scan takes one piece after the other off the front of a file.  `Tiled` is a text
that such pieces fill to its end, so that the scan comes to the end outside of any
comment, tag or block.  Main statements: `scan_append_of_tiled`, what is found in such
a text stays when a `<` follows it; `scan_eq_error_iff`, the scan fails exactly where
behind such a text there stands a script that is never closed or a second one of its
kind; and `scan_moved`, with more text in front all that is found moves.
-/
import EmitLint.Proofs.Sfc.Editing
import EmitLint.Proofs.Sfc.RoundTrip

namespace EmitLint.Sfc

/-- The text falls into these pieces, and none of them ends the reading. -/
inductive Tiled : List UInt8 → List Piece → Prop
  | nil : Tiled [] []
  | cons {bs : List UInt8} {p : Piece} {pieces : List Piece} :
      bs ≠ [] → Stands bs p → ¬ p.Stops → Tiled (bs.drop p.length) pieces →
      Tiled bs (p :: pieces)

/-! ## What stands in front of a `<` -/

section
variable {xs rest word : List UInt8} {p : Piece}

/-- A word with `<` nowhere but at its front does not reach over a `<`. -/
theorem prefix_of_append_lt (hword : 60 ∉ word.tail) (hxs : xs ≠ [])
    (hrest : rest.head? = some 60) (h : word <+: xs ++ rest) : word <+: xs := by
  rcases List.prefix_or_prefix_of_prefix h (List.prefix_append xs rest) with hprefix | hprefix
  · exact hprefix
  · obtain ⟨back, rfl⟩ := hprefix
    cases back with
    | nil => exact ⟨[], by simp⟩
    | cons b back =>
        obtain ⟨x, xs, rfl⟩ := List.exists_cons_of_ne_nil hxs
        obtain ⟨tail, htail⟩ := (List.prefix_append_right_inj (x :: xs)).mp h
        rw [← htail] at hrest
        obtain rfl := Option.some.inj hrest
        exact absurd (List.mem_append_right xs List.mem_cons_self) hword

theorem isScriptOpen_append_lt (hxs : xs ≠ []) (hrest : rest.head? = some 60) :
    isScriptOpen (xs ++ rest) = isScriptOpen xs := by
  by_cases hlong : Mark.script.length < xs.length
  · exact isScriptOpen_append hlong
  · have hshort : isScriptOpen xs = false := by
      rw [isScriptOpen, List.getElem?_eq_none (Nat.le_of_not_lt hlong), Bool.and_false]
    rw [hshort, Bool.eq_false_iff]
    intro hopen
    rw [isScriptOpen, Bool.and_eq_true, Written.startsWith_iff, List.map_append] at hopen
    obtain ⟨hmark, hnext⟩ := hopen
    have hrest' : (rest.map lower).head? = some 60 := by
      rw [List.head?_map, hrest]
      rfl
    have hfits := (prefix_of_append_lt (by decide) (by simpa using hxs) hrest' hmark).length_le
    rw [List.length_map] at hfits
    have hbehind : (xs ++ rest)[Mark.script.length]? = some 60 := by
      rw [Nat.le_antisymm hfits (Nat.le_of_not_lt hlong),
        List.getElem?_append_right (Nat.le_refl _), Nat.sub_self, ← List.head?_eq_getElem?, hrest]
    rw [hbehind] at hnext
    cases hnext

theorem reach_le_of_stands (h : Stands xs p) (hp : p ≠ .text) : p.reach ≤ xs.length := by
  have hlength := (length_le_of_stands h).resolve_right hp
  cases p with
  | text => exact absurd rfl hp
  | comment | openComment | external | element | unclosed => exact hlength

/-- In front of a `<` all pieces are found that were found at the end of the text. -/
theorem front_append_lt (hxs : xs ≠ []) (hrest : rest.head? = some 60) (h : Piece.front xs = p)
    (hp : ¬ p.Stops) : Piece.front (xs ++ rest) = p := by
  by_cases htext : p = .text
  · subst htext
    cases Piece.front_eq_iff.mp h with
    | text hcomment hopen =>
        refine Piece.front_eq_iff.mpr (.text ?_ ?_)
        · exact mt (prefix_of_append_lt (by decide) hxs hrest) hcomment
        · rw [isScriptOpen_append_lt hxs hrest, hopen]
  · have hreach := reach_le_of_stands (Piece.front_eq_iff.mp h) htext
    rw [← List.append_nil xs] at h
    exact front_append hp hreach h

/-- A piece that is found in the front part of a text is found in that part alone. -/
theorem front_of_front_append (h : Piece.front (xs ++ rest) = p) (hp : ¬ p.Stops)
    (hlength : p.length ≤ xs.length) : Piece.front xs = p := by
  by_cases htext : p = .text
  · subst htext
    cases Piece.front_eq_iff.mp h with
    | text hcomment hopen =>
        refine Piece.front_eq_iff.mpr (.text ?_ (Bool.eq_false_iff.mpr fun hother => ?_))
        · exact fun hother => hcomment (hother.trans (List.prefix_append xs rest))
        · have hlong : Mark.script.length < xs.length := by
            by_contra hshort
            rw [isScriptOpen, List.getElem?_eq_none (Nat.le_of_not_lt hshort),
              Bool.and_false] at hother
            cases hother
          rw [isScriptOpen_append hlong, hother] at hopen
          cases hopen
  · have hreach : p.reach ≤ xs.length := by
      cases p with
      | text => exact absurd rfl htext
      | comment | openComment | external | element | unclosed => exact hlength
    rw [← List.append_nil xs]
    exact front_append hp hreach h

end

/-! ## The scan, piece by piece -/

namespace Piece

theorem passed_or_element {p : Piece} (h : ¬ p.Stops) :
    p.Passed ∨ ∃ tag content, p = .element tag content := by
  cases p with
  | text => exact .inl (.inl rfl)
  | comment n => exact .inl (.inr (.inl ⟨n, rfl⟩))
  | external n => exact .inl (.inr (.inr ⟨n, rfl⟩))
  | element tag content => exact .inr ⟨tag, content, rfl⟩
  | openComment => exact absurd (.inl rfl) h
  | unclosed => exact absurd (.inr rfl) h

theorem Passed.not_stops {p : Piece} (h : p.Passed) : ¬ p.Stops := by
  rcases h with rfl | ⟨n, rfl⟩ | ⟨n, rfl⟩ <;> simp [Stops]

end Piece

section
variable {bs xs rest : List UInt8} {p : Piece} {pieces : List Piece} {pos : Nat}
  {found : List BlockRange}

theorem scan_of_front_passed (hbs : bs ≠ []) (h : Piece.front bs = p) (hp : p.Passed) :
    scan pos bs found = scan (pos + p.length) (bs.drop p.length) found := by
  rcases hp with rfl | ⟨n, rfl⟩ | ⟨n, rfl⟩
  · exact scan_of_text hbs h
  · exact scan_of_comment h
  · exact scan_of_external h

theorem length_le_of_front (hbs : bs ≠ []) (h : Piece.front bs = p) : p.length ≤ bs.length := by
  rcases length_le_of_stands (Piece.front_eq_iff.mp h) with hlength | rfl
  · exact hlength
  · exact List.length_pos_iff.mpr hbs

theorem script_le_of_front_element {tag content : Nat}
    (h : Piece.front bs = .element tag content) : Mark.script.length ≤ tag := by
  cases Piece.front_eq_iff.mp h with
  | element htag _ _ => exact Nat.le_of_lt (lt_of_openingTag htag)

theorem ofElement_append_of_front {tag content : Nat}
    (h : Piece.front xs = .element tag content) (rest : List UInt8) (pos : Nat) :
    BlockRange.ofElement (xs ++ rest) pos tag content =
      BlockRange.ofElement xs pos tag content := by
  have hlength := length_le_of_front (ne_nil_of_front h (by simp)) h
  rw [Piece.length] at hlength
  exact ofElement_append (by omega) (script_le_of_front_element h)

/-- A tag without attributes has no flag and no language. -/
theorem ofElement_bare (bs : List UInt8) (pos content : Nat) :
    BlockRange.ofElement bs pos 8 content = ⟨pos, ⟨pos + 8, pos + 8 + content⟩, false, none⟩ := by
  have hattributes : Piece.attributeText bs 8 = [] := List.take_zero
  have hnone : attributes [] = [] := attributesFrom_of_length_le (Nat.le_refl 0)
  rw [BlockRange.ofElement, hattributes, hasSetup, langRange, hnone]
  rfl

/-- In front of a `<` a tiled text is scanned as if nothing came behind it, and then
the scan goes on from there. -/
theorem scan_append_of_tiled (h : Tiled xs pieces) (hrest : rest.head? = some 60) (pos : Nat)
    (found : List BlockRange) :
    scan pos (xs ++ rest) found =
      (scan pos xs found).bind fun ranges => scan (pos + xs.length) rest ranges := by
  induction h generalizing pos found with
  | nil =>
      rw [scan_nil]
      rfl
  | @cons xs p pieces hxs hstands hstops _ ih =>
      have hfront := Piece.front_eq_iff.mpr hstands
      have hfront' := front_append_lt hxs hrest hfront hstops
      have hlength := length_le_of_front hxs hfront
      have hdrop : (xs ++ rest).drop p.length = xs.drop p.length ++ rest :=
        List.drop_append_of_le_length hlength
      have hplace : pos + p.length + (xs.drop p.length).length = pos + xs.length := by
        rw [List.length_drop]
        omega
      rcases Piece.passed_or_element hstops with hp | ⟨tag, content, rfl⟩
      · rw [scan_of_front_passed (by simp [hxs]) hfront' hp, scan_of_front_passed hxs hfront hp,
          hdrop, ih, hplace]
      · rw [scan_of_element hfront', scan_of_element hfront, ofElement_append_of_front hfront]
        dsimp only
        split
        · rfl
        · rw [hdrop, ih, hplace]

/-- Pieces that leave nothing behind leave nothing behind together. -/
theorem scan_of_tiled_passed (h : Tiled xs pieces) (hpassed : ∀ p ∈ pieces, p.Passed) (pos : Nat)
    (found : List BlockRange) : scan pos xs found = .ok found := by
  induction h generalizing pos with
  | nil => exact scan_nil pos found
  | cons hxs hstands _ _ ih =>
      obtain ⟨hp, hpieces⟩ := List.forall_mem_cons.mp hpassed
      rw [scan_of_front_passed hxs (Piece.front_eq_iff.mpr hstands) hp]
      exact ih hpieces _

theorem scan_append_of_passed (h : Tiled xs pieces) (hpassed : ∀ p ∈ pieces, p.Passed)
    (hrest : rest.head? = some 60) (pos : Nat) (found : List BlockRange) :
    scan pos (xs ++ rest) found = scan (pos + xs.length) rest found := by
  rw [scan_append_of_tiled h hrest, scan_of_tiled_passed h hpassed]
  rfl

/-- A piece and a tiled text behind it are a tiled text. -/
theorem tiled_cons {ys : List UInt8} (hbs : bs ≠ []) (h : Piece.front bs = p) (hp : ¬ p.Stops)
    (hsplit : bs.drop p.length = ys ++ rest) (hys : Tiled ys pieces) :
    ∃ xs, bs = xs ++ rest ∧ xs ≠ [] ∧ Piece.front xs = p ∧ xs.drop p.length = ys ∧
      Tiled xs (p :: pieces) := by
  have hlength := length_le_of_front hbs h
  have htake : (bs.take p.length).length = p.length := List.length_take_of_le hlength
  have hbs' : bs = bs.take p.length ++ ys ++ rest := by
    rw [List.append_assoc, ← hsplit, List.take_append_drop]
  have hpos : 0 < p.length := by
    have hpos := Piece.length_front_pos bs
    rw [h] at hpos
    exact hpos.resolve_right hp
  have hne : bs.take p.length ++ ys ≠ [] := by
    rw [← List.length_pos_iff, List.length_append, htake]
    omega
  have hdrop : (bs.take p.length ++ ys).drop p.length = ys := List.drop_left' htake
  have hfront : Piece.front (bs.take p.length ++ ys) = p := by
    have hfits : p.length ≤ (bs.take p.length ++ ys).length := by
      rw [List.length_append, htake]
      exact Nat.le_add_right _ _
    rw [hbs'] at h
    exact front_of_front_append h hp hfits
  refine ⟨_, hbs', hne, hfront, hdrop, .cons hne (Piece.front_eq_iff.mp hfront) hp ?_⟩
  rw [hdrop]
  exact hys

end

/-! ## Where the scan fails -/

/-- What is wrong with the script that opens at the front of a text, at `offset` of its
file, when there are blocks with these flags in front of it. -/
inductive Defect (flags : List Bool) (bs : List UInt8) (offset : Nat) : ScriptError → Prop
  /-- Its tag has no end, or there is no closing tag behind it; whether it would be a
  second one of its kind does not matter. -/
  | unclosed : Stands bs .unclosed → Defect flags bs offset (.unclosed offset)
  /-- It is complete, and a second one of its kind. -/
  | duplicate {tag content : Nat} :
      Stands bs (.element tag content) → hasSetup (Piece.attributeText bs tag) ∈ flags →
      Defect flags bs offset (.duplicate (hasSetup (Piece.attributeText bs tag)) offset)

namespace Defect

variable {flags flags' : List Bool} {bs : List UInt8} {offset n : Nat} {e : ScriptError}

theorem isScriptOpen (h : Defect flags bs offset e) : isScriptOpen bs = true := by
  cases h with
  | unclosed hstands =>
      cases hstands with
      | endless hopen _ => exact hopen
      | unclosed htag _ _ => exact htag.1
  | duplicate hstands _ =>
      cases hstands with
      | element htag _ _ => exact htag.1

theorem offset_eq (h : Defect flags bs offset e) : e.offset = offset := by
  cases h <;> rfl

end Defect

theorem head?_of_isScriptOpen {bs : List UInt8} (h : isScriptOpen bs = true) :
    bs.head? = some 60 := by
  cases bs with
  | nil => cases h
  | cons b bs =>
      rw [isScriptOpen, Bool.and_eq_true, Written.startsWith_iff] at h
      have hlower : 60 = lower b := (List.cons_prefix_cons.mp h.1).1
      rw [eq_of_lower hlower.symm]
      rfl

section
variable {bs : List UInt8} {pos : Nat} {found : List BlockRange} {e : ScriptError}

theorem scan_of_defect (h : Defect (found.map (·.setup)) bs pos e) :
    scan pos bs found = .error e := by
  cases h with
  | unclosed hstands => exact scan_of_unclosed (Piece.front_eq_iff.mpr hstands)
  | duplicate hstands hflag =>
      rw [scan_of_element (Piece.front_eq_iff.mpr hstands)]
      exact if_pos hflag

/-- Behind a tiled text, in which the scan finds nothing wrong, there stands this defect. -/
def Fails (pos : Nat) (bs : List UInt8) (found : List BlockRange) (e : ScriptError) : Prop :=
  ∃ xs rest pieces ranges, bs = xs ++ rest ∧ Tiled xs pieces ∧ scan pos xs found = .ok ranges ∧
    Defect (ranges.map (·.setup)) rest (pos + xs.length) e

theorem fails_of_defect (h : Defect (found.map (·.setup)) bs pos e) : Fails pos bs found e :=
  ⟨[], bs, [], found, rfl, .nil, scan_nil pos found, h⟩

/-- A piece at the front of the text is one at the front of what is tiled. -/
theorem fails_of_step {p : Piece} {found' : List BlockRange} (hbs : bs ≠ [])
    (hp : Piece.front bs = p) (hstops : ¬ p.Stops)
    (hstep : ∀ xs rest, bs = xs ++ rest → xs ≠ [] → Piece.front xs = p →
      scan pos xs found = scan (pos + p.length) (xs.drop p.length) found')
    (h : Fails (pos + p.length) (bs.drop p.length) found' e) : Fails pos bs found e := by
  obtain ⟨ys, rest, pieces, ranges, hsplit, hys, hscan, hdefect⟩ := h
  obtain ⟨xs, rfl, hxs, hfront, hdrop, htiled⟩ := tiled_cons hbs hp hstops hsplit hys
  refine ⟨xs, rest, _, ranges, rfl, htiled, ?_, ?_⟩
  · rw [hstep xs rest rfl hxs hfront, hdrop, hscan]
  · have hlength := length_le_of_front hxs hfront
    have hplace : pos + p.length + ys.length = pos + xs.length := by
      rw [← hdrop, List.length_drop]
      omega
    exact hplace ▸ hdefect

theorem fails_of_scan (h : scan pos bs found = .error e) : Fails pos bs found e := by
  have hpassed : ∀ {pos bs found p}, bs ≠ [] → Piece.front bs = p → p.Passed →
      Fails (pos + p.length) (bs.drop p.length) found e → Fails pos bs found e :=
    fun hbs hp hpassed => fails_of_step hbs hp hpassed.not_stops
      fun _ _ _ hxs hfront => scan_of_front_passed hxs hfront hpassed
  fun_induction scan pos bs found with
  | case1 | case2 => cases h
  | case3 pos bs found _ hp =>
      obtain rfl := Except.error.inj h
      exact fails_of_defect (.unclosed (Piece.front_eq_iff.mp hp))
  | case4 pos bs found _ tag content hp block hrepeated =>
      obtain rfl := Except.error.inj h
      exact fails_of_defect
        (.duplicate (Piece.front_eq_iff.mp hp) (any_setup_iff.mp hrepeated))
  | case5 pos bs found hbs tag content hp block hnew =>
      rename_i n ih
      rw [any_setup_iff] at hnew
      refine fails_of_step hbs hp (by simp [Piece.Stops]) ?_ (ih h)
      rintro xs rest rfl - hfront
      have hblock : block = BlockRange.ofElement xs pos tag content :=
        ofElement_append_of_front hfront rest pos
      rw [hblock] at hnew ⊢
      exact scan_of_new_element hfront hnew
  | case6 pos bs found hbs n hp ih => exact hpassed hbs hp (.inr (.inl ⟨n, rfl⟩)) (ih h)
  | case7 pos bs found hbs n hp ih => exact hpassed hbs hp (.inr (.inr ⟨n, rfl⟩)) (ih h)
  | case8 pos bs found hbs hp ih => exact hpassed hbs hp (.inl rfl) (ih h)

/-- The scan fails exactly at a defect behind a tiled text that has none. -/
theorem scan_eq_error_iff : scan pos bs found = .error e ↔ Fails pos bs found e := by
  constructor
  · exact fails_of_scan
  · rintro ⟨xs, rest, pieces, ranges, rfl, htiled, hscan, hdefect⟩
    rw [scan_append_of_tiled htiled (head?_of_isScriptOpen hdefect.isScriptOpen), hscan]
    exact scan_of_defect hdefect

end

/-! ## A scan in another place -/

namespace ScriptError

/-- The error in a file with `n` more bytes in front of the tag. -/
def shift : ScriptError → Nat → ScriptError
  | duplicate setup offset, n => duplicate setup (offset + n)
  | unclosed offset, n => unclosed (offset + n)

end ScriptError

/-- An outcome, with all that was found and the error moved by `n` bytes. -/
def moved {α : Type} (shift : α → Nat → α) (n : Nat) :
    Except ScriptError (List α) → Except ScriptError (List α)
  | .ok found => .ok (found.map (shift · n))
  | .error e => .error (e.shift n)

/-- What the scan answers does not depend on what stands in front of the text. -/
theorem scan_moved (n pos : Nat) (bs : List UInt8) (found : List BlockRange) :
    scan (pos + n) bs (found.map (·.shift n)) = moved BlockRange.shift n (scan pos bs found) := by
  have hflags : (found.map (·.shift n)).map (·.setup) = found.map (·.setup) := by
    rw [List.map_map]
    rfl
  fun_induction scan pos bs found with
  | case1 pos found =>
      rw [scan_nil]
      rfl
  | case2 pos bs found _ hp =>
      rw [scan_of_openComment hp]
      rfl
  | case3 pos bs found _ hp =>
      rw [scan_of_unclosed hp]
      rfl
  | case4 pos bs found _ tag content hp block hrepeated =>
      rw [scan_of_element hp, BlockRange.ofElement_shift]
      exact if_pos (hflags ▸ any_setup_iff.mp hrepeated)
  | case5 pos bs found _ tag content hp block hnew =>
      rename_i m ih
      rw [any_setup_iff, ← hflags] at hnew
      rw [scan_of_new_element hp (by rw [BlockRange.ofElement_shift]; exact hnew),
        BlockRange.ofElement_shift, Nat.add_right_comm, ← ih (by rw [List.map_map]; rfl),
        List.map_append]
      rfl
  | case6 pos bs found _ m hp ih =>
      rw [scan_of_comment hp, Nat.add_right_comm]
      exact ih hflags
  | case7 pos bs found _ m hp ih =>
      rw [scan_of_external hp, Nat.add_right_comm]
      exact ih hflags
  | case8 pos bs found hbs hp ih =>
      rw [scan_of_text hbs hp, Nat.add_right_comm]
      exact ih hflags

/-- The blocks in front matter by their flags alone. -/
theorem scan_exchange {found' : List BlockRange} (pos : Nat) (bs : List UInt8)
    (found : List BlockRange) (hflags : found.map (·.setup) = found'.map (·.setup)) :
    (∃ more, scan pos bs found = .ok (found ++ more) ∧ scan pos bs found' = .ok (found' ++ more)) ∨
      ∃ e, scan pos bs found = .error e ∧ scan pos bs found' = .error e := by
  fun_induction scan pos bs found generalizing found' with
  | case1 pos found =>
      rw [scan_nil]
      exact .inl ⟨[], by simp⟩
  | case2 pos bs found _ hp =>
      rw [scan_of_openComment hp]
      exact .inl ⟨[], by simp⟩
  | case3 pos bs found _ hp => exact .inr ⟨_, rfl, scan_of_unclosed hp⟩
  | case4 pos bs found _ tag content hp block =>
      rename_i hrepeated
      refine .inr ⟨_, rfl, ?_⟩
      rw [scan_of_element hp]
      exact if_pos (hflags ▸ any_setup_iff.mp hrepeated)
  | case5 pos bs found _ tag content hp block hnew =>
      rename_i n ih
      rw [any_setup_iff, hflags] at hnew
      have hmore : (found ++ [block]).map (·.setup) = (found' ++ [block]).map (·.setup) := by
        rw [List.map_append, List.map_append, hflags]
      rw [scan_of_new_element hp hnew]
      rcases ih hmore with ⟨more, hleft, hright⟩ | herror
      · exact .inl ⟨block :: more, by simpa using hleft, by simpa using hright⟩
      · exact .inr herror
  | case6 pos bs found _ n hp ih =>
      rw [scan_of_comment hp]
      exact ih hflags
  | case7 pos bs found _ n hp ih =>
      rw [scan_of_external hp]
      exact ih hflags
  | case8 pos bs found hbs hp ih =>
      rw [scan_of_text hbs hp]
      exact ih hflags

/-! ## Blocks in another place -/

section

open Text (byteLength encode)

variable {source edited : String} {before before' after : List Char} {n : Nat}
  {ranges : List BlockRange}

/-- What is cut out behind a place moves with that place. -/
theorem map_ofRange_shift (hsource : source.toList = before ++ after)
    (hedited : edited.toList = before' ++ after)
    (hlength : byteLength before' = byteLength before + n)
    (hplaces : ∀ r ∈ ranges, r.Ordered ∧ byteLength before ≤ r.tag) :
    (ranges.map (·.shift n)).map (ScriptBlock.ofRange edited) =
      (ranges.map (ScriptBlock.ofRange source)).map (·.shift n) := by
  rw [List.map_map, List.map_map]
  refine List.map_congr_left fun r hr => ?_
  obtain ⟨hordered, htag⟩ := hplaces r hr
  exact ofRange_right hsource hedited hlength hordered htag

/-- Two files with the same end, and with the same blocks in front of it up to their places,
have the same blocks or the same error, moved. -/
theorem extractScriptBlocks_moved (found found' : List BlockRange)
    (hsource : source.toList = before ++ after) (hedited : edited.toList = before' ++ after)
    (hlength : byteLength before' = byteLength before + n)
    (hfound : found'.map (ScriptBlock.ofRange edited) =
      (found.map (ScriptBlock.ofRange source)).map (·.shift n))
    (hscan : scan 0 (Text.bytes source) [] = scan (byteLength before) (encode after) found)
    (hscan' : scan 0 (Text.bytes edited) [] = scan (byteLength before') (encode after) found') :
    extractScriptBlocks edited = moved ScriptBlock.shift n (extractScriptBlocks source) := by
  have hflags : (found.map (·.shift n)).map (·.setup) = found'.map (·.setup) := by
    have hflags := congrArg (List.map ScriptBlock.setup) hfound
    rw [List.map_map, List.map_map, List.map_map] at hflags
    rw [List.map_map]
    exact hflags.symm
  have hmoved := scan_moved n (byteLength before) (encode after) found
  rw [← hlength] at hmoved
  rw [extractScriptBlocks, extractScriptBlocks, hscan, hscan']
  rcases scan_exchange (byteLength before') (encode after) _ hflags with
    ⟨more, hleft, hright⟩ | ⟨e, hleft, hright⟩
  · rw [hleft] at hmoved
    rw [hright]
    cases hranges : scan (byteLength before) (encode after) found with
    | error e => rw [hranges] at hmoved; cases hmoved
    | ok ranges =>
        obtain ⟨places, rfl, hplaces⟩ := found_of_scan hranges
        rw [hranges] at hmoved
        have hmore := Except.ok.inj hmoved
        rw [List.map_append] at hmore
        obtain rfl := List.append_cancel_left hmore
        have hblocks := map_ofRange_shift hsource hedited hlength hplaces
        refine congrArg Except.ok ?_
        dsimp only
        rw [List.map_append, List.map_append, List.map_append, hfound, hblocks]
  · rw [hleft] at hmoved
    rw [hright]
    cases hranges : scan (byteLength before) (encode after) found with
    | error e' =>
        rw [hranges] at hmoved
        exact congrArg Except.error (Except.error.inj hmoved)
    | ok ranges => rw [hranges] at hmoved; cases hmoved

end
end EmitLint.Sfc
