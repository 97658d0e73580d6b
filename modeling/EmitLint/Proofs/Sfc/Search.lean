/-
# What the scan looks for

Each search of the scan, said without the scan: the first place at which a mark
stands (`FirstAt`), and the first `>` that is not in quotes (`Unquoted`).  Main
statements: the rules for `Piece.front`, one for each thing that can stand at the
front of a text, all of them in both directions.
-/
import EmitLint.Sfc.Block
import Mathlib.Data.Nat.Find

namespace EmitLint.Sfc

/-! ## The first place of a mark -/

/-- `P` holds of the text from `n` on, and from no place in front of that. -/
def FirstAt (P : List UInt8 → Prop) (bs : List UInt8) (n : Nat) : Prop :=
  P (bs.drop n) ∧ ∀ i < n, ¬ P (bs.drop i)

/-- The text begins with `</script>` in some letter case. -/
abbrev Closes (bs : List UInt8) : Prop := startsWith Mark.scriptEnd bs = true

section
variable {P : List UInt8 → Prop} {b : UInt8} {bs word : List UInt8} {n : Nat}

theorem firstAt_zero : FirstAt P bs 0 ↔ P bs :=
  ⟨fun h => h.1, fun h => ⟨h, fun i hi => absurd hi (Nat.not_lt_zero i)⟩⟩

theorem firstAt_succ : FirstAt P (b :: bs) (n + 1) ↔ ¬ P (b :: bs) ∧ FirstAt P bs n := by
  constructor
  · intro h
    exact ⟨h.2 0 (Nat.succ_pos n), h.1, fun i hi => h.2 (i + 1) (Nat.succ_lt_succ hi)⟩
  · rintro ⟨hfront, hfirst, hnone⟩
    refine ⟨hfirst, fun i hi => ?_⟩
    cases i with
    | zero => exact hfront
    | succ i => exact hnone i (Nat.lt_of_succ_lt_succ hi)

/-- A search that goes from place to place finds the first one. -/
theorem search_eq_some_iff {search : List UInt8 → Option Nat} [DecidablePred P]
    (hnil : ¬ P [])
    (hsearch_nil : search [] = none)
    (hsearch_cons : ∀ b bs,
      search (b :: bs) = if P (b :: bs) then some 0 else (search bs).map (· + 1)) :
    search bs = some n ↔ FirstAt P bs n := by
  induction bs generalizing n with
  | nil =>
      rw [hsearch_nil]
      refine ⟨fun h => (nomatch h), fun h => ?_⟩
      exact absurd (List.drop_nil ▸ h.1) hnil
  | cons b bs ih =>
      rw [hsearch_cons]
      by_cases hfront : P (b :: bs)
      · rw [if_pos hfront]
        cases n with
        | zero => exact ⟨fun _ => firstAt_zero.mpr hfront, fun _ => rfl⟩
        | succ n =>
            refine ⟨fun h => (nomatch h), fun h => ?_⟩
            exact absurd hfront (firstAt_succ.mp h).1
      · rw [if_neg hfront, Option.map_eq_some_iff]
        cases n with
        | zero =>
            refine ⟨fun ⟨m, _, hm⟩ => (nomatch hm), fun h => ?_⟩
            exact absurd (firstAt_zero.mp h) hfront
        | succ n =>
            constructor
            · rintro ⟨m, hm, hmn⟩
              obtain rfl := Nat.succ.inj hmn
              exact firstAt_succ.mpr ⟨hfront, ih.mp hm⟩
            · intro h
              exact ⟨n, ih.mpr (firstAt_succ.mp h).2, rfl⟩

theorem findClose_eq_some_iff : findClose bs = some n ↔ FirstAt Closes bs n :=
  search_eq_some_iff (by decide) rfl fun _ _ => rfl

theorem findWord_eq_some_iff (hword : word ≠ []) :
    findWord word bs = some n ↔ FirstAt (word <+: ·) bs n := by
  refine search_eq_some_iff ?_ ?_ fun b bs => ?_
  · exact fun h => hword (List.prefix_nil.mp h)
  · rw [findWord, if_neg (by simpa using hword)]
  · rw [findWord]
    simp only [List.isPrefixOf_iff_prefix]

/-- A search that finds nothing has been everywhere. -/
theorem forall_not_of_not_firstAt (h : ∀ m, ¬ FirstAt P bs m) (n : Nat) : ¬ P (bs.drop n) := by
  classical
  intro hn
  have hex : ∃ m, P (bs.drop m) := ⟨n, hn⟩
  exact h (Nat.find hex) ⟨Nat.find_spec hex, fun i hi => Nat.find_min hex hi⟩

end

/-- Only `<` itself is `<` in some letter case. -/
theorem eq_of_lower {b : UInt8} (h : lower b = 60) : b = 60 := by
  unfold lower at h
  split at h
  · rename_i hb
    have hlow : 65 ≤ b.toNat := hb.1
    have hhigh : b.toNat ≤ 90 := hb.2
    have hsum := congrArg UInt8.toNat h
    rw [UInt8.toNat_add] at hsum
    simp at hsum
    omega
  · exact h

/-! ## The end of an opening tag -/

/-- What may stand between `<script` and the `>` that ends the tag: every quote
is closed again, and a `>` stands in quotes only. -/
inductive TagText : List UInt8 → Prop
  | nil : TagText []
  | byte {b : UInt8} {bs : List UInt8} :
      b ≠ 62 → b ≠ 34 → b ≠ 39 → TagText bs → TagText (b :: bs)
  | quoted {quote : UInt8} {inside bs : List UInt8} :
      quote = 34 ∨ quote = 39 → quote ∉ inside → TagText bs →
      TagText (quote :: inside ++ quote :: bs)

section
variable {bs text rest inside : List UInt8} {quote : UInt8} {n : Nat}

/-- Out of quotes the search goes on behind the closing one. -/
theorem tagEnd_quoted_iff : tagEnd (.quoted quote) bs = some n ↔
    ∃ inside rest m, bs = inside ++ quote :: rest ∧ quote ∉ inside ∧
      tagEnd .plain rest = some m ∧ inside.length + 1 + m = n := by
  induction bs generalizing n with
  | nil => simp [tagEnd]
  | cons b bs ih =>
      rw [tagEnd, Option.map_eq_some_iff]
      by_cases hb : b = quote
      · subst hb
        rw [if_pos rfl]
        constructor
        · rintro ⟨m, hm, rfl⟩
          exact ⟨[], bs, m, rfl, List.not_mem_nil, hm, by simp [Nat.add_comm]⟩
        · rintro ⟨inside, rest, m, hbs, hinside, hm, rfl⟩
          cases inside with
          | nil =>
              obtain rfl := (List.cons.inj hbs).2
              exact ⟨m, hm, by simp [Nat.add_comm]⟩
          | cons c inside =>
              obtain rfl := (List.cons.inj hbs).1
              exact absurd List.mem_cons_self hinside
      · rw [if_neg hb]
        simp only [ih]
        constructor
        · rintro ⟨_, ⟨inside, rest, m, rfl, hinside, hm, rfl⟩, rfl⟩
          refine ⟨b :: inside, rest, m, rfl, ?_, hm, ?_⟩
          · exact List.not_mem_cons_of_ne_of_not_mem (Ne.symm hb) hinside
          · rw [List.length_cons]
            omega
        · rintro ⟨inside, rest, m, hbs, hinside, hm, rfl⟩
          cases inside with
          | nil => exact absurd (List.cons.inj hbs).1 hb
          | cons c inside =>
              obtain ⟨rfl, rfl⟩ := List.cons.inj hbs
              refine ⟨_, ⟨inside, rest, m, rfl, ?_, hm, rfl⟩, ?_⟩
              · exact fun hmem => hinside (List.mem_cons_of_mem _ hmem)
              · rw [List.length_cons]
                omega

theorem tagEnd_tagText (h : TagText text) :
    tagEnd .plain (text ++ 62 :: rest) = some text.length := by
  induction h with
  | nil => rfl
  | byte hend hdouble hsingle _ ih =>
      rw [List.cons_append, tagEnd]
      simp only [hend, hdouble, hsingle, or_self, if_false, ih]
      rfl
  | @quoted quote inside bs hquote hinside _ ih =>
      have hend : quote ≠ 62 := by rcases hquote with rfl | rfl <;> decide
      rw [List.cons_append, List.cons_append, tagEnd]
      simp only [hend, hquote, if_true, if_false]
      have hquoted : tagEnd (.quoted quote) (inside ++ quote :: bs ++ 62 :: rest) =
          some (inside.length + 1 + bs.length) :=
        tagEnd_quoted_iff.mpr ⟨inside, _, _, by simp, hinside, ih, rfl⟩
      rw [hquoted]
      simp
      omega

theorem tagText_of_tagEnd (h : tagEnd .plain bs = some n) :
    ∃ text rest, bs = text ++ 62 :: rest ∧ TagText text ∧ text.length = n := by
  induction hlen : bs.length using Nat.strong_induction_on generalizing bs n with
  | _ k ih =>
      cases bs with
      | nil => cases h
      | cons b bs =>
          rw [List.length_cons] at hlen
          rw [tagEnd] at h
          by_cases hend : b = 62
          · rw [if_pos hend] at h
            obtain rfl := Option.some.inj h
            exact ⟨[], bs, by rw [hend]; rfl, .nil, rfl⟩
          · rw [if_neg hend] at h
            obtain ⟨m, hm, rfl⟩ := Option.map_eq_some_iff.mp h
            by_cases hquote : b = 34 ∨ b = 39
            · rw [if_pos hquote] at hm
              obtain ⟨inside, rest, i, rfl, hinside, hi, rfl⟩ := tagEnd_quoted_iff.mp hm
              have hshort : rest.length < k := by
                rw [List.length_append, List.length_cons] at hlen
                omega
              obtain ⟨text, after, rfl, htext, rfl⟩ := ih _ hshort hi rfl
              refine ⟨b :: inside ++ b :: text, after, by simp, .quoted hquote hinside htext, ?_⟩
              rw [List.length_append, List.length_cons, List.length_cons]
              omega
            · rw [if_neg hquote] at hm
              obtain ⟨text, after, rfl, htext, rfl⟩ := ih _ (by omega) hm rfl
              obtain ⟨hdouble, hsingle⟩ := not_or.mp hquote
              exact ⟨b :: text, after, rfl, .byte hend hdouble hsingle htext, rfl⟩

/-- The first `>` outside quotes. -/
theorem tagEnd_eq_some_iff : tagEnd .plain bs = some n ↔
    ∃ text rest, bs = text ++ 62 :: rest ∧ TagText text ∧ text.length = n := by
  constructor
  · exact tagText_of_tagEnd
  · rintro ⟨text, rest, rfl, htext, rfl⟩
    exact tagEnd_tagText htext

end

/-! ## What stands at the front -/

/-- The first `n` bytes are `<script` and the rest of an opening tag, with its `>`. -/
def OpeningTag (bs : List UInt8) (n : Nat) : Prop :=
  isScriptOpen bs = true ∧
    ∃ text rest, bs.drop Mark.script.length = text ++ 62 :: rest ∧ TagText text ∧
      Mark.script.length + text.length + 1 = n

/-- What stands at the front of a text, said without a search. -/
inductive Stands (bs : List UInt8) : Piece → Prop
  | text : ¬ Mark.comment <+: bs → isScriptOpen bs = false → Stands bs .text
  | comment {m : Nat} :
      Mark.comment <+: bs →
      FirstAt (Mark.commentEnd <+: ·) (bs.drop Mark.comment.length) m →
      Stands bs (.comment (Mark.comment.length + m + Mark.commentEnd.length))
  | openComment :
      Mark.comment <+: bs →
      (∀ m, ¬ Mark.commentEnd <+: (bs.drop Mark.comment.length).drop m) →
      Stands bs .openComment
  | external {n : Nat} : OpeningTag bs n → bs[n - 2]? = some 47 → Stands bs (.external n)
  | element {tag content : Nat} :
      OpeningTag bs tag → bs[tag - 2]? ≠ some 47 → FirstAt Closes (bs.drop tag) content →
      Stands bs (.element tag content)
  | endless : isScriptOpen bs = true → (∀ n, ¬ OpeningTag bs n) → Stands bs .unclosed
  | unclosed {tag : Nat} :
      OpeningTag bs tag → bs[tag - 2]? ≠ some 47 → (∀ m, ¬ Closes ((bs.drop tag).drop m)) →
      Stands bs .unclosed

namespace Piece

variable {bs : List UInt8} {p : Piece} {n : Nat}

theorem tagEnd_iff_openingTag (h : isScriptOpen bs = true) :
    tagEnd .plain (bs.drop Mark.script.length) = some n ↔
      OpeningTag bs (Mark.script.length + n + 1) := by
  rw [tagEnd_eq_some_iff, OpeningTag]
  constructor
  · rintro ⟨text, rest, hbs, htext, rfl⟩
    exact ⟨h, text, rest, hbs, htext, rfl⟩
  · rintro ⟨-, text, rest, hbs, htext, hn⟩
    exact ⟨text, rest, hbs, htext, by omega⟩

/-- No text is the beginning of a comment and of a tag. -/
theorem not_comment_of_isScriptOpen (h : isScriptOpen bs = true) : ¬ Mark.comment <+: bs := by
  rintro ⟨rest, rfl⟩
  have hclosed : isScriptOpen (Mark.comment ++ rest) = false := by
    have hcomment : Mark.comment = [60, 33, 45, 45] := by decide
    have hscript : Mark.script = [60, 115, 99, 114, 105, 112, 116] := by decide
    simp [isScriptOpen, startsWith, hcomment, hscript, lower]
  rw [hclosed] at h
  cases h

theorem stands_ofScriptOpen (h : isScriptOpen bs = true) : Stands bs (ofScriptOpen bs) := by
  unfold ofScriptOpen
  split
  · rename_i hnone
    refine .endless h fun n hn => ?_
    obtain ⟨-, text, rest, hbs, htext, rfl⟩ := hn
    have hsome := tagEnd_eq_some_iff.mpr ⟨text, rest, hbs, htext, rfl⟩
    rw [hnone] at hsome
    cases hsome
  · rename_i n hn
    have htag := (tagEnd_iff_openingTag h).mp hn
    dsimp only
    split
    · rename_i hslash
      exact .external htag hslash
    · rename_i hslash
      split
      · rename_i hnone
        refine .unclosed htag hslash (forall_not_of_not_firstAt fun m hm => ?_)
        rw [findClose_eq_some_iff.mpr hm] at hnone
        cases hnone
      · rename_i hclose
        exact .element htag hslash (findClose_eq_some_iff.mp hclose)

theorem stands_front (bs : List UInt8) : Stands bs (front bs) := by
  have hend : Mark.commentEnd ≠ [] := by decide
  unfold front
  split
  · rename_i hmark
    have hcomment : Mark.comment <+: bs := List.isPrefixOf_iff_prefix.mp hmark
    split
    · rename_i hfound
      exact .comment hcomment ((findWord_eq_some_iff hend).mp hfound)
    · rename_i hnone
      refine .openComment hcomment (forall_not_of_not_firstAt fun m hm => ?_)
      rw [(findWord_eq_some_iff hend).mpr hm] at hnone
      cases hnone
  · rename_i hmark
    split
    · exact stands_ofScriptOpen ‹_›
    · exact .text (mt List.isPrefixOf_iff_prefix.mpr hmark) (Bool.eq_false_iff.mpr ‹_›)

theorem front_of_comment (h : Mark.comment <+: bs) :
    front bs = (findWord Mark.commentEnd (bs.drop Mark.comment.length)).elim .openComment fun n =>
      .comment (Mark.comment.length + n + Mark.commentEnd.length) := by
  rw [front, if_pos (List.isPrefixOf_iff_prefix.mpr h)]
  cases findWord Mark.commentEnd (bs.drop Mark.comment.length) <;> rfl

theorem front_of_isScriptOpen (h : isScriptOpen bs = true) : front bs = ofScriptOpen bs := by
  rw [front, if_neg, if_pos h]
  exact mt List.isPrefixOf_iff_prefix.mp (not_comment_of_isScriptOpen h)

theorem front_of_openingTag (h : OpeningTag bs n) :
    front bs = if bs[n - 2]? = some 47 then .external n
      else (findClose (bs.drop n)).elim .unclosed (.element n) := by
  obtain ⟨hopen, text, rest, hbs, htext, rfl⟩ := h
  have hend : tagEnd .plain (bs.drop Mark.script.length) = some text.length :=
    tagEnd_eq_some_iff.mpr ⟨text, rest, hbs, htext, rfl⟩
  rw [front_of_isScriptOpen hopen, ofScriptOpen, hend]
  dsimp only
  cases findClose (bs.drop (Mark.script.length + text.length + 1)) <;> rfl

/-- Only one thing stands at the front of a text, and it is the one that is found. -/
theorem front_eq_iff : front bs = p ↔ Stands bs p := by
  constructor
  · rintro rfl
    exact stands_front bs
  · intro h
    have hend : Mark.commentEnd ≠ [] := by decide
    cases h with
    | text hcomment hopen =>
        rw [front, if_neg (mt List.isPrefixOf_iff_prefix.mp hcomment), if_neg (by simp [hopen])]
    | comment hcomment hfirst =>
        rw [front_of_comment hcomment, (findWord_eq_some_iff hend).mpr hfirst, Option.elim_some]
    | openComment hcomment hnone =>
        have hfound : findWord Mark.commentEnd (bs.drop Mark.comment.length) = none := by
          rw [Option.eq_none_iff_forall_ne_some]
          exact fun m hm => hnone m ((findWord_eq_some_iff hend).mp hm).1
        rw [front_of_comment hcomment, hfound, Option.elim_none]
    | external htag hslash =>
        rw [front_of_openingTag htag, if_pos hslash]
    | element htag hslash hfirst =>
        rw [front_of_openingTag htag, if_neg hslash, findClose_eq_some_iff.mpr hfirst,
          Option.elim_some]
    | endless hopen hnone =>
        have hfound : tagEnd .plain (bs.drop Mark.script.length) = none := by
          rw [Option.eq_none_iff_forall_ne_some]
          exact fun m hm => hnone _ ((tagEnd_iff_openingTag hopen).mp hm)
        rw [front_of_isScriptOpen hopen, ofScriptOpen, hfound]
    | @unclosed tag htag hslash hnone =>
        have hfound : findClose (bs.drop tag) = none := by
          rw [Option.eq_none_iff_forall_ne_some]
          exact fun m hm => hnone m (findClose_eq_some_iff.mp hm).1
        rw [front_of_openingTag htag, if_neg hslash, hfound, Option.elim_none]

end Piece
/-! ## One step through the attributes -/

section
variable {bs : List UInt8} {pos : Nat} {name : Range}

theorem attributesFrom_of_none (h : nextName? bs pos = none) : attributesFrom bs pos = [] := by
  rw [attributesFrom]
  split
  · rfl
  · rename_i hsome
    rw [h] at hsome
    cases hsome

theorem attributesFrom_of_length_le (h : bs.length ≤ pos) : attributesFrom bs pos = [] := by
  refine attributesFrom_of_none ?_
  rw [nextName?, List.drop_eq_nil_of_le h, runLength, Nat.add_zero, List.drop_eq_nil_of_le h,
    runLength, Nat.add_zero]
  exact if_neg (Nat.lt_irrefl pos)

theorem attributesFrom_of_some (h : nextName? bs pos = some name) :
    attributesFrom bs pos =
      if bs[name.stop]? = some 61 then
        ⟨name, some (readValue bs (name.stop + 1)).1⟩ ::
          attributesFrom bs (readValue bs (name.stop + 1)).2
      else ⟨name, none⟩ :: attributesFrom bs name.stop := by
  rw [attributesFrom]
  split
  · rename_i hnone
    rw [h] at hnone
    cases hnone
  · rename_i other hsome
    obtain rfl : other = name := Option.some.inj (hsome.symm.trans h)
    rfl

end

/-! ## One step of the scan -/

section
variable {bs : List UInt8} {pos n tag content : Nat} {found : List BlockRange}

theorem scan_nil (pos : Nat) (found : List BlockRange) : scan pos [] found = .ok found := by
  rw [scan, dif_pos rfl]

theorem ne_nil_of_front {p : Piece} (h : Piece.front bs = p) (hp : p ≠ .text) : bs ≠ [] := by
  rintro rfl
  exact hp (h.symm.trans (by decide))

theorem scan_of_text (hbs : bs ≠ []) (h : Piece.front bs = .text) :
    scan pos bs found = scan (pos + 1) (bs.drop 1) found := by
  rw [scan, dif_neg hbs]
  split <;> rename_i hp <;> rw [h] at hp <;> cases hp

theorem scan_of_openComment (h : Piece.front bs = .openComment) :
    scan pos bs found = .ok found := by
  rw [scan, dif_neg (ne_nil_of_front h (by simp))]
  split <;> rename_i hp <;> rw [h] at hp <;> cases hp

theorem scan_of_unclosed (h : Piece.front bs = .unclosed) :
    scan pos bs found = .error (.unclosed pos) := by
  rw [scan, dif_neg (ne_nil_of_front h (by simp))]
  split <;> rename_i hp <;> rw [h] at hp <;> cases hp

theorem scan_of_comment (h : Piece.front bs = .comment n) :
    scan pos bs found = scan (pos + n) (bs.drop n) found := by
  rw [scan, dif_neg (ne_nil_of_front h (by simp))]
  split <;> rename_i hp <;> rw [h] at hp <;> cases hp
  rfl

theorem scan_of_external (h : Piece.front bs = .external n) :
    scan pos bs found = scan (pos + n) (bs.drop n) found := by
  rw [scan, dif_neg (ne_nil_of_front h (by simp))]
  split <;> rename_i hp <;> rw [h] at hp <;> cases hp
  rfl

theorem any_setup_iff {setup : Bool} :
    found.any (·.setup == setup) = true ↔ setup ∈ found.map (·.setup) := by
  simp only [List.any_eq_true, beq_iff_eq, List.mem_map]

/-- An element becomes a block, unless there is one of its kind. -/
theorem scan_of_element (h : Piece.front bs = .element tag content) :
    scan pos bs found =
      let block := BlockRange.ofElement bs pos tag content
      let n := (Piece.element tag content).length
      if block.setup ∈ found.map (·.setup) then .error (.duplicate block.setup pos)
      else scan (pos + n) (bs.drop n) (found ++ [block]) := by
  rw [scan, dif_neg (ne_nil_of_front h (by simp))]
  split <;> rename_i hp <;> rw [h] at hp <;> cases hp
  simp only [any_setup_iff]

theorem scan_of_new_element (h : Piece.front bs = .element tag content)
    (hnew : (BlockRange.ofElement bs pos tag content).setup ∉ found.map (·.setup)) :
    scan pos bs found =
      scan (pos + (Piece.element tag content).length) (bs.drop (Piece.element tag content).length)
        (found ++ [BlockRange.ofElement bs pos tag content]) := by
  rw [scan_of_element h]
  exact if_neg hnew

end
end EmitLint.Sfc
