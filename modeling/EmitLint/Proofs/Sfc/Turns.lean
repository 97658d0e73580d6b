/-
# What the loops answer

The loops of `Proofs/Sfc/Cursor.lean` inside a tag and behind it, each against the
function of the scan that it stands for: `skip?_eq`, `tagEnd?_eq` and `close?_eq` for
those that look for a byte, and `attributes?_eq` for that over the attributes.  None
of them fails, wherever it begins, and each moves forwards with every turn.

The one position that lies beyond the end, behind a value whose quote is never closed,
is tested once more before anything is looked up there.
-/
import EmitLint.Proofs.Sfc.Cursor
import EmitLint.Proofs.Sfc.Editing
import EmitLint.Proofs.Sfc.Places

namespace EmitLint.Sfc.Cursor

open Text (encode)

/-! ## Checked accesses that do not fail -/

section
variable {bs : List UInt8} {pos n : Nat}

/-- In front of the end there is a byte, and the rest behind it. -/
theorem exists_byte (h : pos < bs.length) :
    ∃ b, bs[pos]? = some b ∧ bs.drop pos = b :: bs.drop (pos + 1) :=
  ⟨bs[pos], List.getElem?_eq_getElem h, List.drop_eq_getElem_cons h⟩

theorem rest?_of_le (h : pos ≤ bs.length) : rest? bs pos = some (bs.drop pos) := if_pos h

theorem spells?_of_le {word : List UInt8} (h : word.length ≤ bs.length) :
    spells? word bs = some (startsWith word bs) := by
  rw [spells?, front?, if_pos h]
  rfl

theorem closes?_eq (bs : List UInt8) : closes? bs = some (startsWith Mark.scriptEnd bs) := by
  unfold closes?
  split
  · exact spells?_of_le ‹_›
  · rename_i hshort
    have hnot : ¬ Closes bs := fun h => hshort (length_le_of_closes h)
    rw [Bool.eq_false_iff.mpr hnot]

theorem opens?_eq (bs : List UInt8) : opens? bs = some (isScriptOpen bs) := by
  unfold opens? isScriptOpen
  split
  · rename_i hlong
    obtain ⟨b, hb, -⟩ := exists_byte hlong
    rw [spells?_of_le (Nat.le_of_lt hlong), hb]
    cases startsWith Mark.script bs <;> rfl
  · rename_i hshort
    rw [List.getElem?_eq_none (Nat.le_of_not_lt hshort), Bool.and_false]
    rfl

end

/-! ## The loops that look for a byte -/

section
variable {bs : List UInt8}

/-- A loop along the bytes comes to what is due at its beginning, if inside the text each
turn ends with what is due where it begins or goes on to where the same is due. -/
theorem runs_of_due {α : Type} {turn : Nat → Option (Turn α Nat)} (due : Nat → α)
    (hinside : ∀ i < bs.length, Keeps turn id bs.length (due · = due i) (due i) i)
    (hend : ∀ i, bs.length ≤ i → turn i = some (.done (due i))) (pos : Nat) :
    Runs turn id bs.length pos (due pos) := by
  refine runs_of_keeps (fun i => due i = due pos) ?_ rfl
  intro i hi
  rw [← hi]
  rcases Nat.lt_or_ge i bs.length with h | h
  · exact hinside i h
  · exact .inl (hend i h)

theorem runs_skipTurn (bs : List UInt8) (p : UInt8 → Bool) (pos : Nat) :
    Runs (skipTurn bs p) id bs.length pos (pos + runLength p (bs.drop pos)) := by
  refine runs_of_due (fun i => i + runLength p (bs.drop i)) ?_ ?_ pos
  · intro i hinside
    obtain ⟨b, hb, hdrop⟩ := exists_byte hinside
    have hturn : skipTurn bs p i = some (if p b then .onward (i + 1) else .done i) := by
      rw [skipTurn, if_pos hinside, hb]
      rfl
    rw [hdrop, runLength]
    by_cases hp : p b = true
    · refine .inr ⟨i + 1, by rw [hturn, if_pos hp], hinside, Nat.lt_succ_self i, ?_⟩
      rw [if_pos hp]
      omega
    · exact .inl (by rw [hturn, if_neg hp, if_neg hp]; rfl)
  · intro i hend
    rw [List.drop_eq_nil_of_le hend]
    exact if_neg (Nat.not_lt.mpr hend)

theorem skip?_eq (bs : List UInt8) (p : UInt8 → Bool) (pos : Nat) :
    skip? bs p pos = some (pos + runLength p (bs.drop pos)) :=
  run_of_runs (runs_skipTurn bs p pos) (Nat.lt_succ_of_le (Nat.sub_le _ _))

/-- An offset counted from `n`, itself counted from `i`. -/
theorem map_add_map_add (o : Option Nat) (i n : Nat) :
    (o.map (n + ·)).map (i + ·) = o.map (i + n + ·) := by
  rw [Option.map_map]
  congr 1
  funext m
  exact (Nat.add_assoc i n m).symm

theorem map_succ_eq (o : Option Nat) : o.map (· + 1) = o.map (1 + ·) := by
  congr 1
  funext m
  exact Nat.add_comm m 1

/-- Behind a quote the search goes on behind its partner. -/
theorem tagEnd_quoted (quote : UInt8) (bs : List UInt8) :
    tagEnd (.quoted quote) bs =
      (findByte quote bs).bind fun n => (tagEnd .plain (bs.drop (n + 1))).map (n + 1 + ·) := by
  induction bs with
  | nil => rfl
  | cons b bs ih =>
      rw [tagEnd, findByte]
      by_cases hb : b = quote
      · rw [if_pos hb, if_pos hb, map_succ_eq]
        rfl
      · rw [if_neg hb, if_neg hb, ih]
        cases findByte quote bs with
        | none => rfl
        | some n =>
            simp only [Option.bind_some, Option.map_some, List.drop_succ_cons]
            rw [map_succ_eq, map_add_map_add, Nat.add_comm 1]

theorem runs_tagEndTurn (bs : List UInt8) (pos : Nat) :
    Runs (tagEndTurn bs) id bs.length pos ((tagEnd .plain (bs.drop pos)).map (pos + ·)) := by
  refine runs_of_due (fun i => (tagEnd .plain (bs.drop i)).map (i + ·)) ?_ ?_ pos
  · intro i hinside
    obtain ⟨b, hb, hdrop⟩ := exists_byte hinside
    rw [hdrop, tagEnd, Keeps, tagEndTurn, if_pos hinside, hb]
    by_cases hend : b = 62
    · exact .inl (by simp [hend])
    · by_cases hquote : b = 34 ∨ b = 39
      · rw [if_neg hend, if_pos hquote, map_succ_eq, map_add_map_add, tagEnd_quoted]
        simp only [Option.bind_eq_bind, Option.bind_some, if_neg hend, if_pos hquote,
          rest?_of_le hinside]
        cases hfound : findByte b (bs.drop (i + 1)) with
        | none => exact .inl rfl
        | some n =>
            refine .inr ⟨i + 1 + n + 1, rfl, hinside, ?_, ?_⟩
            · show i < i + 1 + n + 1
              omega
            · rw [Option.bind_some, map_add_map_add, List.drop_drop]
              rfl
      · rw [if_neg hend, if_neg hquote, map_succ_eq, map_add_map_add]
        simp only [Option.bind_eq_bind, Option.bind_some, if_neg hend, if_neg hquote]
        exact .inr ⟨i + 1, rfl, hinside, Nat.lt_succ_self i, rfl⟩
  · intro i hend
    rw [List.drop_eq_nil_of_le hend]
    exact if_neg (Nat.not_lt.mpr hend)

theorem tagEnd?_eq (bs : List UInt8) (pos : Nat) :
    tagEnd? bs pos = some ((tagEnd .plain (bs.drop pos)).map (pos + ·)) :=
  run_of_runs (runs_tagEndTurn bs pos) (Nat.lt_succ_of_le (Nat.sub_le _ _))

/-- No script is closed in front of the first `<`. -/
theorem findClose_eq (bs : List UInt8) :
    findClose bs = (findByte 60 bs).bind fun n => (findClose (bs.drop n)).map (n + ·) := by
  induction bs with
  | nil => rfl
  | cons b bs ih =>
      rw [findByte]
      by_cases hb : b = 60
      · rw [if_pos hb]
        simp
      · have hnot : ¬ Closes (b :: bs) := fun h => hb (Option.some.inj (head?_of_closes h))
        rw [if_neg hb, findClose, if_neg hnot, ih]
        cases findByte 60 bs with
        | none => rfl
        | some n =>
            simp only [Option.bind_some, Option.map_some, List.drop_succ_cons]
            rw [map_succ_eq, map_add_map_add, Nat.add_comm 1]

theorem runs_closeTurn (bs : List UInt8) (pos : Nat) :
    Runs (closeTurn bs) id bs.length pos ((findClose (bs.drop pos)).map (pos + ·)) := by
  refine runs_of_due (fun i => (findClose (bs.drop i)).map (i + ·)) ?_ ?_ pos
  · intro i hinside
    rw [Keeps, closeTurn, if_pos hinside, findClose_eq, rest?_of_le (Nat.le_of_lt hinside)]
    simp only [Option.bind_eq_bind, Option.bind_some]
    cases hfound : findByte 60 (bs.drop i) with
    | none => exact .inl rfl
    | some n =>
        have hn : i + n < bs.length := by
          have hlt := findByte_lt hfound
          rw [List.length_drop] at hlt
          omega
        obtain ⟨b, -, hdrop⟩ := exists_byte hn
        simp only [Option.bind_some, rest?_of_le (Nat.le_of_lt hn), closes?_eq, List.drop_drop,
          map_add_map_add]
        rw [hdrop, findClose]
        by_cases hcloses : startsWith Mark.scriptEnd (b :: bs.drop (i + n + 1)) = true
        · rw [if_pos hcloses, if_pos hcloses]
          exact .inl rfl
        · rw [if_neg hcloses, if_neg hcloses, map_succ_eq, map_add_map_add]
          refine .inr ⟨i + n + 1, rfl, hinside, ?_, rfl⟩
          show i < i + n + 1
          omega
  · intro i hend
    rw [List.drop_eq_nil_of_le hend]
    exact if_neg (Nat.not_lt.mpr hend)

theorem close?_eq (bs : List UInt8) (pos : Nat) :
    close? bs pos = some ((findClose (bs.drop pos)).map (pos + ·)) :=
  run_of_runs (runs_closeTurn bs pos) (Nat.lt_succ_of_le (Nat.sub_le _ _))

end

/-! ## Attributes -/

section
variable {attrs : List Char} {pos : Nat} {quote : UInt8}

theorem bareValue?_eq (hpos : IsPlace attrs pos)
    (hb : ∀ b, (encode attrs)[pos]? = some b → ¬ (b = 34 ∨ b = 39)) :
    bareValue? attrs pos =
      some (piece attrs (readValue (encode attrs) pos).1, (readValue (encode attrs) pos).2) := by
  have hslice := (isPiece_readValue hpos).1.slice?
  rw [readValue_of_not_quote hb] at hslice ⊢
  rw [bareValue?, skip?_eq]
  simp only [Option.bind_eq_bind, Option.bind_some, hslice]
  rfl

theorem quotedValue?_eq (hpos : IsPlace attrs pos) (hb : (encode attrs)[pos]? = some quote)
    (hquote : quote = 34 ∨ quote = 39) :
    quotedValue? attrs quote (pos + 1) =
      some (piece attrs (readValue (encode attrs) pos).1, (readValue (encode attrs) pos).2) := by
  obtain ⟨hinside, -⟩ := List.getElem?_eq_some_iff.mp hb
  have hslice := (isPiece_readValue hpos).1.slice?
  rw [readValue_of_quote hb hquote] at hslice ⊢
  rw [quotedValue?, rest?_of_le hinside]
  simp only [Option.bind_eq_bind, Option.bind_some]
  cases hfound : findByte quote ((encode attrs).drop (pos + 1)) with
  | none | some =>
      rw [hfound] at hslice
      simp only [Option.elim_none, Option.elim_some] at hslice ⊢
      rw [hslice]
      rfl

theorem value?_eq (attrs : List Char) (pos : Nat) :
    value? attrs pos = some ((valueAt (encode attrs) pos).1.map (piece attrs),
      (valueAt (encode attrs) pos).2) := by
  unfold value? valueAt
  by_cases hequals : (encode attrs)[pos]? = some 61
  · obtain ⟨hinside, -⟩ := List.getElem?_eq_some_iff.mp hequals
    have hnext := isPlace_succ_of_ascii hequals (by decide)
    simp only [if_pos hinside, hequals, Option.bind_eq_bind, Option.bind_some, if_true]
    cases hb : (encode attrs)[pos + 1]? with
    | none =>
        have hbare := bareValue?_eq hnext (by simp [hb])
        simp only [hbare]
        rfl
    | some quote =>
        by_cases hquote : quote = 34 ∨ quote = 39
        · simp only [if_pos hquote, quotedValue?_eq hnext hb hquote]
          rfl
        · have hbare := bareValue?_eq hnext (by simpa [hb] using hquote)
          simp only [if_neg hquote, hbare]
          rfl
  · rw [if_neg hequals]
    by_cases hinside : pos < (encode attrs).length
    · obtain ⟨b, hb, -⟩ := exists_byte hinside
      have hne : b ≠ 61 := fun h => hequals (h ▸ hb)
      simp only [if_pos hinside, hb, Option.bind_eq_bind, Option.bind_some, if_neg hne]
      rfl
    · exact if_neg hinside

/-- The flag and the language once the rest of the attributes is read. -/
def noted (attrs : List Char) (s : Reading) : Bool × Option (List Char) :=
  let rest := attributesFrom (encode attrs) s.pos
  (s.setup || rest.any (Attribute.named (encode attrs) "setup"),
    (rest.reverse.find? (Attribute.named (encode attrs) "lang")).elim s.lang
      fun a => a.value.map (piece attrs))

theorem noted_of_nil {s : Reading} (h : attributesFrom (encode attrs) s.pos = []) :
    noted attrs s = (s.setup, s.lang) := by
  simp [noted, h]

/-- An attribute is noted when it is read. -/
theorem noted_of_nextName? {s : Reading} {name : Range}
    (h : nextName? (encode attrs) s.pos = some name) :
    let v := valueAt (encode attrs) name.stop
    let word := (bytesIn (encode attrs) name).map lower
    noted attrs s = noted attrs ⟨v.2, s.setup || word == ascii "setup",
      if word == ascii "lang" then v.1.map (piece attrs) else s.lang⟩ := by
  have hnamed : ∀ word value, Attribute.named (encode attrs) word ⟨name, value⟩ =
      ((bytesIn (encode attrs) name).map lower == ascii word) := fun _ _ => rfl
  simp only [noted, attributesFrom_cons h, List.any_cons, List.reverse_cons, List.find?_append,
    List.find?_singleton, hnamed, Bool.or_assoc, Prod.mk.injEq, true_and]
  cases (attributesFrom (encode attrs) (valueAt (encode attrs) name.stop).2).reverse.find? _ with
  | some a => rfl
  | none =>
      rw [Option.none_or, Option.elim_none]
      split <;> rfl

theorem name?_eq (hpos : IsPlace attrs pos) :
    ∃ name, IsPiece attrs name ∧ name? attrs pos = some (piece attrs name, name.stop) ∧
      nextName? (encode attrs) pos = if piece attrs name = [] then none else some name := by
  have hstart := isPlace_behind (p := isGap) (fun _ => ascii_of_isGap) hpos
  have hstop :=
    isPlace_before (p := isNameByte) (fun _ => ascii_of_not_isNameByte) hstart.le_length
  have hpiece : IsPiece attrs ⟨_, _⟩ := ⟨Nat.le_add_right _ _, hstart, hstop⟩
  refine ⟨_, hpiece, ?_, ?_⟩
  · simp only [name?, skip?_eq, Option.bind_eq_bind, Option.bind_some, hpiece.slice?]
    rfl
  · have hempty := hpiece.piece_eq_nil_iff
    simp only [nextName?, hempty]
    split <;> split <;> first | rfl | omega

/-- Behind a name its value is read, and both are noted. -/
theorem attributeTurn_of_name {s : Reading} {name : Range}
    (hinside : s.pos < (encode attrs).length) (hpiece : IsPiece attrs name)
    (hname : name? attrs s.pos = some (piece attrs name, name.stop))
    (hne : piece attrs name ≠ []) :
    let v := valueAt (encode attrs) name.stop
    let word := (bytesIn (encode attrs) name).map lower
    attributeTurn attrs s = some (.onward ⟨v.2, s.setup || word == ascii "setup",
      if word == ascii "lang" then v.1.map (piece attrs) else s.lang⟩) := by
  rw [attributeTurn, if_pos hinside, hname]
  simp only [Option.bind_eq_bind, Option.bind_some, List.isEmpty_iff, if_neg hne, value?_eq,
    hpiece.encode_piece]
  by_cases hsetup : ((bytesIn (encode attrs) name).map lower == ascii "setup") = true
  · have hlang : ((bytesIn (encode attrs) name).map lower == ascii "lang") = false := by
      rw [beq_iff_eq.mp hsetup]
      decide
    simp only [hsetup, hlang, Bool.or_true, if_true, Bool.false_eq_true, if_false]
    rfl
  · rw [if_neg hsetup, Bool.eq_false_iff.mpr hsetup, Bool.or_false]
    cases (bytesIn (encode attrs) name).map lower == ascii "lang" <;> rfl

/-- One attribute is read and noted, or there is none and the reading ends. -/
theorem attributeTurn_keeps {s : Reading} (hs : Resumes attrs s.pos) :
    Keeps (attributeTurn attrs) Reading.pos (encode attrs).length
      (fun next => Resumes attrs next.pos ∧ noted attrs next = noted attrs s) (noted attrs s) s := by
  by_cases hinside : s.pos < (encode attrs).length
  · obtain ⟨name, hpiece, hname, hnext⟩ := name?_eq (hs.resolve_right (by omega))
    by_cases hempty : piece attrs name = []
    · rw [if_pos hempty] at hnext
      rw [noted_of_nil (attributesFrom_of_none hnext)]
      refine .inl ?_
      rw [attributeTurn, if_pos hinside, hname, hempty]
      rfl
    · rw [if_neg hempty] at hnext
      have hturn := attributeTurn_of_name hinside hpiece hname hempty
      have hresumes := (isPiece_valueAt hpiece.stop).2
      refine .inr ⟨_, hturn, hinside, ?_, hresumes, (noted_of_nextName? hnext).symm⟩
      obtain ⟨hle, hlt, -⟩ := nextName?_bounds hnext
      calc s.pos
        _ < name.stop := Nat.lt_of_le_of_lt hle hlt
        _ ≤ (valueAt (encode attrs) name.stop).2 := le_valueAt _ _
  · rw [noted_of_nil (attributesFrom_of_length_le (Nat.le_of_not_lt hinside))]
    exact .inl (if_neg hinside)

theorem runs_attributeTurn (attrs : List Char) :
    Runs (attributeTurn attrs) Reading.pos (encode attrs).length ⟨0, false, none⟩
      (noted attrs ⟨0, false, none⟩) := by
  refine runs_of_keeps (fun s => Resumes attrs s.pos ∧
    noted attrs s = noted attrs ⟨0, false, none⟩) ?_ ⟨.inl (isPlace_zero attrs), rfl⟩
  rintro s ⟨hresumes, hsame⟩
  rw [← hsame]
  exact attributeTurn_keeps hresumes

theorem noted_start (attrs : List Char) :
    noted attrs ⟨0, false, none⟩ =
      (hasSetup (encode attrs), (langRange (encode attrs)).map (piece attrs)) := by
  rw [noted, hasSetup, langRange, Bool.false_or]
  cases h : (attributes (encode attrs)).reverse.find? (Attribute.named (encode attrs) "lang") with
  | none | some =>
      rw [attributes] at h ⊢
      simp only [h]
      rfl

theorem attributes?_eq (attrs : List Char) :
    attributes? attrs =
      some (hasSetup (encode attrs), (langRange (encode attrs)).map (piece attrs)) := by
  rw [← noted_start]
  exact run_of_runs (runs_attributeTurn attrs) (Nat.lt_succ_of_le (Nat.sub_le _ _))

/-- A quote that is never closed leads beyond the end, where nothing more is read. -/
example : attributes? " lang='".toList = some (false, some []) := by decide

end
end EmitLint.Sfc.Cursor
