/-
# Where attributes are cut out

The attributes of a tag are found by their bytes, in whatever text stands between
`<script` and `>`.  Main statement: `isPiece_of_mem_attributes`, the name and the
value of each are pieces of that text: their bounds are in order, inside the text
and between characters.  The reason is that a name and a value begin and end next to
an ASCII byte or at an end of the text.  Only the place where reading goes on may be
none, behind a value whose quote is never closed: it lies beyond the end.
-/
import EmitLint.Proofs.Sfc.Search
import EmitLint.Proofs.Text.Ascii

namespace EmitLint.Sfc

open Text (encode)

/-! ## Places and pieces -/

/-- The offset is a place between two characters, or an end of the text. -/
def IsPlace (cs : List Char) (i : Nat) : Prop := (Text.splitAt? cs i).isSome = true

/-- The range can be cut out of the text. -/
structure IsPiece (cs : List Char) (r : Range) : Prop where
  forwards : r.start ≤ r.stop
  start : IsPlace cs r.start
  stop : IsPlace cs r.stop

/-- What stands in a range. -/
def piece (cs : List Char) (r : Range) : List Char := (Text.slice? cs r.start r.stop).getD []

section
variable {cs inside : List Char} {i j : Nat} {b : UInt8} {r : Range}

theorem isPlace_zero (cs : List Char) : IsPlace cs 0 := by
  rw [IsPlace, Text.splitAt?_zero]
  rfl

theorem isPlace_length (cs : List Char) : IsPlace cs (encode cs).length := by
  have hsplit := Text.splitAt?_append cs []
  rw [List.append_nil] at hsplit
  rw [IsPlace, Text.length_encode, hsplit]
  rfl

theorem IsPlace.le_length (h : IsPlace cs i) : i ≤ (encode cs).length := by
  obtain ⟨⟨before, after⟩, hsplit⟩ := Option.isSome_iff_exists.mp h
  obtain ⟨rfl, rfl⟩ := Text.append_of_splitAt? hsplit
  rw [Text.length_encode, Text.byteLength_append]
  exact Nat.le_add_right _ _

theorem isPlace_of_ascii (hb : (encode cs)[i]? = some b) (hascii : b.toNat < 128) :
    IsPlace cs i :=
  (Text.splitAt?_of_ascii hb hascii).1

theorem isPlace_succ_of_ascii (hb : (encode cs)[i]? = some b) (hascii : b.toNat < 128) :
    IsPlace cs (i + 1) :=
  (Text.splitAt?_of_ascii hb hascii).2

theorem encode_of_slice? (h : Text.slice? cs i j = some inside) :
    encode inside = bytesIn (encode cs) ⟨i, j⟩ := by
  obtain ⟨before, after, rfl, rfl, rfl⟩ := Text.slice?_eq_some h
  rw [bytesIn, List.append_assoc, Text.drop_encode, Nat.add_sub_cancel_left, Text.encode_append,
    ← Text.length_encode, List.take_left]

theorem IsPiece.slice? (h : IsPiece cs r) :
    Text.slice? cs r.start r.stop = some (piece cs r) := by
  obtain ⟨inside, hinside⟩ := Text.slice?_of_splitAt? h.forwards h.start h.stop
  rw [piece, hinside, Option.getD_some]

theorem IsPiece.piece_eq_nil_iff (h : IsPiece cs r) : piece cs r = [] ↔ r.start = r.stop := by
  obtain ⟨before, after, -, hstart, hstop⟩ := Text.slice?_eq_some h.slice?
  constructor
  · intro hnil
    rw [← hstart, ← hstop, hnil, Text.byteLength_nil, Nat.add_zero]
  · intro hempty
    exact Text.byteLength_eq_zero (by omega)

theorem IsPiece.encode_piece (h : IsPiece cs r) : encode (piece cs r) = bytesIn (encode cs) r :=
  encode_of_slice? h.slice?

end

/-! ## Runs of bytes -/

section
variable {cs : List Char} {i : Nat} {b : UInt8} {p : UInt8 → Bool} {bs : List UInt8}

theorem ascii_of_isBlank (h : isBlank b = true) : b.toNat < 128 := by
  simp only [isBlank, Bool.or_eq_true, beq_iff_eq] at h
  rcases h with (((rfl | rfl) | rfl) | rfl) | rfl <;> decide

theorem ascii_of_isGap (h : isGap b = true) : b.toNat < 128 := by
  rcases Bool.or_eq_true_iff.mp h with hblank | hslash
  · exact ascii_of_isBlank hblank
  · rw [beq_iff_eq.mp hslash]
    decide

theorem ascii_of_not_isNameByte (h : isNameByte b = false) : b.toNat < 128 := by
  simp only [isNameByte, Bool.and_eq_false_iff, Bool.not_eq_false', bne_eq_false_iff_eq] at h
  rcases h with (hblank | rfl) | rfl
  · exact ascii_of_isBlank hblank
  · decide
  · decide

/-- A run holds such bytes only. -/
theorem getElem?_of_lt_runLength (h : i < runLength p bs) : ∃ b, bs[i]? = some b ∧ p b = true := by
  induction bs generalizing i with
  | nil => cases h
  | cons c bs ih =>
      rw [runLength] at h
      split at h
      · cases i with
        | zero => exact ⟨c, rfl, ‹_›⟩
        | succ i => exact ih (Nat.lt_of_succ_lt_succ h)
      · cases h

/-- A run is ended by a byte of another kind, or by the end of the text. -/
theorem not_of_getElem?_runLength (h : bs[runLength p bs]? = some b) : p b = false := by
  induction bs with
  | nil => cases h
  | cons c bs ih =>
      rw [runLength] at h
      split at h
      · exact ih h
      · obtain rfl := Option.some.inj h
        exact Bool.eq_false_iff.mpr ‹_›

/-- Behind a run of ASCII bytes stands a place. -/
theorem isPlace_behind (hp : ∀ b, p b = true → b.toNat < 128) (hi : IsPlace cs i) :
    IsPlace cs (i + runLength p ((encode cs).drop i)) := by
  cases hn : runLength p ((encode cs).drop i) with
  | zero => exact hi
  | succ n =>
      obtain ⟨b, hb, hpb⟩ := getElem?_of_lt_runLength (Nat.lt_of_succ_le (Nat.le_of_eq hn.symm))
      rw [List.getElem?_drop] at hb
      exact isPlace_succ_of_ascii hb (hp b hpb)

/-- Where a run is ended by an ASCII byte, or by the end, is a place. -/
theorem isPlace_before (hp : ∀ b, p b = false → b.toNat < 128) (hi : i ≤ (encode cs).length) :
    IsPlace cs (i + runLength p ((encode cs).drop i)) := by
  cases hb : (encode cs)[i + runLength p ((encode cs).drop i)]? with
  | some b =>
      refine isPlace_of_ascii hb (hp b ?_)
      rw [← List.getElem?_drop] at hb
      exact not_of_getElem?_runLength hb
  | none =>
      have hend := List.getElem?_eq_none_iff.mp hb
      have hrun := runLength_le p ((encode cs).drop i)
      rw [List.length_drop] at hrun
      have hall : i + runLength p ((encode cs).drop i) = (encode cs).length := by omega
      rw [hall]
      exact isPlace_length cs

end

/-! ## Names and values -/

section
variable {cs : List Char} {bs : List UInt8} {i : Nat} {quote b : UInt8} {name : Range}

theorem isPiece_of_nextName? (hi : IsPlace cs i) (h : nextName? (encode cs) i = some name) :
    IsPiece cs name := by
  have hstart := isPlace_behind (fun _ => ascii_of_isGap) hi
  obtain ⟨-, hforwards, -⟩ := nextName?_bounds h
  unfold nextName? at h
  dsimp only at h
  split at h
  · obtain rfl := Option.some.inj h
    exact ⟨Nat.le_of_lt hforwards, hstart,
      isPlace_before (fun _ => ascii_of_not_isNameByte) hstart.le_length⟩
  · cases h

theorem readValue_of_quote (hb : bs[i]? = some quote) (hquote : quote = 34 ∨ quote = 39) :
    readValue bs i =
      let stop := (findByte quote (bs.drop (i + 1))).elim bs.length (i + 1 + ·)
      (⟨i + 1, stop⟩, stop + 1) := by
  obtain ⟨hlt, hget⟩ := List.getElem?_eq_some_iff.mp hb
  rw [readValue, List.drop_eq_getElem_cons hlt, hget]
  dsimp only
  rw [if_pos hquote]
  cases findByte quote (bs.drop (i + 1)) with
  | some n => rfl
  | none =>
      have hstop : i + 1 + (bs.drop (i + 1)).length = bs.length := by
        rw [List.length_drop]
        omega
      rw [Option.getD_none, hstop]
      rfl

theorem readValue_of_not_quote (hb : ∀ b, bs[i]? = some b → ¬ (b = 34 ∨ b = 39)) :
    readValue bs i =
      let stop := i + runLength (fun b => !isBlank b) (bs.drop i)
      (⟨i, stop⟩, stop) := by
  rw [readValue]
  split
  · rename_i hnil
    rw [hnil]
    rfl
  · rename_i b rest hrest
    have hget : bs[i]? = some b := by
      rw [← List.head?_drop, hrest]
      rfl
    rw [if_neg (hb b hget), hrest]

theorem getElem?_of_findByte {n : Nat} (h : findByte b bs = some n) : bs[n]? = some b := by
  induction bs generalizing n with
  | nil => cases h
  | cons c bs ih =>
      rw [findByte] at h
      split at h
      · rename_i hc
        obtain rfl := Option.some.inj h
        rw [hc]
        rfl
      · obtain ⟨m, hm, rfl⟩ := Option.map_eq_some_iff.mp h
        exact ih hm

/-- Where reading goes on: at a place, or beyond the end. -/
def Resumes (cs : List Char) (i : Nat) : Prop := IsPlace cs i ∨ (encode cs).length < i

theorem isPiece_readValue (hi : IsPlace cs i) :
    IsPiece cs (readValue (encode cs) i).1 ∧ Resumes cs (readValue (encode cs) i).2 := by
  by_cases hquote : ∃ b, (encode cs)[i]? = some b ∧ (b = 34 ∨ b = 39)
  · obtain ⟨b, hb, hquote⟩ := hquote
    have hascii : b.toNat < 128 := by rcases hquote with rfl | rfl <;> decide
    have hstart := isPlace_succ_of_ascii hb hascii
    rw [readValue_of_quote hb hquote]
    cases hfound : findByte b ((encode cs).drop (i + 1)) with
    | none =>
        exact ⟨⟨hstart.le_length, hstart, isPlace_length cs⟩, .inr (Nat.lt_succ_self _)⟩
    | some n =>
        have hclose : (encode cs)[i + 1 + n]? = some b := by
          rw [← List.getElem?_drop]
          exact getElem?_of_findByte hfound
        exact ⟨⟨Nat.le_add_right _ _, hstart, isPlace_of_ascii hclose hascii⟩,
          .inl (isPlace_succ_of_ascii hclose hascii)⟩
  · have hbare : ∀ b, (encode cs)[i]? = some b → ¬ (b = 34 ∨ b = 39) :=
      fun b hb hbq => hquote ⟨b, hb, hbq⟩
    have hstop := isPlace_before (p := fun b => !isBlank b)
      (fun b hb => ascii_of_isBlank (by simpa using hb)) hi.le_length
    rw [readValue_of_not_quote hbare]
    exact ⟨⟨Nat.le_add_right _ _, hi, hstop⟩, .inl hstop⟩

/-- What follows a name that ends at `i`: the range of a value, if there is one, and the
offset where reading goes on. -/
def valueAt (bs : List UInt8) (i : Nat) : Option Range × Nat :=
  if bs[i]? = some 61 then (some (readValue bs (i + 1)).1, (readValue bs (i + 1)).2)
  else (none, i)

theorem le_valueAt (bs : List UInt8) (i : Nat) : i ≤ (valueAt bs i).2 := by
  unfold valueAt
  split
  · exact Nat.le_of_succ_le (le_readValue bs (i + 1))
  · exact Nat.le_refl i

theorem attributesFrom_cons (h : nextName? bs i = some name) :
    attributesFrom bs i =
      ⟨name, (valueAt bs name.stop).1⟩ :: attributesFrom bs (valueAt bs name.stop).2 := by
  rw [attributesFrom_of_some h, valueAt]
  split <;> rfl

theorem isPiece_valueAt (hi : IsPlace cs i) :
    (∀ v, (valueAt (encode cs) i).1 = some v → IsPiece cs v) ∧
      Resumes cs (valueAt (encode cs) i).2 := by
  unfold valueAt
  split
  · rename_i hequals
    obtain ⟨hpiece, hresumes⟩ := isPiece_readValue (isPlace_succ_of_ascii hequals (by decide))
    exact ⟨fun v hv => Option.some.inj hv ▸ hpiece, hresumes⟩
  · exact ⟨fun v hv => (nomatch hv), .inl hi⟩

/-- Where a name is found reading has not gone beyond the end. -/
theorem Resumes.isPlace (hi : Resumes cs i) (h : nextName? (encode cs) i = some name) :
    IsPlace cs i := by
  obtain ⟨hle, hlt, hstop⟩ := nextName?_bounds h
  exact hi.resolve_right (by omega)

theorem isPiece_of_mem_attributesFrom (hi : Resumes cs i) :
    ∀ a ∈ attributesFrom (encode cs) i,
      IsPiece cs a.name ∧ ∀ v, a.value = some v → IsPiece cs v := by
  fun_induction attributesFrom (encode cs) i with
  | case1 => exact fun a ha => absurd ha List.not_mem_nil
  | case2 i name hname hequals value ih =>
      have hpiece := isPiece_of_nextName? (hi.isPlace hname) hname
      obtain ⟨hvalue, hresumes⟩ := isPiece_readValue (isPlace_succ_of_ascii hequals (by decide))
      exact List.forall_mem_cons.mpr
        ⟨⟨hpiece, fun v hv => Option.some.inj hv ▸ hvalue⟩, ih hresumes⟩
  | case3 i name hname _ ih =>
      have hpiece := isPiece_of_nextName? (hi.isPlace hname) hname
      exact List.forall_mem_cons.mpr ⟨⟨hpiece, fun v hv => (nomatch hv)⟩, ih (.inl hpiece.stop)⟩

/-- The names and the values of attributes are pieces of the attribute text. -/
theorem isPiece_of_mem_attributes (cs : List Char) :
    ∀ a ∈ attributes (encode cs), IsPiece cs a.name ∧ ∀ v, a.value = some v → IsPiece cs v :=
  isPiece_of_mem_attributesFrom (.inl (isPlace_zero cs))

theorem isPiece_of_langRange {r : Range} (h : langRange (encode cs) = some r) : IsPiece cs r := by
  unfold langRange at h
  split at h
  · rename_i a ha
    have hmem := List.mem_reverse.mp (List.mem_of_find?_eq_some ha)
    exact (isPiece_of_mem_attributes cs a hmem).2 r h
  · cases h

/-- What stands in a range of a piece stands there in the whole text. -/
theorem piece_piece {outer r : Range} (houter : IsPiece cs outer)
    (hr : IsPiece (piece cs outer) r) :
    piece cs (r.shift outer.start) = piece (piece cs outer) r := by
  obtain ⟨hslice, -, -⟩ := Text.slice?_of_slice? houter.slice? hr.slice?
  rw [piece, Span.shift, hslice, Option.getD_some]

end
end EmitLint.Sfc
