/-
# Places between two characters

An offset that stands before or behind an ASCII byte is a place between two
characters, since in UTF-8 all bytes of a longer character are greater.  Main
statement: `splitAt?_of_ascii`.  From it come the pieces of a text: a scan
over bytes that stops at ASCII bytes cuts the text at such places only.
-/
import EmitLint.Text.Offset

namespace EmitLint.Text

/-- Only a character of one byte has an ASCII byte in it. -/
theorem utf8Size_of_ascii {c : Char} {b : UInt8} (hb : b ∈ String.utf8EncodeChar c)
    (hascii : b.toNat < 128) : c.utf8Size = 1 := by
  have hhigh : ∀ n : Nat, 128 ≤ n → n < 256 → ¬ (UInt8.ofNat n).toNat < 128 := by
    intro n hlow hn
    rw [UInt8.toNat_ofNat']
    omega
  rw [← String.length_utf8EncodeChar]
  unfold String.utf8EncodeChar at hb ⊢
  simp only at hb ⊢
  generalize c.val.toNat = v at hb ⊢
  split at hb
  · rename_i hv
    rw [if_pos hv]
    rfl
  -- What is left are the bytes of longer characters.
  · split at hb
    · simp only [List.mem_cons, List.not_mem_nil, or_false] at hb
      rcases hb with rfl | rfl <;> exact absurd hascii (hhigh _ (by omega) (by omega))
    · split at hb
      · simp only [List.mem_cons, List.not_mem_nil, or_false] at hb
        rcases hb with rfl | rfl | rfl <;> exact absurd hascii (hhigh _ (by omega) (by omega))
      · simp only [List.mem_cons, List.not_mem_nil, or_false] at hb
        rcases hb with rfl | rfl | rfl | rfl <;>
          exact absurd hascii (hhigh _ (by omega) (by omega))

theorem length_bytes (text : String) : (bytes text).length = byteLength text.toList := by
  unfold bytes
  induction text.toList with
  | nil => rfl
  | cons c cs ih =>
      rw [List.flatMap_cons, List.length_append, String.length_utf8EncodeChar, ih, byteLength_cons]

theorem splitAt?_cons {c : Char} {cs : List Char} {i : Nat} (h : c.utf8Size ≤ i) :
    splitAt? (c :: cs) i =
      (splitAt? cs (i - c.utf8Size)).map fun halves => (c :: halves.1, halves.2) := by
  have hpos : 0 < c.utf8Size := c.utf8Size_pos
  obtain ⟨n, rfl⟩ : ∃ n, i = n + 1 := ⟨i - 1, by omega⟩
  rw [splitAt?, if_pos h]

/-- Before and behind an ASCII byte a text can be cut. -/
theorem splitAt?_of_ascii {cs : List Char} {i : Nat} {b : UInt8}
    (hb : (cs.flatMap String.utf8EncodeChar)[i]? = some b) (hascii : b.toNat < 128) :
    (splitAt? cs i).isSome = true ∧ (splitAt? cs (i + 1)).isSome = true := by
  induction cs generalizing i with
  | nil => simp at hb
  | cons c cs ih =>
      rw [List.flatMap_cons, List.getElem?_append, String.length_utf8EncodeChar] at hb
      split at hb
      · rename_i hi
        have hone : c.utf8Size = 1 := utf8Size_of_ascii (List.mem_of_getElem? hb) hascii
        obtain rfl : i = 0 := by omega
        refine ⟨by rw [splitAt?_zero]; rfl, ?_⟩
        rw [splitAt?_cons (by omega), hone, splitAt?_zero]
        rfl
      · obtain ⟨hbefore, hbehind⟩ := ih hb
        rw [splitAt?_cons (by omega), splitAt?_cons (by omega), Option.isSome_map,
          Option.isSome_map, Nat.sub_add_comm (by omega)]
        exact ⟨hbefore, hbehind⟩

/-! ## Pieces -/

theorem slice?_eq_some {text inside : List Char} {i j : Nat} (h : slice? text i j = some inside) :
    ∃ before after, text = before ++ inside ++ after ∧ byteLength before = i ∧
      byteLength before + byteLength inside = j := by
  unfold slice? at h
  split at h
  · rename_i hij
    cases hfirst : splitAt? text i with
    | none => simp [hfirst] at h
    | some halves =>
        obtain ⟨before, rest⟩ := halves
        cases hsecond : splitAt? rest (j - i) with
        | none => simp [hfirst, hsecond] at h
        | some quarters =>
            obtain ⟨piece, after⟩ := quarters
            obtain rfl : piece = inside := by simpa [hfirst, hsecond] using h
            obtain ⟨rfl, hbefore⟩ := append_of_splitAt? hfirst
            obtain ⟨rfl, hpiece⟩ := append_of_splitAt? hsecond
            exact ⟨before, after, (List.append_assoc ..).symm, hbefore, by omega⟩
  · cases h

theorem byteLength_eq_zero {cs : List Char} (h : byteLength cs = 0) : cs = [] := by
  cases cs with
  | nil => rfl
  | cons c cs =>
      have hpos : 0 < c.utf8Size := c.utf8Size_pos
      rw [byteLength_cons] at h
      omega

/-- Two places between characters have a piece between them. -/
theorem slice?_of_splitAt? {cs : List Char} {i j : Nat} (hij : i ≤ j)
    (hi : (splitAt? cs i).isSome = true) (hj : (splitAt? cs j).isSome = true) :
    ∃ inside, slice? cs i j = some inside := by
  obtain ⟨⟨before, rest⟩, hi⟩ := Option.isSome_iff_exists.mp hi
  obtain ⟨⟨front, after⟩, hj⟩ := Option.isSome_iff_exists.mp hj
  obtain ⟨hbefore, rfl⟩ := append_of_splitAt? hi
  obtain ⟨hfront, rfl⟩ := append_of_splitAt? hj
  rcases List.append_eq_append_iff.mp (hbefore.trans hfront.symm) with ⟨x, rfl, rfl⟩ | ⟨x, rfl, rfl⟩
  · refine ⟨x, ?_⟩
    rw [← hfront, byteLength_append]
    exact slice?_append before x after
  · have hx : x = [] := by
      apply byteLength_eq_zero
      rw [byteLength_append] at hij
      omega
    subst hx
    refine ⟨[], ?_⟩
    rw [← hfront, List.append_nil]
    simpa using slice?_append front [] rest

/-- A piece of a piece is a piece of the whole. -/
theorem slice?_of_slice? {cs inside piece : List Char} {i j m n : Nat}
    (h : slice? cs i j = some inside) (hpiece : slice? inside m n = some piece) :
    slice? cs (m + i) (n + i) = some piece ∧ m ≤ n ∧ n + i ≤ j := by
  obtain ⟨before, after, rfl, rfl, rfl⟩ := slice?_eq_some h
  obtain ⟨front, back, rfl, rfl, rfl⟩ := slice?_eq_some hpiece
  refine ⟨?_, Nat.le_add_right _ _, ?_⟩
  · have hslice := slice?_append (before ++ front) piece (back ++ after)
    rw [byteLength_append] at hslice
    have hassoc : before ++ (front ++ piece ++ back) ++ after =
        before ++ front ++ piece ++ (back ++ after) := by
      simp
    rw [hassoc, ← hslice]
    congr 1 <;> omega
  · rw [byteLength_append, byteLength_append]
    omega

/-! ## Pieces of two texts that agree in part -/

section
variable {u u' v : List Char} {i j n : Nat}

theorem splitAt?_append_of_le (h : i ≤ byteLength u) :
    splitAt? (u ++ v) i = (splitAt? u i).map fun halves => (halves.1, halves.2 ++ v) := by
  induction u generalizing i with
  | nil =>
      obtain rfl : i = 0 := Nat.le_zero.mp h
      simp
  | cons c u ih =>
      cases i with
      | zero => simp
      | succ i =>
          rw [byteLength_cons] at h
          rw [List.cons_append, splitAt?, splitAt?]
          split
          · rw [ih (by omega), Option.map_map, Option.map_map]
            rfl
          · rfl

theorem splitAt?_append_add (u v : List Char) (i : Nat) :
    splitAt? (u ++ v) (byteLength u + i) =
      (splitAt? v i).map fun halves => (u ++ halves.1, halves.2) := by
  induction u with
  | nil => simp
  | cons c u ih =>
      have hrest : c.utf8Size + byteLength u + i - c.utf8Size = byteLength u + i := by omega
      rw [List.cons_append, byteLength_cons, splitAt?_cons (by omega), hrest, ih, Option.map_map]
      rfl

/-- A piece is not moved by what stands behind it. -/
theorem slice?_append_left (v : List Char) (h : j ≤ byteLength u) :
    slice? (u ++ v) i j = slice? u i j := by
  unfold slice?
  split
  · rename_i hij
    rw [splitAt?_append_of_le (Nat.le_trans hij h)]
    cases hfirst : splitAt? u i with
    | none => rfl
    | some halves =>
        obtain ⟨before, rest⟩ := halves
        obtain ⟨rfl, hbefore⟩ := append_of_splitAt? hfirst
        rw [byteLength_append] at h
        have hinside : j - i ≤ byteLength rest := by omega
        simp only [Option.map_some, Option.bind_eq_bind, Option.bind_some,
          splitAt?_append_of_le hinside]
        cases splitAt? rest (j - i) <;> rfl
  · rfl

/-- A piece moves with what stands in front of it. -/
theorem slice?_append_right (v : List Char) (hi : byteLength u ≤ i)
    (hlength : byteLength u' = byteLength u + n) :
    slice? (u' ++ v) (i + n) (j + n) = slice? (u ++ v) i j := by
  obtain ⟨m, rfl⟩ := Nat.exists_eq_add_of_le hi
  have hplace : byteLength u + m + n = byteLength u' + m := by omega
  have hinside : j + n - (byteLength u' + m) = j - (byteLength u + m) := by omega
  have hforwards : byteLength u' + m ≤ j + n ↔ byteLength u + m ≤ j := by omega
  unfold slice?
  rw [hplace, hinside, splitAt?_append_add, splitAt?_append_add]
  simp only [hforwards]
  cases splitAt? v m <;> rfl

end
end EmitLint.Text
