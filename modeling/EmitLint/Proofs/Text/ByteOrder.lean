/-
# The order of texts is that of their bytes

In UTF-8 the first byte tells how long a character is, a longer one has the
greater first byte, and the bits of the code point come from the highest down.
Main statement: `bytes_lt_bytes_iff`.  So texts that are in order by their
characters are in order by their bytes, and the other way round.
-/
import Mathlib.Tactic.SplitIfs
import EmitLint.Proofs.Text.Ascii

namespace EmitLint.Text

section

variable {m n : Nat} {u v : List UInt8}

theorem cons_lt_cons_of_lt (hn : n < 256) (h : m < n) :
    UInt8.ofNat m :: u < UInt8.ofNat n :: v := by
  refine List.cons_lt_cons_iff.mpr (.inl (UInt8.lt_iff_toNat_lt.mpr ?_))
  rw [UInt8.toNat_ofNat', UInt8.toNat_ofNat']
  omega

/-- What follows decides only between equal bytes. -/
theorem cons_lt_cons_of_le (hn : n < 256) (h : m ≤ n) (hrest : m = n → u < v) :
    UInt8.ofNat m :: u < UInt8.ofNat n :: v := by
  rcases Nat.lt_or_eq_of_le h with hlt | rfl
  · exact cons_lt_cons_of_lt hn hlt
  · exact List.cons_lt_cons_iff.mpr (.inr ⟨rfl, hrest rfl⟩)

end

theorem toNat_lt_planes (c : Char) : c.val.toNat < 0x110000 := by
  rcases c.valid with h | h <;> omega

/-- Bytes of different characters differ within the shorter one, whatever follows them. -/
theorem utf8EncodeChar_append_lt {c d : Char} (h : c < d) (u v : List UInt8) :
    String.utf8EncodeChar c ++ u < String.utf8EncodeChar d ++ v := by
  have hcd : c.val.toNat < d.val.toNat := h
  have hd := toNat_lt_planes d
  unfold String.utf8EncodeChar
  generalize c.val.toNat = m at hcd ⊢
  generalize d.val.toNat = n at hcd hd ⊢
  simp only
  split_ifs
  -- Where the lengths differ, so do the first bytes.
  all_goals first
    | omega
    | exact cons_lt_cons_of_lt (by omega) (by omega)
    | skip
  · exact cons_lt_cons_of_le (by omega) (by omega) fun _ =>
      cons_lt_cons_of_lt (by omega) (by omega)
  · exact cons_lt_cons_of_le (by omega) (by omega) fun _ =>
      cons_lt_cons_of_le (by omega) (by omega) fun _ =>
        cons_lt_cons_of_lt (by omega) (by omega)
  · exact cons_lt_cons_of_le (by omega) (by omega) fun _ =>
      cons_lt_cons_of_le (by omega) (by omega) fun _ =>
        cons_lt_cons_of_le (by omega) (by omega) fun _ =>
          cons_lt_cons_of_lt (by omega) (by omega)

theorem encode_lt_encode {as bs : List Char} (h : as < bs) : encode as < encode bs := by
  induction h with
  | nil =>
      rename_i b bs
      rw [encode_nil, encode_cons]
      cases hbytes : String.utf8EncodeChar b ++ encode bs with
      | nil => simp at hbytes
      | cons => exact .nil
  | rel h => exact utf8EncodeChar_append_lt h _ _
  | cons _ ih => exact List.append_left_lt ih

/-- Texts are in order exactly if their bytes are. -/
theorem bytes_lt_bytes_iff {a b : String} : bytes a < bytes b ↔ a < b := by
  refine ⟨fun h => ?_, encode_lt_encode⟩
  rcases Std.lt_trichotomy a b with hlt | rfl | hgt
  · exact hlt
  · exact absurd h (List.lt_irrefl _)
  · exact absurd h (List.lt_asymm (encode_lt_encode hgt))

end EmitLint.Text
