/-
# ASCII in a text

The bytes of a text hold an ASCII byte only where the text has that character.
Main statement: `occursIn_of_bytes`, an ASCII word that stands in the bytes of a
text stands in the text.  So what a scan over bytes finds or misses can be said
about the characters.
-/
import EmitLint.Text.Occurs
import EmitLint.Proofs.Text.Boundary

namespace EmitLint.Text

/-- The UTF-8 bytes of a list of characters. -/
def encode (cs : List Char) : List UInt8 := cs.flatMap String.utf8EncodeChar

/-- The one byte of an ASCII character. -/
def byte (c : Char) : UInt8 := c.toNat.toUInt8

/-- The text has ASCII characters only. -/
def IsAscii (cs : List Char) : Prop := ∀ c ∈ cs, c.toNat < 128

instance (cs : List Char) : Decidable (IsAscii cs) :=
  List.decidableBAll (fun c : Char => c.toNat < 128) cs

variable {c d : Char} {cs word : List Char} {b : UInt8} {u v : List UInt8}

@[simp] theorem encode_nil : encode [] = [] := rfl

theorem encode_cons (c : Char) (cs : List Char) :
    encode (c :: cs) = String.utf8EncodeChar c ++ encode cs := rfl

@[simp] theorem encode_append (as bs : List Char) : encode (as ++ bs) = encode as ++ encode bs :=
  List.flatMap_append

theorem bytes_ofList (cs : List Char) : bytes (String.ofList cs) = encode cs := by
  rw [bytes, String.toList_ofList, encode]

@[simp] theorem length_encode (cs : List Char) : (encode cs).length = byteLength cs := by
  rw [← bytes_ofList, length_bytes, String.toList_ofList]

theorem encode_ne_nil (h : cs ≠ []) : encode cs ≠ [] := by
  intro hnil
  have hlength := length_encode cs
  rw [hnil] at hlength
  exact h (byteLength_eq_zero hlength.symm)

theorem getElem?_encode (before after : List Char) :
    (encode (before ++ after))[byteLength before]? = (encode after).head? := by
  rw [encode_append, List.getElem?_append_right (Nat.le_of_eq (length_encode before)),
    length_encode, Nat.sub_self, List.head?_eq_getElem?]

theorem drop_encode (before after : List Char) :
    (encode (before ++ after)).drop (byteLength before) = encode after := by
  rw [encode_append, ← length_encode, List.drop_left]

/-! ## One character -/

theorem utf8EncodeChar_of_ascii (h : c.toNat < 128) : String.utf8EncodeChar c = [byte c] := by
  have hv : c.val.toNat ≤ 127 := Nat.le_of_lt_succ h
  rw [String.utf8EncodeChar]
  simp only [hv, if_true]
  rfl

theorem toNat_byte (h : c.toNat < 128) : (byte c).toNat = c.toNat := by
  rw [byte, Nat.toUInt8, UInt8.toNat_ofNat']
  omega

theorem byte_inj (hc : c.toNat < 128) (hd : d.toNat < 128) (h : byte c = byte d) : c = d := by
  have hnat := congrArg UInt8.toNat h
  rw [toNat_byte hc, toNat_byte hd] at hnat
  exact Char.toNat_inj.mp hnat

/-- A character with an ASCII byte in it is that byte alone. -/
theorem eq_byte_of_mem (hb : b ∈ String.utf8EncodeChar c) (hascii : b.toNat < 128) :
    c.toNat < 128 ∧ b = byte c := by
  have hone := utf8Size_of_ascii hb hascii
  have hc : c.toNat < 128 := Nat.lt_succ_of_le (Char.utf8Size_eq_one_iff.mp hone)
  rw [utf8EncodeChar_of_ascii hc] at hb
  exact ⟨hc, List.mem_singleton.mp hb⟩

/-! ## Texts -/

theorem encode_cons_of_ascii (h : c.toNat < 128) (cs : List Char) :
    encode (c :: cs) = byte c :: encode cs := by
  rw [encode_cons, utf8EncodeChar_of_ascii h]
  rfl

theorem encode_of_ascii (h : IsAscii cs) : encode cs = cs.map byte := by
  induction cs with
  | nil => rfl
  | cons c cs ih =>
      obtain ⟨hc, hcs⟩ := List.forall_mem_cons.mp h
      rw [encode_cons_of_ascii hc, ih hcs, List.map_cons]

/-- Every ASCII byte of a text is a character of it. -/
theorem exists_of_mem_encode (hb : b ∈ encode cs) (hascii : b.toNat < 128) :
    ∃ c ∈ cs, c.toNat < 128 ∧ b = byte c := by
  obtain ⟨c, hc, hbc⟩ := List.mem_flatMap.mp hb
  exact ⟨c, hc, eq_byte_of_mem hbc hascii⟩

theorem byte_mem_encode (hc : c.toNat < 128) : byte c ∈ encode cs ↔ c ∈ cs := by
  constructor
  · intro h
    obtain ⟨d, hd, hdascii, hbyte⟩ := exists_of_mem_encode h (by rw [toNat_byte hc]; exact hc)
    exact byte_inj hc hdascii hbyte ▸ hd
  · intro h
    exact List.mem_flatMap.mpr ⟨c, h, by rw [utf8EncodeChar_of_ascii hc]; exact List.mem_cons_self⟩

theorem getLast?_of_encode (hc : c.toNat < 128) (h : (encode cs).getLast? = some (byte c)) :
    cs.getLast? = some c := by
  rcases List.eq_nil_or_concat cs with rfl | ⟨front, d, rfl⟩
  · cases h
  · rw [List.concat_eq_append] at h ⊢
    have hd : encode [d] = String.utf8EncodeChar d := List.append_nil _
    have hne : encode [d] ≠ [] := encode_ne_nil (List.cons_ne_nil _ _)
    rw [encode_append, List.getLast?_append, Option.or_eq_some_iff] at h
    rcases h with h | ⟨hnone, -⟩
    · obtain ⟨hdascii, hbyte⟩ :=
        eq_byte_of_mem (hd ▸ List.mem_of_getLast? h) (by rw [toNat_byte hc]; exact hc)
      rw [byte_inj hc hdascii hbyte, List.getLast?_concat]
    · exact absurd (List.getLast?_eq_none_iff.mp hnone) hne

/-- A text can be cut in front of any of its ASCII bytes. -/
theorem append_of_encode_eq (h : encode cs = u ++ b :: v) (hascii : b.toNat < 128) :
    ∃ before c after, cs = before ++ c :: after ∧ encode before = u ∧ c.toNat < 128 ∧
      b = byte c ∧ encode after = v := by
  induction cs generalizing u with
  | nil => simp at h
  | cons d cs ih =>
      rw [encode_cons] at h
      rcases List.append_eq_append_iff.mp h with ⟨w, rfl, hw⟩ | ⟨w, hw, hv⟩
      · obtain ⟨before, c, after, rfl, rfl, hc⟩ := ih hw
        exact ⟨d :: before, c, after, rfl, rfl, hc⟩
      · cases w with
        | nil =>
            rw [List.append_nil] at hw
            obtain ⟨before, c, after, rfl, hbefore, hc⟩ := ih (u := []) hv.symm
            refine ⟨d :: before, c, after, rfl, ?_, hc⟩
            rw [encode_cons, hbefore, hw, List.append_nil]
        | cons x w =>
            obtain ⟨rfl, rfl⟩ := List.cons.inj hv
            have hd := eq_byte_of_mem (c := d) (hw ▸ List.mem_append_right u List.mem_cons_self)
              hascii
            rw [utf8EncodeChar_of_ascii hd.1] at hw
            obtain ⟨rfl, hxw⟩ := List.append_eq_singleton_iff.mp hw.symm |>.resolve_right
              fun hother => by simp at hother
            obtain ⟨-, rfl⟩ := List.cons.inj hxw
            exact ⟨[], d, cs, rfl, rfl, hd.1, hd.2, rfl⟩

/-- An ASCII word at the front of the bytes is at the front of the text. -/
theorem prefix_of_encode (hword : IsAscii word) (h : encode word <+: encode cs) :
    word <+: cs := by
  induction word generalizing cs with
  | nil => exact List.nil_prefix
  | cons c word ih =>
      obtain ⟨hc, hrest⟩ := List.forall_mem_cons.mp hword
      obtain ⟨v, hv⟩ := h
      rw [encode_cons_of_ascii hc] at hv
      obtain ⟨before, d, after, rfl, hbefore, hd, hbyte, hafter⟩ :=
        append_of_encode_eq (u := []) hv.symm (by rw [toNat_byte hc]; exact hc)
      obtain rfl : before = [] := byteLength_eq_zero (by rw [← length_encode, hbefore]; rfl)
      obtain rfl := byte_inj hc hd hbyte
      have htail : word <+: after := ih hrest ⟨v, hafter.symm⟩
      exact List.cons_prefix_cons.mpr ⟨rfl, htail⟩

theorem encode_inj (hword : IsAscii word) : encode cs = encode word ↔ cs = word := by
  refine ⟨fun h => ?_, fun h => h ▸ rfl⟩
  have hprefix : word <+: cs := prefix_of_encode hword ⟨[], by rw [h, List.append_nil]⟩
  obtain ⟨rest, rfl⟩ := hprefix
  have hlength := congrArg List.length h
  rw [length_encode, length_encode, byteLength_append] at hlength
  have hrest : rest = [] := byteLength_eq_zero (by omega)
  rw [hrest, List.append_nil]

/-- An ASCII word in the bytes of a text is a word of the text. -/
theorem occursIn_of_bytes {i : Nat} (hword : IsAscii word) (hne : word ≠ [])
    (h : encode word <+: (encode cs).drop i) : occursIn word cs = true := by
  obtain ⟨c, rest, rfl⟩ := List.exists_cons_of_ne_nil hne
  have hc : c.toNat < 128 := hword c List.mem_cons_self
  obtain ⟨v, hv⟩ := h
  rw [encode_cons_of_ascii hc] at hv
  have hsplit : encode cs = (encode cs).take i ++ byte c :: (encode rest ++ v) := by
    rw [← List.cons_append, hv, List.take_append_drop]
  obtain ⟨before, d, after, hcs, -, hd, hbyte, hafter⟩ :=
    append_of_encode_eq hsplit (by rw [toNat_byte hc]; exact hc)
  obtain rfl := byte_inj hc hd hbyte
  have hrest : rest <+: after :=
    prefix_of_encode (fun x hx => hword x (List.mem_cons_of_mem _ hx)) ⟨v, hafter.symm⟩
  obtain ⟨back, rfl⟩ := hrest
  exact occursIn_iff.mpr ⟨before, back, by rw [hcs, List.append_assoc]; rfl⟩

end EmitLint.Text
