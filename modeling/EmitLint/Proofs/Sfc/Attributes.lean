/-
# Written attributes are read back

The attributes of an opening tag are read byte by byte.  Main statement:
`placed_attributes`.  The reader finds the attributes that were written, in
order, each name and each value where it stands.  From it come the flag of a
script and its language (`hasSetup_attributeText`, `langRange_attributeText`).
-/
import EmitLint.Proofs.Sfc.Search
import EmitLint.Proofs.Sfc.Written
import EmitLint.Proofs.Text.Ascii
import Mathlib.Data.List.Forall2

namespace EmitLint.Sfc.Written

open Text (encode byte byteLength IsAscii)

/-! ## Bytes by their characters -/

section
variable {cs bad : List Char} {b : UInt8}

/-- A text without some characters is one without their bytes. -/
theorem avoids_encode (hbad : IsAscii bad) (h : Without bad cs) :
    ∀ b ∈ encode cs, b ∉ bad.map byte := by
  intro b hb hmem
  obtain ⟨c, hc, rfl⟩ := List.mem_map.mp hmem
  exact h c ((Text.byte_mem_encode (hbad c hc)).mp hb) hc

theorem isBlank_iff : isBlank b = true ↔ b ∈ spaces.map byte := by
  have hspaces : spaces.map byte = [32, 9, 10, 12, 13] := by decide
  rw [hspaces]
  simp [isBlank, or_assoc]

theorem isGap_iff : isGap b = true ↔ b ∈ spaces.map byte ∨ b = 47 := by
  rw [isGap, Bool.or_eq_true, isBlank_iff, beq_iff_eq]

theorem isNameByte_iff : isNameByte b = true ↔ b ∉ spaces.map byte ∧ b ≠ 61 ∧ b ≠ 47 := by
  rw [isNameByte, ← isBlank_iff]
  simp [and_assoc]

end

/-! ## Runs of bytes -/

section
variable {p : UInt8 → Bool} {xs ys inside rest : List UInt8} {quote : UInt8}

theorem runLength_append (hxs : ∀ b ∈ xs, p b = true) (hys : ∀ b ∈ ys.head?, p b = false) :
    runLength p (xs ++ ys) = xs.length := by
  induction xs with
  | nil =>
      cases ys with
      | nil => rfl
      | cons y ys =>
          have hy : p y = false := hys y rfl
          simp [runLength, hy]
  | cons x xs ih =>
      obtain ⟨hx, hxs⟩ := List.forall_mem_cons.mp hxs
      rw [List.cons_append, runLength, if_pos hx, ih hxs, List.length_cons]

theorem findByte_append (h : quote ∉ inside) :
    findByte quote (inside ++ quote :: rest) = some inside.length := by
  induction inside with
  | nil => simp [findByte]
  | cons b inside ih =>
      obtain ⟨hb, hinside⟩ := not_or.mp (mt List.mem_cons.mpr h)
      rw [List.cons_append, findByte, if_neg (Ne.symm hb), ih hinside]
      rfl

end

/-! ## One attribute -/

section
variable {u tail : List UInt8} {a : Attribute} {v : Value} {b : UInt8}

theorem mem_of_mem_head? {xs ys : List UInt8} (hxs : xs ≠ []) (h : b ∈ (xs ++ ys).head?) :
    b ∈ xs := by
  obtain ⟨x, rest, rfl⟩ := List.exists_cons_of_ne_nil hxs
  exact Option.mem_some_iff.mp h ▸ List.mem_cons_self

theorem mem_gaps (a : Attribute) : ∀ b ∈ encode a.gap, b ∈ gaps.map byte := by
  intro b hb
  have hascii : IsAscii a.gap := fun c hc =>
    (by decide : IsAscii gaps) c (a.gap_blank c hc)
  rw [Text.encode_of_ascii hascii] at hb
  obtain ⟨c, hc, rfl⟩ := List.mem_map.mp hb
  exact List.mem_map_of_mem (a.gap_blank c hc)

/-- Attributes begin with their gaps. -/
theorem mem_gaps_of_head? {α : Type} {f : α → List Char} {as : List α}
    (hf : ∀ a, ∃ (x : Attribute) (rest : List Char), f a = x.gap ++ rest) :
    ∀ b ∈ (encode (as.flatMap f)).head?, b ∈ gaps.map byte := by
  cases as with
  | nil => exact fun b hb => nomatch hb
  | cons a as =>
      obtain ⟨x, rest, hx⟩ := hf a
      intro b hb
      rw [List.flatMap_cons, hx, List.append_assoc, Text.encode_append] at hb
      exact mem_gaps x b (mem_of_mem_head? (Text.encode_ne_nil x.gap_ne_nil) hb)

theorem isBlank_of_mem_gaps : ∀ b ∈ gaps.map byte, isBlank b = true :=
  List.all_eq_true.mp (by decide)

theorem isBlank_gap (a : Attribute) : ∀ b ∈ encode a.gap, isBlank b = true := by
  exact fun b hb => isBlank_of_mem_gaps b (mem_gaps a b hb)

theorem avoids_name (a : Attribute) :
    ∀ b ∈ encode a.name, b ∉ (spaces ++ ['\x22', '\x27', '=', '/', '<', '>']).map byte :=
  avoids_encode (by decide) a.name_plain

theorem isNameByte_name (a : Attribute) : ∀ b ∈ encode a.name, isNameByte b = true := by
  intro b hb
  have havoids := avoids_name a b hb
  rw [List.map_append, List.mem_append, not_or] at havoids
  refine isNameByte_iff.mpr ⟨havoids.1, ?_, ?_⟩
  · rintro rfl
    exact havoids.2 (by decide)
  · rintro rfl
    exact havoids.2 (by decide)

theorem isGap_of_isNameByte (h : isNameByte b = true) : isGap b = false := by
  rw [isNameByte_iff] at h
  rw [Bool.eq_false_iff, ne_eq, isGap_iff, not_or]
  exact ⟨h.1, h.2.2⟩

/-- Behind the gap the name is found, up to a byte that no name has. -/
theorem nextName?_written (a : Attribute) (before : List Char) {after : List Char}
    (hafter : ∀ b ∈ (encode after).head?, isNameByte b = false) :
    nextName? (encode (before ++ a.gap ++ a.name ++ after)) (byteLength before) =
      some ⟨byteLength (before ++ a.gap), byteLength (before ++ a.gap ++ a.name)⟩ := by
  have hname : encode a.name ≠ [] := Text.encode_ne_nil a.name_ne_nil
  have hgap : runLength isGap (encode (a.gap ++ (a.name ++ after))) = byteLength a.gap := by
    rw [Text.encode_append, Text.encode_append, runLength_append, Text.length_encode]
    · intro b hb
      rw [isGap, isBlank_gap a b hb, Bool.true_or]
    · intro b hb
      exact isGap_of_isNameByte (isNameByte_name a b (mem_of_mem_head? hname hb))
  have hrun : runLength isNameByte (encode (a.name ++ after)) = byteLength a.name := by
    rw [Text.encode_append, runLength_append (isNameByte_name a) hafter, Text.length_encode]
  have hpos : 0 < byteLength a.name := by
    rw [← Text.length_encode]
    exact List.length_pos_iff.mpr hname
  have hfront : (encode (before ++ a.gap ++ a.name ++ after)).drop (byteLength before) =
      encode (a.gap ++ (a.name ++ after)) := by
    rw [List.append_assoc, List.append_assoc, Text.drop_encode]
  have hbehind : (encode (before ++ a.gap ++ a.name ++ after)).drop
      (byteLength before + byteLength a.gap) = encode (a.name ++ after) := by
    rw [List.append_assoc, ← Text.byteLength_append, Text.drop_encode]
  simp only [nextName?, hfront, hgap, hbehind, hrun, Text.byteLength_append]
  rw [if_pos (by omega)]

/-! Both quotes are single bytes, so a quoted text is its bytes between two of them. -/

theorem quote_ascii {q : Char} (hq : q = '\x22' ∨ q = '\x27') : q.toNat < 128 := by
  rcases hq with rfl | rfl <;> decide

theorem byte_quote {q : Char} (hq : q = '\x22' ∨ q = '\x27') : byte q = 34 ∨ byte q = 39 := by
  rcases hq with rfl | rfl
  · exact .inl (by decide)
  · exact .inr (by decide)

theorem encode_quoted {q : Char} (hq : q = '\x22' ∨ q = '\x27') (text : List Char) :
    encode (q :: text ++ [q]) = byte q :: (encode text ++ [byte q]) := by
  have hascii := quote_ascii hq
  rw [Text.encode_append, Text.encode_cons_of_ascii hascii, Text.encode_cons_of_ascii hascii]
  rfl

theorem readValue_quoted {q : Char} {text : List Char} (hq : q = '\x22' ∨ q = '\x27')
    (hclosed : q ∉ text) :
    readValue (u ++ (encode (q :: text ++ [q]) ++ tail)) u.length =
      (⟨u.length + 1, u.length + 1 + byteLength text⟩,
        u.length + byteLength (q :: text ++ [q])) := by
  have hinside : byte q ∉ encode text := mt (Text.byte_mem_encode (quote_ascii hq)).mp hclosed
  have hlength : byteLength (q :: text ++ [q]) = byteLength text + 2 := by
    rw [← Text.length_encode, encode_quoted hq, List.length_cons, List.length_append,
      Text.length_encode]
    rfl
  rw [encode_quoted hq, hlength, List.cons_append, List.append_assoc, readValue, List.drop_left]
  simp only [byte_quote hq, if_true, List.singleton_append, findByte_append hinside,
    Option.getD_some, Text.length_encode]
  rw [Nat.add_assoc u.length, Nat.add_assoc u.length, Nat.add_comm 1, Nat.add_assoc]

theorem readValue_bare {text : List Char} (hne : text ≠ [])
    (hplain : Without (spaces ++ ['\x22', '\x27', '>']) text)
    (htail : ∀ b ∈ tail.head?, isBlank b = true) :
    readValue (u ++ (encode text ++ tail)) u.length =
      (⟨u.length, u.length + byteLength text⟩, u.length + byteLength text) := by
  have havoids : ∀ b ∈ encode text, isBlank b = false ∧ b ≠ 34 ∧ b ≠ 39 := by
    intro b hb
    have hbad := avoids_encode (by decide) hplain b hb
    rw [List.map_append, List.mem_append, not_or, ← isBlank_iff] at hbad
    refine ⟨Bool.eq_false_iff.mpr hbad.1, ?_, ?_⟩
    · rintro rfl
      exact hbad.2 (by decide)
    · rintro rfl
      exact hbad.2 (by decide)
  have hrun : runLength (fun b => !isBlank b) (encode text ++ tail) = byteLength text := by
    rw [← Text.length_encode]
    refine runLength_append (fun b hb => ?_) (fun b hb => ?_)
    · rw [(havoids b hb).1, Bool.not_false]
    · rw [htail b hb, Bool.not_true]
  obtain ⟨b, rest, hb⟩ := List.exists_cons_of_ne_nil (Text.encode_ne_nil hne)
  obtain ⟨-, hdouble, hsingle⟩ := havoids b (hb ▸ List.mem_cons_self)
  rw [readValue, List.drop_left]
  rw [hb, List.cons_append] at hrun ⊢
  simp only [hdouble, hsingle, or_self, if_false, hrun]

/-- How many bytes of a value stand in front of its text. -/
def Value.lead : Value → Nat
  | double .. | single .. => 1
  | bare .. => 0

theorem readValue_written (v : Value) (htail : ∀ b ∈ tail.head?, isBlank b = true) :
    readValue (u ++ (encode v.written ++ tail)) u.length =
      (⟨u.length + v.lead, u.length + v.lead + byteLength v.text⟩,
        u.length + byteLength v.written) := by
  cases v with
  | double text closed => exact readValue_quoted (.inl rfl) closed
  | single text closed => exact readValue_quoted (.inr rfl) closed
  | bare text nonempty plain => exact readValue_bare nonempty plain htail

theorem slice?_value (v : Value) (before after : List Char) :
    Text.slice? (before ++ v.written ++ after) (byteLength before + v.lead)
      (byteLength before + v.lead + byteLength v.text) = some v.text := by
  have hquoted : ∀ (q : Char) (text : List Char), q.utf8Size = 1 →
      Text.slice? (before ++ (q :: text ++ [q]) ++ after) (byteLength before + 1)
        (byteLength before + 1 + byteLength text) = some text := by
    intro q text hq
    have hslice := Text.slice?_append (before ++ [q]) text (q :: after)
    rw [Text.byteLength_append, Text.byteLength_cons, Text.byteLength_nil, hq] at hslice
    simpa using hslice
  cases v with
  | double text closed => exact hquoted _ text (by decide)
  | single text closed => exact hquoted _ text (by decide)
  | bare text nonempty plain => exact Text.slice?_append before text after

end

/-! ## All attributes -/

/-- The attribute stands in the text where it is said to stand. -/
structure Placed (text : List Char) (a : Attribute) (x : Sfc.Attribute) : Prop where
  name : Text.slice? text x.name.start x.name.stop = some a.name
  value : Option.Rel (fun (v : Value) r => Text.slice? text r.start r.stop = some v.text)
    a.value x.value

theorem attributesFrom_length (bs : List UInt8) : attributesFrom bs bs.length = [] :=
  attributesFrom_of_length_le (Nat.le_refl _)

section
variable (before : List Char) {rest : List Char}

/-- An attribute without a value ends with its name. -/
theorem attributesFrom_name (a : Attribute)
    (hrest : ∀ b ∈ (encode rest).head?, isBlank b = true) :
    attributesFrom (encode (before ++ a.gap ++ a.name ++ rest)) (byteLength before) =
      ⟨⟨byteLength (before ++ a.gap), byteLength (before ++ a.gap ++ a.name)⟩, none⟩ ::
        attributesFrom (encode (before ++ a.gap ++ a.name ++ rest))
          (byteLength (before ++ a.gap ++ a.name)) := by
  have hname : ∀ b ∈ (encode rest).head?, isNameByte b = false := by
    intro b hb
    rw [isNameByte, hrest b hb]
    rfl
  have hnext := nextName?_written a before hname
  rw [attributesFrom_of_some hnext, if_neg]
  rw [Text.getElem?_encode]
  intro hequals
  exact absurd (hrest 61 hequals) (by decide)

/-- An attribute with a value ends with that. -/
theorem attributesFrom_value (a : Attribute) (v : Value)
    (hrest : ∀ b ∈ (encode rest).head?, isBlank b = true) :
    attributesFrom (encode (before ++ a.gap ++ a.name ++ ('=' :: v.written ++ rest)))
        (byteLength before) =
      ⟨⟨byteLength (before ++ a.gap), byteLength (before ++ a.gap ++ a.name)⟩,
        some ⟨byteLength (before ++ a.gap ++ a.name ++ ['=']) + v.lead,
          byteLength (before ++ a.gap ++ a.name ++ ['=']) + v.lead + byteLength v.text⟩⟩ ::
        attributesFrom (encode (before ++ a.gap ++ a.name ++ ('=' :: v.written ++ rest)))
          (byteLength (before ++ a.gap ++ a.name ++ '=' :: v.written)) := by
  have hequals : encode ('=' :: v.written ++ rest) = 61 :: encode (v.written ++ rest) :=
    Text.encode_cons_of_ascii (by decide) _
  have hname : ∀ b ∈ (encode ('=' :: v.written ++ rest)).head?, isNameByte b = false := by
    intro b hb
    rw [hequals] at hb
    obtain rfl := Option.mem_some_iff.mp hb
    decide
  have hnext := nextName?_written a before hname
  have hvalue := readValue_written (u := encode (before ++ a.gap ++ a.name ++ ['='])) v hrest
  have htext : encode (before ++ a.gap ++ a.name ++ ('=' :: v.written ++ rest)) =
      encode (before ++ a.gap ++ a.name ++ ['=']) ++ (encode v.written ++ encode rest) := by
    rw [← Text.encode_append, ← Text.encode_append]
    simp
  have hequalsLength : byteLength (before ++ a.gap ++ a.name ++ ['=']) =
      byteLength (before ++ a.gap ++ a.name) + 1 := by
    rw [Text.byteLength_append]
    rfl
  have hwrittenLength : byteLength (before ++ a.gap ++ a.name ++ '=' :: v.written) =
      byteLength (before ++ a.gap ++ a.name) + 1 + byteLength v.written := by
    rw [Text.byteLength_append, Text.byteLength_cons, ← Nat.add_assoc]
    rfl
  rw [← htext, Text.length_encode, hequalsLength] at hvalue
  rw [attributesFrom_of_some hnext, if_pos (by rw [Text.getElem?_encode, hequals]; rfl),
    hvalue, hequalsLength, hwrittenLength]

/-- One attribute is read, and reading goes on behind it. -/
theorem attributesFrom_written (a : Attribute)
    (hrest : ∀ b ∈ (encode rest).head?, isBlank b = true) :
    ∃ x, Placed (before ++ a.written ++ rest) a x ∧
      attributesFrom (encode (before ++ a.written ++ rest)) (byteLength before) =
        x :: attributesFrom (encode (before ++ a.written ++ rest))
          (byteLength (before ++ a.written)) := by
  have hname : Text.slice? (before ++ a.written ++ rest) (byteLength (before ++ a.gap))
      (byteLength (before ++ a.gap ++ a.name)) = some a.name := by
    have hslice := Text.slice?_append (before ++ a.gap) a.name (a.writtenValue ++ rest)
    rw [← Text.byteLength_append] at hslice
    simpa [Attribute.written] using hslice
  cases hvalue : a.value with
  | none =>
      have hwritten : before ++ a.written = before ++ a.gap ++ a.name := by
        simp [Attribute.written, Attribute.writtenValue, hvalue]
      rw [hwritten] at hname ⊢
      exact ⟨_, ⟨hname, by rw [hvalue]; exact .none⟩, attributesFrom_name before a hrest⟩
  | some v =>
      have hwritten : before ++ a.written = before ++ a.gap ++ a.name ++ '=' :: v.written := by
        simp [Attribute.written, Attribute.writtenValue, hvalue]
      have hassoc : before ++ a.gap ++ a.name ++ ('=' :: v.written ++ rest) =
          before ++ a.gap ++ a.name ++ '=' :: v.written ++ rest :=
        (List.append_assoc _ _ _).symm
      have hslice := slice?_value v (before ++ a.gap ++ a.name ++ ['=']) rest
      have hread := attributesFrom_value before a v hrest
      rw [hassoc] at hread
      rw [hwritten] at hname ⊢
      refine ⟨_, ⟨hname, ?_⟩, hread⟩
      rw [hvalue]
      exact .some (by simpa using hslice)

/-- The attributes that are read are those that were written, each in its place. -/
theorem placed_attributesFrom (attributes : List Attribute) (before : List Char) :
    List.Forall₂ (Placed (before ++ attributes.flatMap Attribute.written)) attributes
      (attributesFrom (encode (before ++ attributes.flatMap Attribute.written))
        (byteLength before)) := by
  induction attributes generalizing before with
  | nil =>
      rw [List.flatMap_nil, List.append_nil, ← Text.length_encode, attributesFrom_length]
      exact .nil
  | cons a attributes ih =>
      have hrest : ∀ b ∈ (encode (attributes.flatMap Attribute.written)).head?,
          isBlank b = true :=
        fun b hb => isBlank_of_mem_gaps b (mem_gaps_of_head? (fun c => ⟨c, _, rfl⟩) b hb)
      obtain ⟨x, hx, hread⟩ := attributesFrom_written before a hrest
      rw [List.flatMap_cons, ← List.append_assoc, hread]
      exact .cons hx (ih (before ++ a.written))

end

/-! ## Letter case -/

section
variable {cs : List Char} {word : String} {c : Char}

theorem lower_byte (h : c.toNat < 128) :
    lower (byte c) = byte c.toLower ∧ c.toLower.toNat < 128 := by
  have hall : ∀ n < 128, lower (byte (Char.ofNat n)) = byte (Char.ofNat n).toLower ∧
      (Char.ofNat n).toLower.toNat < 128 := by
    decide
  have hc := hall c.toNat h
  rwa [Char.ofNat_toNat] at hc

theorem toLower_of_not_ascii (h : ¬ c.toNat < 128) : c.toLower = c := by
  refine dif_neg ?_
  rintro ⟨-, hle⟩
  have hnat : c.toNat ≤ 90 := UInt32.le_iff_toNat_le.mp hle
  omega

theorem lower_of_not_ascii {b : UInt8} (h : ¬ b.toNat < 128) : lower b = b := by
  rw [lower, if_neg]
  rintro ⟨-, hle⟩
  have hnat : b.toNat ≤ 90 := UInt8.le_iff_toNat_le.mp hle
  omega

/-- The bytes of the small letters are the small letters of the bytes. -/
theorem map_lower_encode (cs : List Char) :
    (encode cs).map lower = encode (cs.map Char.toLower) := by
  induction cs with
  | nil => rfl
  | cons c cs ih =>
      rw [Text.encode_cons, List.map_append, ih, List.map_cons, Text.encode_cons]
      congr 1
      by_cases hc : c.toNat < 128
      · obtain ⟨hlower, hascii⟩ := lower_byte hc
        rw [Text.utf8EncodeChar_of_ascii hc, Text.utf8EncodeChar_of_ascii hascii, ← hlower]
        rfl
      · rw [toLower_of_not_ascii hc]
        refine (List.map_congr_left fun b hb => ?_).trans (List.map_id _)
        exact lower_of_not_ascii fun hb' => hc (Text.eq_byte_of_mem hb hb').1

theorem ascii_eq_encode (h : IsAscii word.toList) : ascii word = encode word.toList :=
  (Text.encode_of_ascii h).symm

/-- Whether a text is a word in some letter case can be told by its bytes. -/
theorem map_lower_eq_ascii_iff (h : IsAscii word.toList) :
    (encode cs).map lower = ascii word ↔ Spells word cs := by
  rw [map_lower_encode, ascii_eq_encode h, Spells, Text.encode_inj h]

end

/-! ## The flag and the language -/

section
variable {text : List Char} {a : Attribute} {x : Sfc.Attribute} {word : String} {r : Range}
  {piece : List Char}

theorem bytesIn_encode (h : Text.slice? text r.start r.stop = some piece) :
    bytesIn (encode text) r = encode piece := by
  obtain ⟨before, after, rfl, hstart, hstop⟩ := Text.slice?_eq_some h
  rw [bytesIn, List.append_assoc, ← hstart, Text.drop_encode, ← hstop, Nat.add_sub_cancel_left,
    Text.encode_append, ← Text.length_encode, List.take_left]

theorem named_placed (hword : IsAscii word.toList) (h : Placed text a x) :
    Sfc.Attribute.named (encode text) word x = a.named word := by
  rw [Sfc.Attribute.named, bytesIn_encode h.name, Attribute.named, Bool.eq_iff_iff, beq_iff_eq,
    decide_eq_true_iff, map_lower_eq_ascii_iff hword]

end

/-- Lists of related elements are searched alike. -/
theorem rel_find? {α β : Type} {R : α → β → Prop} {p : α → Bool} {q : β → Bool} {as : List α}
    {bs : List β} (hpq : ∀ a b, R a b → p a = q b) (h : List.Forall₂ R as bs) :
    Option.Rel R (as.find? p) (bs.find? q) := by
  induction h with
  | nil => exact .none
  | @cons a b as bs hab _ ih =>
      rw [List.find?_cons, List.find?_cons, ← hpq a b hab]
      cases p a with
      | true => exact .some hab
      | false => exact ih

theorem placed_attributes (t : Tag) :
    List.Forall₂ (Placed t.attributeText) t.attributes (attributes (encode t.attributeText)) :=
  placed_attributesFrom t.attributes []

theorem named_of_placed {t : Tag} (word : String) (hword : IsAscii word.toList) (a : Attribute)
    (x : Sfc.Attribute) (h : Placed t.attributeText a x) :
    a.named word = Sfc.Attribute.named (encode t.attributeText) word x :=
  (named_placed hword h).symm

theorem hasSetup_attributeText (t : Tag) : hasSetup (encode t.attributeText) = t.setup := by
  have hfound := rel_find? (named_of_placed "setup" (by decide)) (placed_attributes t)
  rw [hasSetup, Tag.setup, Bool.eq_iff_iff, List.any_eq_true, List.any_eq_true,
    ← List.find?_isSome, ← List.find?_isSome]
  generalize t.attributes.find? _ = a, (attributes _).find? _ = x at hfound ⊢
  cases hfound with
  | none => exact Iff.rfl
  | some _ => exact Iff.rfl

/-- The language is read where the tag has it. -/
theorem langRange_attributeText (t : Tag) :
    Option.Rel (fun (l : String) r => Text.slice? t.attributeText r.start r.stop = some l.toList)
      t.lang (langRange (encode t.attributeText)) := by
  have hfound := rel_find? (named_of_placed "lang" (by decide))
    (List.rel_reverse (placed_attributes t))
  rw [Tag.lang, langRange]
  generalize t.attributes.reverse.find? _ = a, (attributes _).reverse.find? _ = x at hfound ⊢
  cases hfound with
  | none => exact .none
  | @some a x hplaced =>
      have hvalue := hplaced.value
      show Option.Rel _ (a.value.map _) x.value
      generalize a.value = v, x.value = r at hvalue ⊢
      cases hvalue with
      | none => exact .none
      | some hslice => exact .some (by rw [String.toList_ofList]; exact hslice)

/-! ## The end of the tag -/

section
variable {bs cs : List UInt8}

theorem tagText_append (hbs : TagText bs) (hcs : TagText cs) : TagText (bs ++ cs) := by
  induction hbs with
  | nil => exact hcs
  | byte hend hdouble hsingle _ ih => exact .byte hend hdouble hsingle ih
  | quoted hquote hinside _ ih =>
      rw [List.append_assoc, List.cons_append]
      exact .quoted hquote hinside ih

/-- Without quotes and `>` there is nothing to close. -/
theorem tagText_of_without {text : List Char} (h : Without ['\x22', '\x27', '>'] text) :
    TagText (encode text) := by
  have hbytes := avoids_encode (by decide) h
  have hbad : ['\x22', '\x27', '>'].map byte = [34, 39, 62] := by decide
  rw [hbad] at hbytes
  generalize encode text = bs at hbytes ⊢
  induction bs with
  | nil => exact .nil
  | cons b bs ih =>
      obtain ⟨hb, hbs⟩ := List.forall_mem_cons.mp hbytes
      simp only [List.mem_cons, List.not_mem_nil, or_false, not_or] at hb
      exact .byte hb.2.2 hb.1 hb.2.1 (ih hbs)

theorem tagText_value (v : Value) : TagText (encode v.written) := by
  have hquoted : ∀ {q : Char} {text : List Char}, q = '\x22' ∨ q = '\x27' → q ∉ text →
      TagText (encode (q :: text ++ [q])) := by
    intro q text hq hclosed
    rw [encode_quoted hq]
    exact .quoted (byte_quote hq) (mt (Text.byte_mem_encode (quote_ascii hq)).mp hclosed) .nil
  cases v with
  | double text closed => exact hquoted (.inl rfl) closed
  | single text closed => exact hquoted (.inr rfl) closed
  | bare text nonempty plain =>
      exact tagText_of_without fun c hc hbad => plain c hc (List.mem_append_right _ hbad)

theorem tagText_gap (a : Attribute) : TagText (encode a.gap) := by
  have hblank : Without ['\x22', '\x27', '>'] gaps := by decide
  exact tagText_of_without fun c hc => hblank c (a.gap_blank c hc)

theorem tagText_name (a : Attribute) : TagText (encode a.name) := by
  have hsub : Only (spaces ++ ['\x22', '\x27', '=', '/', '<', '>']) ['\x22', '\x27', '>'] := by
    decide
  exact tagText_of_without fun c hc hbad => a.name_plain c hc (hsub c hbad)

/-- An attribute closes its quotes if what follows its name does. -/
theorem tagText_named (a : Attribute) {behind : List Char} (h : TagText (encode behind)) :
    TagText (encode (a.gap ++ (a.name ++ behind))) := by
  rw [Text.encode_append, Text.encode_append]
  exact tagText_append (tagText_gap a) (tagText_append (tagText_name a) h)

theorem tagText_attribute (a : Attribute) : TagText (encode a.written) := by
  refine tagText_named a ?_
  unfold Attribute.writtenValue
  split
  · exact .nil
  · rw [Text.encode_cons_of_ascii (by decide)]
    exact .byte (by decide) (by decide) (by decide) (tagText_value _)

theorem tagText_flatMap {α : Type} {f : α → List Char} (hf : ∀ a, TagText (encode (f a)))
    (as : List α) : TagText (encode (as.flatMap f)) := by
  induction as with
  | nil => exact .nil
  | cons a as ih =>
      rw [List.flatMap_cons, Text.encode_append]
      exact tagText_append (hf a) ih

end

/-! ## The last character

A tag is self-closing if its last character is a slash.  No name has one, and behind a
value in quotes there is a quote. -/

section
variable {v : Value}

theorem getLast?_value (front : List Char) (h : v.quoted = true) :
    (front ++ v.written).getLast? ≠ some '/' := by
  have hlast : ∀ q text, (front ++ (q :: text ++ [q])).getLast? = some q := by
    intro q text
    rw [← List.append_assoc, List.getLast?_concat]
  cases v with
  | bare => cases h
  | double text => exact fun hslash => absurd ((hlast _ text).symm.trans hslash) (by decide)
  | single text => exact fun hslash => absurd ((hlast _ text).symm.trans hslash) (by decide)

/-- An attribute ends with its name or with its value. -/
theorem getLast?_named (a : Attribute) {behind : List Char}
    (h : behind = [] ∨ ∃ front v, Value.quoted v = true ∧ behind = front ++ v.written) :
    (a.gap ++ (a.name ++ behind)).getLast? ≠ some '/' := by
  rcases h with rfl | ⟨front, v, hquoted, rfl⟩
  · rw [List.append_nil, List.getLast?_append_of_ne_nil _ a.name_ne_nil]
    exact fun hlast => a.name_plain '/' (List.mem_of_getLast? hlast) (by decide)
  · rw [← List.append_assoc, ← List.append_assoc]
    exact getLast?_value _ hquoted

theorem getLast?_flatMap_ne {α : Type} {f : α → List Char} {c : Char} {as : List α}
    (hne : ∀ a, f a ≠ []) (h : ∀ a ∈ as, (f a).getLast? ≠ some c) :
    (as.flatMap f).getLast? ≠ some c := by
  rcases List.eq_nil_or_concat' as with rfl | ⟨front, a, rfl⟩
  · simp
  · rw [List.flatMap_append, List.flatMap_singleton, List.getLast?_append_of_ne_nil _ (hne a)]
    exact h a (List.mem_append_right front List.mem_cons_self)

theorem getLast?_attributeText {t : Tag} (h : t.Quoted) :
    t.attributeText.getLast? ≠ some '/' := by
  refine getLast?_flatMap_ne (fun a => ?_) fun a ha => getLast?_named a ?_
  · simp [Attribute.written, a.name_ne_nil]
  · have hquoted := h a ha
    rw [Attribute.writtenValue]
    cases hvalue : a.value with
    | none => exact .inl rfl
    | some v =>
        rw [hvalue] at hquoted
        exact .inr ⟨['='], v, hquoted, rfl⟩

end

end EmitLint.Sfc.Written
