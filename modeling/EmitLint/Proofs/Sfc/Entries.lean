/-
# What an attribute text says

The attributes of a tag are found by offsets.  `entries` is what stands there, the names
and the values, in whatever text: it does not depend on what stands in front
(`entriesFrom_append`), so that a text can be read off one attribute after the other.  The
flag and the language of a script are those of its entries (`hasSetup_eq`, `language_eq`).
-/
import EmitLint.Proofs.Sfc.RoundTrip

namespace EmitLint.Sfc

open Text (byte byteLength encode IsAscii)
open Written (Spells)

/-- A name, and the value that stands with it, if any. -/
structure Entry where
  name : List Char
  value : Option (List Char)
deriving DecidableEq, Repr

namespace Entry

def named (word : String) (e : Entry) : Bool := decide (Spells word e.name)

/-- What stands where an attribute was found. -/
def ofAttribute (cs : List Char) (a : Attribute) : Entry :=
  ⟨piece cs a.name, a.value.map (piece cs)⟩

/-- Some entry is called `setup`. -/
def setup (entries : List Entry) : Bool := entries.any (·.named "setup")

/-- The value of the last entry that is called `lang`, if that one has a value. -/
def lang (entries : List Entry) : Option String :=
  match entries.reverse.find? (·.named "lang") with
  | some e => e.value.map String.ofList
  | none => none

end Entry

/-- What is read from the offset on. -/
def entriesFrom (cs : List Char) (i : Nat) : List Entry :=
  (attributesFrom (encode cs) i).map (Entry.ofAttribute cs)

/-- What an attribute text says. -/
def entries (cs : List Char) : List Entry := entriesFrom cs 0

/-! ## The flag and the language -/

section
variable {cs : List Char} {word : String}

theorem named_ofAttribute (hword : IsAscii word.toList) {a : Attribute}
    (ha : a ∈ attributes (encode cs)) :
    (Entry.ofAttribute cs a).named word = a.named (encode cs) word := by
  have hname := (isPiece_of_mem_attributes cs a ha).1.encode_piece
  rw [Attribute.named, ← hname, Entry.named, Bool.eq_iff_iff, beq_iff_eq, decide_eq_true_iff,
    Written.map_lower_eq_ascii_iff hword]
  rfl

theorem hasSetup_eq (cs : List Char) : hasSetup (encode cs) = Entry.setup (entries cs) := by
  rw [hasSetup, Entry.setup, entries, entriesFrom, List.any_map, Bool.eq_iff_iff,
    List.any_eq_true, List.any_eq_true]
  refine exists_congr fun a => and_congr_right fun ha => ?_
  rw [Function.comp_apply, named_ofAttribute (by decide) ha]

theorem find?_named (hword : IsAscii word.toList) :
    (entries cs).reverse.find? (·.named word) =
      ((attributes (encode cs)).reverse.find? (Attribute.named (encode cs) word)).map
        (Entry.ofAttribute cs) := by
  have hsame : ∀ as : List Attribute, (∀ a ∈ as, a ∈ attributes (encode cs)) →
      (as.map (Entry.ofAttribute cs)).find? (·.named word) =
        (as.find? (Attribute.named (encode cs) word)).map (Entry.ofAttribute cs) := by
    intro as has
    induction as with
    | nil => rfl
    | cons a as ih =>
        obtain ⟨ha, has⟩ := List.forall_mem_cons.mp has
        rw [List.map_cons, List.find?_cons, List.find?_cons, named_ofAttribute hword ha, ih has]
        cases Attribute.named (encode cs) word a <;> rfl
  rw [entries, entriesFrom, ← List.map_reverse]
  exact hsame _ fun a ha => List.mem_reverse.mp ha

theorem language_eq (cs : List Char) : Written.langOf cs = Entry.lang (entries cs) := by
  rw [Written.langOf, Entry.lang, find?_named (by decide), langRange]
  cases (attributes (encode cs)).reverse.find? (Attribute.named (encode cs) "lang") with
  | none => rfl
  | some a =>
      show a.value.map _ = (a.value.map _).map _
      rw [Option.map_map]
      rfl

end

/-! ## Reading in another place -/

namespace Attribute

/-- The attribute in a text with `n` more bytes in front. -/
def shift (a : Attribute) (n : Nat) : Attribute := ⟨a.name.shift n, a.value.map (·.shift n)⟩

end Attribute

theorem drop_append_add (us bs : List UInt8) (i : Nat) :
    (us ++ bs).drop (i + us.length) = bs.drop i := by
  rw [Nat.add_comm, List.drop_length_add_append]

theorem getElem?_append_add (us bs : List UInt8) (i : Nat) :
    (us ++ bs)[i + us.length]? = bs[i]? := by
  rw [List.getElem?_append_right (Nat.le_add_left _ _), Nat.add_sub_cancel]

theorem nextName?_shift (us bs : List UInt8) (i : Nat) :
    nextName? (us ++ bs) (i + us.length) = (nextName? bs i).map (·.shift us.length) := by
  unfold nextName?
  dsimp only
  rw [drop_append_add, Nat.add_right_comm i, drop_append_add,
    Nat.add_right_comm (i + runLength isGap (bs.drop i))]
  simp only [Nat.add_lt_add_iff_right]
  split <;> rfl

theorem readValue_shift (us bs : List UInt8) (i : Nat) :
    readValue (us ++ bs) (i + us.length) =
      ((readValue bs i).1.shift us.length, (readValue bs i).2 + us.length) := by
  have hplace : ∀ n, i + us.length + n = i + n + us.length := fun n => Nat.add_right_comm i _ n
  rw [readValue, readValue, drop_append_add]
  split
  · rfl
  · dsimp only
    split
    · rw [hplace 1, Nat.add_right_comm (i + 1), Nat.add_right_comm (i + 1 + _)]
      rfl
    · rw [hplace]
      rfl

theorem attributesFrom_shift (us bs : List UInt8) (i : Nat) :
    attributesFrom (us ++ bs) (i + us.length) =
      (attributesFrom bs i).map (·.shift us.length) := by
  have hsome : ∀ {i name}, nextName? bs i = some name →
      nextName? (us ++ bs) (i + us.length) = some (name.shift us.length) := by
    intro i name hname
    rw [nextName?_shift, hname]
    rfl
  have hstop : ∀ name : Range, (us ++ bs)[(name.shift us.length).stop]? = bs[name.stop]? :=
    fun name => getElem?_append_add us bs name.stop
  fun_induction attributesFrom bs i with
  | case1 i hnone =>
      rw [attributesFrom_of_none (by rw [nextName?_shift, hnone]; rfl)]
      rfl
  | case2 i name hname hequals value ih =>
      have hbehind : (name.shift us.length).stop + 1 = name.stop + 1 + us.length :=
        Nat.add_right_comm _ _ _
      rw [attributesFrom_of_some (hsome hname), if_pos ((hstop name).trans hequals), hbehind,
        readValue_shift, ih]
      rfl
  | case3 i name hname hequals ih =>
      rw [attributesFrom_of_some (hsome hname), if_neg (by rw [hstop]; exact hequals)]
      exact congrArg _ ih

theorem piece_shift (u cs : List Char) (r : Range) :
    piece (u ++ cs) (r.shift (byteLength u)) = piece cs r := by
  have hlength : byteLength u = byteLength [] + byteLength u := (Nat.zero_add _).symm
  have hslice : Text.slice? (u ++ cs) (r.start + byteLength u) (r.stop + byteLength u) =
      Text.slice? ([] ++ cs) r.start r.stop :=
    Text.slice?_append_right cs (Nat.zero_le _) hlength
  rw [piece, Span.shift, hslice]
  rfl

/-- What is read does not depend on what stands in front. -/
theorem entriesFrom_append (u cs : List Char) (i : Nat) :
    entriesFrom (u ++ cs) (i + byteLength u) = entriesFrom cs i := by
  have hread := attributesFrom_shift (encode u) (encode cs) i
  rw [← Text.encode_append, Text.length_encode] at hread
  rw [entriesFrom, hread, entriesFrom, List.map_map]
  refine List.map_congr_left fun a _ => ?_
  rw [Function.comp_apply, Entry.ofAttribute, Entry.ofAttribute, Attribute.shift, piece_shift,
    Option.map_map]
  congr 2
  exact funext fun r => piece_shift u cs r

theorem entriesFrom_byteLength (u cs : List Char) :
    entriesFrom (u ++ cs) (byteLength u) = entries cs := by
  have hread := entriesFrom_append u cs 0
  rwa [Nat.zero_add] at hread

/-! ## One attribute after the other -/

section
variable {gap rest : List Char}

theorem entries_nil : entries [] = [] := by
  rw [entries, entriesFrom, attributesFrom_of_length_le (Nat.le_refl 0)]
  rfl

/-- What may stand between attributes says nothing. -/
theorem entries_gap (hgap : ∀ b ∈ encode gap, isGap b = true) (rest : List Char) :
    entries (gap ++ rest) = entries rest := by
  have hrun : ∀ bs : List UInt8, runLength isGap (encode gap ++ bs) =
      (encode gap).length + runLength isGap bs := by
    intro bs
    generalize encode gap = us at hgap
    induction us with
    | nil => simp
    | cons b us ih =>
        obtain ⟨hb, hus⟩ := List.forall_mem_cons.mp hgap
        rw [List.cons_append, runLength, if_pos hb, ih hus, List.length_cons]
        omega
  have hnext : nextName? (encode gap ++ encode rest) 0 =
      nextName? (encode gap ++ encode rest) (byteLength gap) := by
    have hdrop : (encode gap ++ encode rest).drop (byteLength gap) = encode rest := by
      rw [← Text.length_encode, List.drop_left]
    rw [nextName?, nextName?, hdrop, List.drop_zero, hrun, Nat.zero_add, Text.length_encode]
  have hsame : attributesFrom (encode (gap ++ rest)) 0 =
      attributesFrom (encode (gap ++ rest)) (byteLength gap) := by
    rw [Text.encode_append]
    cases hname : nextName? (encode gap ++ encode rest) 0 with
    | none =>
        rw [attributesFrom_of_none hname, attributesFrom_of_none (hnext.symm.trans hname)]
    | some name =>
        rw [attributesFrom_of_some hname, attributesFrom_of_some (hnext.symm.trans hname)]
  rw [entries, entriesFrom, hsame]
  exact entriesFrom_byteLength gap rest

theorem entries_equals (rest : List Char) : entries ('=' :: rest) = [] := by
  have hencode : encode ('=' :: rest) = 61 :: encode rest := Text.encode_cons_of_ascii (by decide) _
  have hnone : nextName? (61 :: encode rest) 0 = none := rfl
  rw [entries, entriesFrom, hencode, attributesFrom_of_none hnone]
  rfl

theorem ofAttribute_of_placed {text : List Char} {a : Written.Attribute} {x : Attribute}
    (h : Written.Placed text a x) :
    Entry.ofAttribute text x = ⟨a.name, a.value.map (·.text)⟩ := by
  have hname : piece text x.name = a.name := by rw [piece, h.name, Option.getD_some]
  have hvalue : x.value.map (piece text) = a.value.map (·.text) := by
    have hrel := h.value
    generalize a.value = v, x.value = r at hrel ⊢
    cases hrel with
    | none => rfl
    | some hslice => rw [Option.map_some, Option.map_some, piece, hslice, Option.getD_some]
  rw [Entry.ofAttribute, hname, hvalue]

/-- An attribute is read as it was written. -/
theorem entries_written (a : Written.Attribute)
    (hrest : ∀ b ∈ (encode rest).head?, isBlank b = true) :
    entries (a.written ++ rest) = ⟨a.name, a.value.map (·.text)⟩ :: entries rest := by
  obtain ⟨x, hplaced, hread⟩ := Written.attributesFrom_written [] a hrest
  rw [List.nil_append] at hplaced hread
  have hbehind := entriesFrom_byteLength a.written rest
  rw [entriesFrom] at hbehind
  rw [entries, entriesFrom, ← Text.byteLength_nil, hread, List.map_cons, hbehind,
    ofAttribute_of_placed hplaced]

/-- What follows a name and a blank is not its value. -/
theorem entries_name (a : Written.Attribute)
    (hrest : ∀ b ∈ (encode rest).head?, isBlank b = true) :
    entries (a.gap ++ (a.name ++ rest)) = ⟨a.name, none⟩ :: entries rest := by
  have hread := entries_written { a with value := none } hrest
  simpa [Written.Attribute.written, Written.Attribute.writtenValue] using hread

/-- Behind a name and an `=` stands whatever is read there as a value. -/
theorem entries_value (a : Written.Attribute) {r : Range} {i : Nat}
    (hvalue : readValue (encode rest) 0 = (r, i)) :
    entries (a.gap ++ (a.name ++ '=' :: rest)) =
      ⟨a.name, some (piece rest r)⟩ :: entriesFrom rest i := by
  have htext : a.gap ++ (a.name ++ '=' :: rest) = a.gap ++ a.name ++ ['='] ++ rest := by simp
  have hplace : byteLength (a.gap ++ a.name ++ ['=']) = byteLength (a.gap ++ a.name) + 1 :=
    Text.byteLength_append _ _
  have hequals : encode ('=' :: rest) = 61 :: encode rest := Text.encode_cons_of_ascii (by decide) _
  have hnext : nextName? (encode (a.gap ++ a.name ++ ['='] ++ rest)) 0 =
      some ⟨byteLength a.gap, byteLength (a.gap ++ a.name)⟩ := by
    have hafter : ∀ b ∈ (encode ('=' :: rest)).head?, isNameByte b = false := by
      rw [hequals]
      rintro b ⟨⟩
      decide
    have hwritten := Written.nextName?_written a [] hafter
    rwa [List.nil_append, List.append_assoc, htext] at hwritten
  have hbyte : (encode (a.gap ++ a.name ++ ['='] ++ rest))[byteLength (a.gap ++ a.name)]? =
      some 61 := by
    rw [List.append_assoc _ ['=']]
    exact (Text.getElem?_encode _ _).trans (congrArg List.head? hequals)
  have hread := readValue_shift (encode (a.gap ++ a.name ++ ['='])) (encode rest) 0
  rw [hvalue, ← Text.encode_append, Text.length_encode, Nat.zero_add] at hread
  have hname : piece (a.gap ++ a.name ++ ['='] ++ rest)
      ⟨byteLength a.gap, byteLength (a.gap ++ a.name)⟩ = a.name := by
    have hslice := Text.slice?_append a.gap a.name (['='] ++ rest)
    rw [← Text.byteLength_append, ← List.append_assoc] at hslice
    rw [piece, hslice, Option.getD_some]
  have hbehind := entriesFrom_append (a.gap ++ a.name ++ ['=']) rest i
  rw [entriesFrom] at hbehind
  rw [htext, entries, entriesFrom, attributesFrom_of_some hnext, if_pos hbyte, ← hplace, hread,
    List.map_cons, hbehind, Entry.ofAttribute, hname, Option.map_some, piece_shift]

/-- If a blank follows the `=`, the value is empty, and its text is read as what comes next. -/
theorem entries_blank (a : Written.Attribute) (hne : rest ≠ [])
    (hrest : ∀ b ∈ (encode rest).head?, isBlank b = true) :
    entries (a.gap ++ (a.name ++ '=' :: rest)) = ⟨a.name, some []⟩ :: entries rest := by
  have hvalue : readValue (encode rest) 0 = (⟨0, 0⟩, 0) := by
    obtain ⟨b, bs, hb⟩ := List.exists_cons_of_ne_nil (Text.encode_ne_nil hne)
    rw [hb] at hrest ⊢
    have hblank : isBlank b = true := hrest b rfl
    have hquote : ∀ c, (b :: bs)[0]? = some c → ¬ (c = 34 ∨ c = 39) := by
      rintro c ⟨⟩ (rfl | rfl) <;> exact absurd hblank (by decide)
    rw [readValue_of_not_quote hquote]
    simp [runLength, hblank]
  have hempty : piece rest ⟨0, 0⟩ = [] := by
    have hslice := Text.slice?_append [] [] rest
    rw [List.nil_append, List.nil_append] at hslice
    rw [piece]
    exact congrArg (Option.getD · []) hslice
  rw [entries_value a hvalue, hempty]
  rfl

end

end EmitLint.Sfc
