/-
# Byte offsets into text

Every position in this library is a byte offset into the UTF-8 form of a
text.  Text itself is handled as a list of characters, so an offset names a
place between two characters or falls inside one; `splitAt?` tells which.

Main statements: `append_of_splitAt?` (a split loses nothing and its first
half has the asked length) and `splitAt?_append` (every place between two
characters is found).
-/

namespace EmitLint.Text

/-- Number of bytes of a text in UTF-8. -/
def byteLength : List Char → Nat
  | [] => 0
  | c :: cs => c.utf8Size + byteLength cs

/-- The text before and after a byte offset; `none` when the offset lies
beyond the end or inside a character. -/
def splitAt? : List Char → Nat → Option (List Char × List Char)
  | cs, 0 => some ([], cs)
  | [], _ + 1 => none
  | c :: cs, n + 1 =>
      if c.utf8Size ≤ n + 1 then
        (splitAt? cs (n + 1 - c.utf8Size)).map fun halves => (c :: halves.1, halves.2)
      else none

/-- The text between two byte offsets; `none` unless both are places
between characters and the first is not behind the second. -/
def slice? (cs : List Char) (start stop : Nat) : Option (List Char) :=
  if start ≤ stop then do
    let (_, after) ← splitAt? cs start
    let (inside, _) ← splitAt? after (stop - start)
    return inside
  else none

/-- The text between two byte offsets, empty when there is none. -/
def slice (text : String) (start stop : Nat) : String :=
  String.ofList ((slice? text.toList start stop).getD [])

/-- The UTF-8 bytes of a text. -/
def bytes (text : String) : List UInt8 :=
  text.toList.flatMap String.utf8EncodeChar

/-! ## Lengths and splits -/

@[simp] theorem byteLength_nil : byteLength [] = 0 := rfl

@[simp] theorem byteLength_cons (c : Char) (cs : List Char) :
    byteLength (c :: cs) = c.utf8Size + byteLength cs := rfl

@[simp] theorem byteLength_append (as bs : List Char) :
    byteLength (as ++ bs) = byteLength as + byteLength bs := by
  induction as with
  | nil => simp
  | cons a as ih => simp [ih, Nat.add_assoc]

@[simp] theorem splitAt?_zero (cs : List Char) : splitAt? cs 0 = some ([], cs) := by
  cases cs <;> rfl

theorem append_of_splitAt? {cs before after : List Char} {n : Nat}
    (h : splitAt? cs n = some (before, after)) :
    before ++ after = cs ∧ byteLength before = n := by
  induction cs generalizing n before with
  | nil =>
    cases n with
    | zero => simp_all [splitAt?]
    | succ n => simp [splitAt?] at h
  | cons c cs ih =>
    cases n with
    | zero => simp_all
    | succ n =>
      rw [splitAt?] at h
      split at h
      · rename_i hc
        obtain ⟨⟨b, a⟩, hb, heq⟩ := Option.map_eq_some_iff.1 h
        obtain ⟨rfl, rfl⟩ : c :: b = before ∧ a = after := by simpa using heq
        obtain ⟨rfl, hlen⟩ := ih hb
        simp [hlen]
        omega
      · simp at h

theorem splitAt?_append (before after : List Char) :
    splitAt? (before ++ after) (byteLength before) = some (before, after) := by
  induction before with
  | nil => simp
  | cons c cs ih =>
    have hc : 0 < c.utf8Size := c.utf8Size_pos
    obtain ⟨n, hn⟩ : ∃ n, byteLength (c :: cs) = n + 1 :=
      ⟨byteLength (c :: cs) - 1, by simp; omega⟩
    have hrest : n + 1 - c.utf8Size = byteLength cs := by simp at hn; omega
    have hle : c.utf8Size ≤ n + 1 := by simp at hn; omega
    rw [hn, List.cons_append, splitAt?, if_pos hle, hrest, ih]
    rfl

theorem slice?_append (before inside after : List Char) :
    slice? (before ++ inside ++ after) (byteLength before)
      (byteLength before + byteLength inside) = some inside := by
  simp [slice?, splitAt?_append, List.append_assoc]

end EmitLint.Text
