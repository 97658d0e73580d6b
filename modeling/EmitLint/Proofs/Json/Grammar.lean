/-
# The texts of a JSON value

`Writing v cs` says that the characters are a text of the value: white space
stands where it may, each character of a string stands for itself or is
escaped in one of the ways there are, and the parts of an array or an object
come in order with commas between them.  It is the grammar of the format, put
down without a look at the reader.

Main statement: `writing_render`, every value has a text, and the one that
`Value.render` gives is among them.
-/
import EmitLint.Json.Value

namespace EmitLint.Json

/-- White space between the parts of a text. -/
def IsBlanks (cs : List Char) : Prop := ∀ c ∈ cs, c ∈ [' ', '\t', '\n', '\r']

instance (cs : List Char) : Decidable (IsBlanks cs) :=
  List.decidableBAll (· ∈ [' ', '\t', '\n', '\r']) cs

theorem isBlanks_nil : IsBlanks [] := fun _ h => absurd h List.not_mem_nil

/-! ## Strings -/

/-- The hexadecimal digit, of either letter case, for a number. -/
def IsHex (n : Fin 16) (c : Char) : Prop :=
  c = Nat.digitChar n ∨ c = (Nat.digitChar n).toUpper

/-- The four digits of a code unit. -/
inductive UnitText : Nat → List Char → Prop
  | mk {n : Nat} {a b c d : Fin 16} {w x y z : Char} (ha : IsHex a w) (hb : IsHex b x)
      (hc : IsHex c y) (hd : IsHex d z) (value : n = ((a * 16 + b) * 16 + c) * 16 + d) :
      UnitText n [w, x, y, z]

/-- The letters behind a backslash, with what they stand for. -/
def letters : List (Char × Char) :=
  [('"', '"'), ('\\', '\\'), ('/', '/'), ('b', '\x08'), ('f', '\x0c'), ('n', '\n'), ('r', '\r'),
    ('t', '\t')]

/-- The ways to write a character between quotes. -/
inductive Spelling : Char → List Char → Prop
  | plain {c : Char} (visible : ' ' ≤ c) (quote : c ≠ '"') (backslash : c ≠ '\\') : Spelling c [c]
  | letter {c d : Char} (h : (d, c) ∈ letters) : Spelling c ['\\', d]
  | unit {c : Char} {digits : List Char} (h : UnitText c.toNat digits) :
      Spelling c ('\\' :: 'u' :: digits)
  /-- A character beyond the first plane, as two halves. -/
  | pair {c : Char} {high low : Nat} {front back : List Char}
      (leading : 0xD800 ≤ high ∧ high < 0xDC00) (trailing : 0xDC00 ≤ low ∧ low < 0xE000)
      (sum : c.toNat = 0x10000 + (high - 0xD800) * 0x400 + (low - 0xDC00))
      (hfront : UnitText high front) (hback : UnitText low back) :
      Spelling c ('\\' :: 'u' :: (front ++ '\\' :: 'u' :: back))

/-- The ways to write a text between quotes. -/
inductive Spells : List Char → List Char → Prop
  | nil : Spells [] []
  | cons {c : Char} {cs word words : List Char} (first : Spelling c word) (rest : Spells cs words) :
      Spells (c :: cs) (word ++ words)

/-! ## Values -/

/-- Items with commas between them and white space around each. -/
inductive Listing {α : Type} (P : α → List Char → Prop) : List α → List Char → Prop
  | none {blanks : List Char} (h : IsBlanks blanks) : Listing P [] blanks
  | last {a : α} {front text back : List Char} (hfront : IsBlanks front) (h : P a text)
      (hback : IsBlanks back) : Listing P [a] (front ++ (text ++ back))
  | more {a b : α} {as : List α} {front text back rest : List Char} (hfront : IsBlanks front)
      (h : P a text) (hback : IsBlanks back) (hrest : Listing P (b :: as) rest) :
      Listing P (a :: b :: as) (front ++ (text ++ (back ++ ',' :: rest)))

/-- A member of an object. -/
inductive MemberText (P : Value → List Char → Prop) : String × Value → List Char → Prop
  | mk {name : String} {v : Value} {word front back text : List Char}
      (hname : Spells name.toList word) (hfront : IsBlanks front) (hback : IsBlanks back)
      (h : P v text) :
      MemberText P (name, v) ('"' :: (word ++ '"' :: (front ++ ':' :: (back ++ text))))

/-- The ways to write a value. -/
inductive Writing : Value → List Char → Prop
  | null : Writing .null ['n', 'u', 'l', 'l']
  | true : Writing (.bool true) ['t', 'r', 'u', 'e']
  | false : Writing (.bool false) ['f', 'a', 'l', 's', 'e']
  | number (n : Numeral) : Writing (.number n) n.text
  | string {text : String} {word : List Char} (h : Spells text.toList word) :
      Writing (.string text) ('"' :: (word ++ ['"']))
  | array {vs : List Value} {cs : List Char} (h : Listing Writing vs cs) :
      Writing (.array vs) ('[' :: (cs ++ [']']))
  | object {ms : List (String × Value)} {cs : List Char}
      (h : Listing (MemberText Writing) ms cs) : Writing (.object ms) ('{' :: (cs ++ ['}']))

/-- The text is a writing of the value, possibly with white space around it. -/
def Document (v : Value) (text : String) : Prop :=
  ∃ front body back, IsBlanks front ∧ Writing v body ∧ IsBlanks back ∧
    text.toList = front ++ (body ++ back)

/-! ## The text without white space -/

section

variable {α : Type} {P : α → List Char → Prop} {a b : α} {as : List α} {text rest : List Char}

theorem Listing.last_bare (h : P a text) : Listing P [a] text := by
  simpa using Listing.last isBlanks_nil h isBlanks_nil

theorem Listing.more_bare (h : P a text) (hrest : Listing P (b :: as) rest) :
    Listing P (a :: b :: as) (text ++ ',' :: rest) := by
  simpa using Listing.more isBlanks_nil h isBlanks_nil hrest

end

theorem MemberText.bare {P : Value → List Char → Prop} {name : String} {v : Value}
    {word text : List Char} (hname : Spells name.toList word) (h : P v text) :
    MemberText P (name, v) ('"' :: (word ++ ['"']) ++ ':' :: text) := by
  simpa using MemberText.mk hname isBlanks_nil isBlanks_nil h

theorem letterOf?_mem {c letter : Char} (h : letterOf? c = some letter) :
    (letter, c) ∈ letters := by
  unfold letterOf? at h
  split at h <;> first | cases h; decide | cases h

/-- A control character is below the thirty-third code point. -/
theorem toNat_lt_of_lt_space {c : Char} (h : c < ' ') : c.toNat < 32 := h

theorem spelling_escape (c : Char) : Spelling c (escape c) := by
  unfold escape
  split
  · rename_i letter hletter
    exact .letter (letterOf?_mem hletter)
  · rename_i hletter
    split
    · rename_i hcontrol
      have hc := toNat_lt_of_lt_space hcontrol
      exact .unit (.mk (a := 0) (b := 0) (c := ⟨c.toNat / 16, by omega⟩)
        (d := ⟨c.toNat % 16, by omega⟩) (.inl rfl) (.inl rfl) (.inl rfl) (.inl rfl)
        (by simp only [Fin.val_zero]; omega))
    · rename_i hvisible
      refine .plain (Char.not_lt.mp hvisible) ?_ ?_ <;>
        rintro rfl <;> exact absurd hletter (by decide)

theorem spells_escape : ∀ cs : List Char, Spells cs (cs.flatMap escape)
  | [] => .nil
  | c :: cs => .cons (spelling_escape c) (spells_escape cs)

mutual

theorem writing_render : ∀ v : Value, Writing v v.render
  | .null => .null
  | .bool true => .true
  | .bool false => .false
  | .number n => .number n
  | .string text => .string (spells_escape text.toList)
  | .array elements => .array (listing_renderElements elements)
  | .object members => .object (listing_renderMembers members)

theorem listing_renderElements : ∀ vs : List Value, Listing Writing vs (Value.renderElements vs)
  | [] => .none isBlanks_nil
  | [v] => .last_bare (writing_render v)
  | v :: w :: vs => .more_bare (writing_render v) (listing_renderElements (w :: vs))

theorem listing_renderMembers :
    ∀ ms : List (String × Value), Listing (MemberText Writing) ms (Value.renderMembers ms)
  | [] => .none isBlanks_nil
  | [(name, v)] => .last_bare (.bare (spells_escape name.toList) (writing_render v))
  | (name, v) :: m :: ms =>
      .more_bare (.bare (spells_escape name.toList) (writing_render v))
        (listing_renderMembers (m :: ms))

end

theorem document_render (v : Value) : Document v (String.ofList v.render) := by
  refine ⟨[], v.render, [], isBlanks_nil, writing_render v, isBlanks_nil, ?_⟩
  rw [String.toList_ofList, List.append_nil, List.nil_append]

end EmitLint.Json
