/-
# JSON values

A value as a text says it: an object keeps its members in their order, also
those that share a name, and a number keeps its digits.  `Value.render` writes
a value without white space, and escapes in a string only what has to be.
-/

namespace EmitLint.Json

/-! ## Numbers -/

/-- Digits, of which there is at least one. -/
structure Digits where
  first : Fin 10
  rest : List (Fin 10)

/-- A whole part: a lone zero, or digits that do not start with one. -/
inductive Whole
  | zero
  /-- The first digit is one more than `before`. -/
  | positive (before : Fin 9) (rest : List (Fin 10))

/-- The power of ten behind a number. -/
structure Exponent where
  letter : Char
  sign : Option Char
  digits : Digits
  letter_mem : letter ∈ ['e', 'E'] := by decide
  sign_mem : ∀ c ∈ sign, c ∈ ['+', '-'] := by decide

/-- A number as it is written. -/
structure Numeral where
  negative : Bool
  whole : Whole
  fraction : Option Digits
  exponent : Option Exponent

/-- The character of a digit. -/
def digitChar (d : Fin 10) : Char := Nat.digitChar d

namespace Digits

def text (d : Digits) : List Char := digitChar d.first :: d.rest.map digitChar

end Digits

namespace Whole

def digits : Whole → Digits
  | zero => ⟨0, []⟩
  | positive before rest => ⟨before.succ, rest⟩

def text (w : Whole) : List Char := w.digits.text

end Whole

namespace Exponent

def text (e : Exponent) : List Char := e.letter :: (e.sign.toList ++ e.digits.text)

end Exponent

namespace Numeral

/-- The point and the digits behind it, if there are any. -/
def fractionText (n : Numeral) : List Char :=
  match n.fraction with
  | some digits => '.' :: digits.text
  | none => []

def exponentText (n : Numeral) : List Char :=
  match n.exponent with
  | some e => e.text
  | none => []

/-- The number behind its sign. -/
def unsignedText (n : Numeral) : List Char := n.whole.text ++ (n.fractionText ++ n.exponentText)

def text (n : Numeral) : List Char := if n.negative then '-' :: n.unsignedText else n.unsignedText

end Numeral

/-! ## Strings -/

/-- The letter behind a backslash that stands for a character. -/
def letterOf? : Char → Option Char
  | '"' => some '"'
  | '\\' => some '\\'
  | '\x08' => some 'b'
  | '\x0c' => some 'f'
  | '\n' => some 'n'
  | '\r' => some 'r'
  | '\t' => some 't'
  | _ => none

/-- A character between quotes. -/
def escape (c : Char) : List Char :=
  match letterOf? c with
  | some letter => ['\\', letter]
  | none =>
      if c < ' ' then
        ['\\', 'u', '0', '0', Nat.digitChar (c.toNat / 16), Nat.digitChar (c.toNat % 16)]
      else [c]

/-- A text in quotes. -/
def quoted (text : String) : List Char := '"' :: (text.toList.flatMap escape ++ ['"'])

/-! ## Values -/

/-- A JSON value. -/
inductive Value
  | null
  | bool (b : Bool)
  | number (n : Numeral)
  | string (text : String)
  | array (elements : List Value)
  | object (members : List (String × Value))

namespace Value

mutual

/-- The text of a value. -/
def render : Value → List Char
  | null => ['n', 'u', 'l', 'l']
  | bool true => ['t', 'r', 'u', 'e']
  | bool false => ['f', 'a', 'l', 's', 'e']
  | number n => n.text
  | string text => quoted text
  | array elements => '[' :: (renderElements elements ++ [']'])
  | object members => '{' :: (renderMembers members ++ ['}'])

/-- Elements between their brackets. -/
def renderElements : List Value → List Char
  | [] => []
  | [v] => v.render
  | v :: vs => v.render ++ ',' :: renderElements vs

/-- Members between their braces. -/
def renderMembers : List (String × Value) → List Char
  | [] => []
  | [(name, v)] => quoted name ++ ':' :: v.render
  | (name, v) :: ms => quoted name ++ ':' :: v.render ++ ',' :: renderMembers ms

end

end Value

end EmitLint.Json
