/-
# Strings and templates

How far a quoted text goes (`body?`, `piece?`) and what it says once its
escapes are replaced (`unescape`).

Escapes can name halves of surrogate pairs that no character stands for.
Such a half is written as U+FFFD and its four hexadecimal digits, and so
that it can be told from text, a U+FFFD beside it is written in the same
way, unless it stands behind the half and a backslash guards it
(`Quoted.text`).
-/
import EmitLint.Text.Digit
import EmitLint.Syntax.Place

namespace EmitLint.Syntax.Quoted

/-- The text up to a closing quote, and the text behind the quote; `none` when
the line ends first.  A backslash guards the character behind it. -/
def body? (quote : Char) (guarded : Bool) : List Char → Option (List Char × List Char)
  | [] => none
  | c :: cs =>
      if c = quote && !guarded then some ([], cs)
      else if (c = '\n' || c = '\r') && !guarded then none
      else
        let guards := (c = '\\' && !guarded) || (c = '\r' && guarded && cs.head? = some '\n')
        (body? quote guards cs).map fun b => (c :: b.1, b.2)

/-- The text of a template up to a substitution or up to its end. -/
structure Piece where
  raw : List Char
  /-- The text from the closing quote or from `${` on. -/
  rest : List Char
  isLast : Bool

/-- The text of a template up to `${` or the closing quote. -/
def piece? (guarded : Bool) : List Char → Option Piece
  | [] => none
  | c :: cs =>
      if !guarded && c = '`' then some ⟨[], c :: cs, true⟩
      else if !guarded && c = '$' && cs.head? = some '{' then some ⟨[], c :: cs, false⟩
      else (piece? (c = '\\' && !guarded) cs).map fun p => { p with raw := c :: p.raw }

/-! ## Escapes -/

/-- What stands in a text in quotes, once its escapes are replaced. -/
inductive Mark
  /-- A code point, or half of a surrogate pair. -/
  | point (n : Nat)
  /-- A character that a backslash stands in front of. -/
  | guarded (c : Char)

/-- What an escape stands for; one without a meaning is a `fault`. -/
structure Escape where
  marks : List Mark
  rest : List Char
  fault : Bool

/-- The escape of a number that may be missing. -/
def ofNumber : Option Nat × List Char → Escape
  | (some n, rest) => ⟨[.point n], rest, false⟩
  | (none, rest) => ⟨[], rest, true⟩

/-- The number in `count` hexadecimal digits and the text behind them; the
number is missing when they are fewer. -/
def hexNumber (count : Nat) (cs : List Char) : Option Nat × List Char :=
  let ds := (cs.take count).takeWhile Text.isHexDigit
  (if ds.length = count then some (Text.digitsValue 16 ds) else none, cs.drop ds.length)

def isLeading (n : Nat) : Bool := 0xD800 ≤ n && n < 0xDC00

def isTrailing (n : Nat) : Bool := 0xDC00 ≤ n && n < 0xE000

def isHalf (n : Nat) : Bool := 0xD800 ≤ n && n < 0xE000

/-- The code point of a surrogate pair. -/
def pair (leading trailing : Nat) : Nat :=
  0x10000 + (leading - 0xD800) * 0x400 + (trailing - 0xDC00)

/-- The number in hexadecimal digits up to a closing brace, and the text behind
it.  It is missing when something else stands there, or as soon as it is too
large for a code point; `sofar` is what the digits in front say. -/
def bracedNumber (sofar : Option Nat) : List Char → Option Nat × List Char
  | [] => (none, [])
  | c :: cs =>
      match Text.hexDigit? c with
      | some d =>
          let n := sofar.getD 0 * 16 + d
          if 0x10FFFF < n then (none, cs) else bracedNumber (some n) cs
      | none =>
          match sofar with
          | some n => if c = '\x7d' then (some n, cs) else (none, c :: cs)
          | none => (none, c :: cs)

/-- The number in four hexadecimal digits, or in eight that write a surrogate
pair with `\u` in the middle. -/
def pairedNumber (cs : List Char) : Option Nat × List Char :=
  match hexNumber 4 cs with
  | (some n, '\\' :: 'u' :: rest) =>
      if isLeading n then
        match hexNumber 4 rest with
        | (some m, after) =>
            if isTrailing m then (some (pair n m), after) else (some n, '\\' :: 'u' :: rest)
        | (none, after) => (none, after)
      else (some n, '\\' :: 'u' :: rest)
  | other => other

/-- The number behind `\u`. -/
def unicodeNumber : List Char → Option Nat × List Char
  | '\x7b' :: cs => bracedNumber none cs
  | cs => pairedNumber cs

/-- The digits of an old escape in base eight: at most three, and two after a
digit above three. -/
def octalDigits (c : Char) (cs : List Char) : List Char :=
  let isOctal := fun d => '0' ≤ d && d ≤ '7'
  c :: (cs.take (if c ≤ '3' then 2 else 1)).takeWhile isOctal

/-- What the escape behind a backslash stands for.  In a template, digits
make no escape but a zero by itself. -/
def escape (template : Bool) : List Char → Escape
  | [] => ⟨[], [], true⟩
  | 'b' :: cs => ⟨[.point 8], cs, false⟩
  | 't' :: cs => ⟨[.point 9], cs, false⟩
  | 'n' :: cs => ⟨[.point 10], cs, false⟩
  | 'v' :: cs => ⟨[.point 11], cs, false⟩
  | 'f' :: cs => ⟨[.point 12], cs, false⟩
  | 'r' :: cs => ⟨[.point 13], cs, false⟩
  | 'x' :: cs => ofNumber (hexNumber 2 cs)
  | 'u' :: cs => ofNumber (unicodeNumber cs)
  | '\r' :: '\n' :: cs => ⟨[], cs, false⟩
  | c :: cs =>
      if isLineEnd c then ⟨[], cs, false⟩
      else if c.isDigit then
        if template then
          if c = '0' && !(cs.head?.any Char.isDigit) then ⟨[.point 0], cs, false⟩
          else ⟨[], cs, true⟩
        else if c = '8' || c = '9' then ⟨[.guarded c], cs, false⟩
        else
          let ds := octalDigits c cs
          ⟨[.point (Text.digitsValue 8 ds)], cs.drop (ds.length - 1), false⟩
      else ⟨[.guarded c], cs, false⟩

/-- A text with its escapes replaced, and whether some escape has no meaning;
no more than `fuel` characters are read. -/
def unescapeWith (template : Bool) : Nat → List Char → List Mark × Bool
  | 0, _ | _, [] => ([], false)
  | fuel + 1, '\\' :: cs =>
      let e := escape template cs
      let (marks, fault) := unescapeWith template fuel e.rest
      (e.marks ++ marks, e.fault || fault)
  | fuel + 1, c :: cs =>
      let (marks, fault) := unescapeWith template fuel cs
      (.point c.toNat :: marks, fault)

/-- A text with its escapes replaced. -/
def unescape (template : Bool) (cs : List Char) : List Mark × Bool :=
  unescapeWith template cs.length cs

/-! ## Halves of surrogate pairs -/

/-- Four hexadecimal digits. -/
def hexText (n : Nat) : List Char :=
  let ds := Nat.toDigits 16 n
  List.replicate (4 - ds.length) '0' ++ ds

/-- A code point where halves of surrogate pairs are written out. -/
def pointText (n : Nat) : List Char :=
  if isHalf n || n = 0xFFFD then '\uFFFD' :: hexText n else [Char.ofNat n]

namespace Mark

/-- Half of a surrogate pair. -/
def isLone : Mark → Bool
  | point n => isHalf n
  | guarded _ => false

/-- The character of a mark that is no half of a pair. -/
def char : Mark → Char
  | point n => Char.ofNat n
  | guarded c => c

/-- A mark in front of the first half of a pair. -/
def before (m : Mark) : List Char := pointText m.char.toNat

/-- A mark from the first half of a pair on.  A backslash keeps a character as
it is. -/
def behind : Mark → List Char
  | point n => pointText n
  | guarded c => [c]

end Mark

/-- The text of what stands in quotes. -/
def text (marks : List Mark) : String :=
  match marks.span fun m => !m.isLone with
  | (all, []) => String.ofList (all.map Mark.char)
  | (front, rest) => String.ofList (front.flatMap Mark.before ++ rest.flatMap Mark.behind)

/-- The value of a string, from the text between its quotes, and whether some
escape has no meaning. -/
def stringValue (raw : List Char) : String × Bool :=
  let (marks, fault) := unescape false raw
  (text marks, fault)

/-- The line ends of a template are single line feeds. -/
def plainLines : List Char → List Char
  | '\r' :: '\n' :: cs => '\n' :: plainLines cs
  | '\r' :: cs => '\n' :: plainLines cs
  | c :: cs => c :: plainLines cs
  | [] => []

/-- The value of a piece of a template; `none` when some escape in it has no
meaning. -/
def templateValue? (raw : List Char) : Option String :=
  let (marks, fault) := unescape true (plainLines raw)
  if fault then none else some (text marks)

end EmitLint.Syntax.Quoted
