/-
# Numbers in scripts

Decimal numbers with fraction and exponent, numbers in base sixteen, eight
and two, the old way to write base eight with a zero in front, and big
integers, which end in `n`.  Underscores stand between two digits.  In a
decimal number one may also end a run of digits, which is a `fault` but does
not spoil the number.

Behind most numbers no letter and no digit may follow (`finish`); only an
exponent right behind a leading zero, or behind digits of the old way, ends
where it ends.

The text of a number is the decimal text of its value as a double.  A number
in another base than ten that is written with more characters than a word
has digits is rounded after every digit, as if it were read digit by digit.
-/
import EmitLint.Decimal.Shortest
import EmitLint.Syntax.Letter
import EmitLint.Text.Digit

namespace EmitLint.Syntax

/-- What a number says. -/
inductive NumeralValue
  | decimal (text : String)
  | big
  /-- The exponent lacks its digits. -/
  | unfinished

/-- A number at the front of a text. -/
structure Numeral where
  value : NumeralValue
  /-- The characters that write it. -/
  written : List Char
  rest : List Char
  fault : Bool

namespace Numeral

/-- A digit of a base up to ten, or of base sixteen. -/
def isDigitOf (base : Nat) (c : Char) : Bool :=
  match Text.hexDigit? c with
  | some d => d < base
  | none => false

/-- Digits without the underscores. -/
def plain (cs : List Char) : List Char := cs.filter (· ≠ '_')

/-! ## Values -/

/-- A number of at most sixty-four bits rounded to a double. -/
def roundNat (n : Nat) : Nat :=
  match Decimal.Binary64.ofRatio n 1 with
  | some b => if 0 ≤ b.exponent then b.mantissa * Nat.pow 2 b.exponent.toNat else n
  | none => n

/-- How many digits of a base fit in a word. -/
def wordDigits (base : Nat) : Nat :=
  if base = 16 then 16 else if base = 8 then 21 else 64

/-- The value of digits, perhaps with underscores, in base sixteen, eight or
two. -/
def basedValue (base : Nat) (written : List Char) : Nat :=
  let ds := plain written
  if written.length ≤ wordDigits base then Text.digitsValue base ds
  else ds.foldl (fun n c => roundNat (n * base + (Text.hexDigit? c).getD 0)) 0

/-- The value of a whole number. -/
def whole (n : Nat) : NumeralValue := .decimal (Decimal.doubleText n 0)

/-- The value of digits in front of a point and behind it, with an exponent. -/
def scaled (front fraction : List Char) (power : Int) : NumeralValue :=
  .decimal (Decimal.doubleText (Text.digitsValue 10 (plain front ++ plain fraction))
    (power - (plain fraction).length))

/-! ## Runs of digits -/

/-- The end of a number that no letter and no digit may follow. -/
def finish (n : Numeral) : Option Numeral :=
  match n.rest with
  | c :: _ => if c.isDigit || isIdentifierStart c then none else some n
  | [] => some n

/-- Digits at the front of a text. -/
structure DigitRun where
  written : List Char
  rest : List Char
  /-- The run ends in an underscore. -/
  fault : Bool

/-- The digits of a base at the front of a text, with single underscores
between them and perhaps one behind them.  The flag tells whether an
underscore stands in front. -/
def digitRun (base : Nat) (underscore : Bool) : List Char → DigitRun
  | [] => ⟨[], [], underscore⟩
  | c :: cs =>
      if isDigitOf base c then
        let r := digitRun base false cs
        { r with written := c :: r.written }
      else if c = '_' && !underscore then
        let r := digitRun base true cs
        { r with written := c :: r.written }
      else ⟨[], c :: cs, underscore⟩

/-- The digits at the front of a text; no underscore can stand first. -/
def digits (base : Nat) (cs : List Char) : DigitRun :=
  if cs.head?.any (isDigitOf base) then digitRun base false cs else ⟨[], cs, false⟩

/-! ## Numbers -/

/-- A number in a base other than ten, behind the two characters that name
the base. -/
def based (base : Nat) (front cs : List Char) : Option Numeral :=
  let ds := digits base cs
  if ds.written.isEmpty || ds.fault then none
  else
    match ds.rest with
    | 'n' :: rest => finish ⟨.big, front ++ ds.written ++ ['n'], rest, false⟩
    | rest => finish ⟨whole (basedValue base ds.written), front ++ ds.written, rest, false⟩

/-- The number with the exponent behind an `e`, if there are digits in it. -/
def exponent (written front fraction : List Char) (e : Char) (cs : List Char) (fault : Bool) :
    Numeral :=
  let (sign, cs) := match cs with
    | '+' :: rest => (['+'], rest)
    | '-' :: rest => (['-'], rest)
    | _ => ([], cs)
  let power := digits 10 cs
  let written := written ++ e :: sign ++ power.written
  if power.written.isEmpty then ⟨.unfinished, written, power.rest, true⟩
  else
    let p : Int := Text.digitsValue 10 (plain power.written)
    let p := if sign = ['-'] then -p else p
    ⟨scaled front fraction p, written, power.rest, fault || power.fault⟩

/-- A decimal number behind its whole part and its fraction. -/
def withExponent (written front fraction cs : List Char) (fault : Bool) : Option Numeral :=
  match cs with
  | c :: rest =>
      if c = 'e' || c = 'E' then finish (exponent written front fraction c rest fault)
      else finish ⟨scaled front fraction 0, written, cs, fault⟩
  | [] => some ⟨scaled front fraction 0, written, [], fault⟩

/-- A decimal number behind its point. -/
def afterPoint (front cs : List Char) (fault : Bool) : Option Numeral :=
  let ds := digits 10 cs
  withExponent (front ++ '.' :: ds.written) front ds.written ds.rest (fault || ds.fault)

/-- A number that starts with a digit other than zero. -/
def ordinary (cs : List Char) : Option Numeral :=
  let ds := digits 10 cs
  match ds.rest with
  | '.' :: rest => afterPoint ds.written rest ds.fault
  | 'n' :: rest => finish ⟨.big, ds.written ++ ['n'], rest, ds.fault⟩
  | rest => withExponent ds.written ds.written [] rest ds.fault

/-- A number with a superfluous zero in front: in base eight, unless some
digit is too large for that. -/
def afterZeros (cs : List Char) : Option Numeral :=
  let (ds, rest) := cs.span Char.isDigit
  if ds.all (isDigitOf 8) then finish ⟨whole (basedValue 8 (ds.drop 1)), ds, rest, false⟩
  else
    match rest with
    | '.' :: rest => afterPoint ds rest false
    | 'e' :: rest => some (exponent ds ds [] 'e' rest false)
    | _ => finish ⟨whole (Text.digitsValue 10 ds), ds, rest, false⟩

/-- A number that starts with a zero, behind the zero. -/
def afterZero (cs : List Char) : Option Numeral :=
  match cs with
  | '.' :: rest => afterPoint ['0'] rest false
  | 'n' :: rest => finish ⟨.big, ['0', 'n'], rest, false⟩
  | c :: rest =>
      if c = 'x' || c = 'X' then based 16 ['0', c] rest
      else if c = 'o' || c = 'O' then based 8 ['0', c] rest
      else if c = 'b' || c = 'B' then based 2 ['0', c] rest
      else if c = 'e' || c = 'E' then some (exponent ['0'] ['0'] [] c rest false)
      else if c.isDigit then afterZeros ('0' :: cs)
      else finish ⟨whole 0, ['0'], cs, false⟩
  | [] => some ⟨whole 0, ['0'], [], false⟩

/-- The number at the front of a text that starts with a digit, or with a
point before a digit; `none` when it is none. -/
def read (cs : List Char) : Option Numeral :=
  match cs with
  | '.' :: rest => afterPoint [] rest false
  | '0' :: rest => afterZero rest
  | _ => ordinary cs

end Numeral
end EmitLint.Syntax
