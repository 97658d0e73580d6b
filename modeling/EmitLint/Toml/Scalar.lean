/-
# Numbers, booleans, dates and times of TOML

A configuration never looks into these values, so their readers only tell
where the value ends and whether it is sound.  Each gives the text behind
it, or `none`.
-/
import EmitLint.Decimal.Binary64
import EmitLint.Toml.Lexical

namespace EmitLint.Toml.Scalar

def isDigit (c : Char) : Bool := '0' ≤ c && c ≤ '9'

/-- Digits of a number system with single underscores between them, and the
text behind. -/
def digitRun (p : Char → Bool) : List Char → Option (List Char × List Char)
  | [] => none
  | c :: cs => if p c then some (go [c] cs) else none
where
  go (taken : List Char) : List Char → List Char × List Char
    | '_' :: c :: cs => if p c then go (taken ++ [c]) cs else (taken, '_' :: c :: cs)
    | c :: cs => if p c then go (taken ++ [c]) cs else (taken, c :: cs)
    | [] => (taken, [])

/-- The text behind a sign, and whether it was a minus. -/
def sign : List Char → Bool × List Char
  | '+' :: cs => (false, cs)
  | '-' :: cs => (true, cs)
  | cs => (false, cs)

/-- The digits of a whole decimal number: a lone zero, or digits that start
with another. -/
def wholeDigits (cs : List Char) : Option (List Char × List Char) :=
  match cs with
  | '0' :: rest => some (['0'], rest)
  | _ => digitRun isDigit cs

/-- A whole number, which must fit in a signed word of 64 bits. -/
def integer (cs : List Char) : Option (List Char) :=
  match cs with
  | '0' :: 'x' :: rest => based 16 Text.isHexDigit rest
  | '0' :: 'o' :: rest => based 8 (fun c => '0' ≤ c && c ≤ '7') rest
  | '0' :: 'b' :: rest => based 2 (fun c => c = '0' || c = '1') rest
  | _ => do
      let (negative, rest) := sign cs
      let (digits, rest) ← wholeDigits rest
      let most := if negative then Nat.pow 2 63 else Nat.pow 2 63 - 1
      if Text.digitsValue 10 digits ≤ most then some rest else none
where
  based (base : Nat) (p : Char → Bool) (rest : List Char) : Option (List Char) := do
    let (digits, rest) ← digitRun p rest
    if Text.digitsValue base digits < Nat.pow 2 63 then some rest else none

/-- A number with a fraction or an exponent.  One beyond the largest double
is refused if it is positive. -/
def decimal (cs : List Char) : Option (List Char) := do
  let (negative, rest) := sign cs
  let (whole, rest) ← wholeDigits rest
  let (fraction, rest) ← match rest with
    | '.' :: rest => digitRun isDigit rest
    | _ => some ([], rest)
  let (power, found, rest) ← match rest with
    | 'e' :: rest | 'E' :: rest => do
        let (down, rest) := sign rest
        let (power, rest) ← digitRun isDigit rest
        let n : Int := Text.digitsValue 10 power
        some (if down then -n else n, true, rest)
    | _ => some ((0 : Int), false, rest)
  if fraction.isEmpty && !found then none
  else
    let value := Decimal.Binary64.ofDecimal (Text.digitsValue 10 (whole ++ fraction))
      (power - fraction.length)
    if !negative && value.isNone then none else some rest

/-- `inf` or `nan`, signed or not. -/
def special (cs : List Char) : Option (List Char) :=
  match (sign cs).2 with
  | 'i' :: 'n' :: 'f' :: rest => some rest
  | 'n' :: 'a' :: 'n' :: rest => some rest
  | _ => none

def boolean : List Char → Option (List Char)
  | 't' :: 'r' :: 'u' :: 'e' :: rest => some rest
  | 'f' :: 'a' :: 'l' :: 's' :: 'e' :: rest => some rest
  | _ => none

/-! ## Dates and times -/

/-- A number of exactly `count` digits between two bounds. -/
def field (count low high : Nat) (cs : List Char) : Option (Nat × List Char) :=
  let digits := cs.take count
  let n := Text.digitsValue 10 digits
  if digits.length = count ∧ digits.all isDigit ∧ low ≤ n ∧ n ≤ high then
    some (n, cs.drop count)
  else none

def mark (c : Char) (cs : List Char) : Option (List Char) :=
  match cs with
  | d :: rest => if d = c then some rest else none
  | [] => none

/-- The number of days of a month. -/
def daysIn (year month : Nat) : Nat :=
  if month = 2 then
    if year % 4 = 0 ∧ (year % 100 ≠ 0 ∨ year % 400 = 0) then 29 else 28
  else if month = 4 ∨ month = 6 ∨ month = 9 ∨ month = 11 then 30
  else 31

def date (cs : List Char) : Option (List Char) := do
  let (year, cs) ← field 4 0 9999 cs
  let (month, cs) ← field 2 1 12 (← mark '-' cs)
  let (_, cs) ← field 2 1 (daysIn year month) (← mark '-' cs)
  return cs

def time (cs : List Char) : Option (List Char) := do
  let (_, cs) ← field 2 0 23 cs
  let (_, cs) ← field 2 0 59 (← mark ':' cs)
  let (_, cs) ← field 2 0 60 (← mark ':' cs)
  match cs with
  | '.' :: d :: rest => if isDigit d then return rest.dropWhile isDigit else none
  | '.' :: [] => none
  | _ => return cs

/-- A distance from universal time; without one the text stays as it is. -/
def zone (cs : List Char) : Option (List Char) :=
  match cs with
  | 'Z' :: rest | 'z' :: rest => some rest
  | '+' :: rest | '-' :: rest => do
      let (_, cs) ← field 2 0 23 rest
      let (_, cs) ← field 2 0 59 (← mark ':' cs)
      return cs
  | _ => some cs

/-- A date, a time, or a date with a time. -/
def moment (cs : List Char) : Option (List Char) :=
  match date cs with
  | none => time cs
  | some rest =>
      match rest with
      | c :: after =>
          if c = 'T' ∨ c = 't' ∨ c = ' ' then
            match time after with
            | some rest => zone rest
            | none => some rest
          else some rest
      | [] => some rest

/-- Any of these values. -/
def read (cs : List Char) : Option (List Char) :=
  moment cs <|> decimal cs <|> special cs <|> integer cs <|> boolean cs

end EmitLint.Toml.Scalar
