/-
# Double precision

A finite positive double is a mantissa times a power of two.  `ofDecimal`
gives the double nearest to a decimal (a tie goes to the even mantissa), or
`none` when that is beyond the largest one and rounds to infinity.
-/

namespace EmitLint.Decimal

/-- The number `mantissa * 2 ^ exponent`, with `mantissa < 2 ^ 53` and
`-1074 ≤ exponent`; a zero mantissa is zero. -/
structure Binary64 where
  mantissa : Nat
  exponent : Int
deriving DecidableEq, Repr, Inhabited

namespace Binary64

/-- The smallest exponent. -/
def minExponent : Int := -1074

/-- `num / den` to the nearest whole number, a tie to the even one. -/
def divNearest (num den : Nat) : Nat :=
  let q := num / den
  let r := num % den
  if 2 * r < den then q
  else if 2 * r > den then q + 1
  else if q % 2 = 0 then q else q + 1

/-- `num / den` scaled by `2 ^ -e` and rounded. -/
def scaled (num den : Nat) (e : Int) : Nat :=
  if 0 ≤ e then divNearest num (den * Nat.pow 2 e.toNat)
  else divNearest (num * Nat.pow 2 (-e).toNat) den

/-- The exponent that gives `num / den` a mantissa of 53 bits, as far as
exponents go down. -/
def exponentOf (num den : Nat) : Int :=
  let guess : Int := (num.log2 : Int) - (den.log2 : Int) - 52
  let e := if Nat.pow 2 53 ≤ scaled num den guess then guess + 1
    else if scaled num den guess < Nat.pow 2 52 then guess - 1 else guess
  max e minExponent

/-- The double nearest to `num / den`; `none` when it is infinite. -/
def ofRatio (num den : Nat) : Option Binary64 :=
  if num = 0 then some ⟨0, 0⟩
  else
    let e := exponentOf num den
    let m := scaled num den e
    let (m, e) := if m = Nat.pow 2 53 then (Nat.pow 2 52, e + 1) else (m, e)
    if 971 < e then none else some ⟨m, e⟩

/-- Number of decimal digits of a positive number. -/
def digitCount (n : Nat) : Nat := (Nat.toDigits 10 n).length

/-- The double nearest to `digits * 10 ^ exponent`; `none` when it is
infinite.  Numbers far out of range are settled by their size alone, so no
giant power is ever formed. -/
def ofDecimal (digits : Nat) (exponent : Int) : Option Binary64 :=
  let size : Int := digitCount digits + exponent
  if digits = 0 then some ⟨0, 0⟩
  else if 310 < size then none
  else if size < -330 then some ⟨0, 0⟩
  else if 0 ≤ exponent then ofRatio (digits * Nat.pow 10 exponent.toNat) 1
  else ofRatio digits (Nat.pow 10 (-exponent).toNat)

end Binary64
end EmitLint.Decimal
