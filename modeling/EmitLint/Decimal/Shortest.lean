/-
# Shortest decimals

The text of a double: the fewest digits that read back as it, of these the
nearest (a tie goes up), written out in full without an exponent.

For one digit, two digits and so on, only the two neighbours of the number
on the grid of decimals with so many digits can read back as it if any such
decimal does, so only these two are tried.
-/
import EmitLint.Decimal.Binary64

namespace EmitLint.Decimal

/-- The positive rational `num / den`. -/
structure Ratio where
  num : Nat
  den : Nat

namespace Ratio

/-- `n * base ^ e`. -/
def scale (n base : Nat) (e : Int) : Ratio :=
  if 0 ≤ e then ⟨n * Nat.pow base e.toNat, 1⟩ else ⟨n, Nat.pow base (-e).toNat⟩

def le (a b : Ratio) : Bool := a.num * b.den ≤ b.num * a.den
def lt (a b : Ratio) : Bool := a.num * b.den < b.num * a.den

/-- The largest `e` with `10 ^ e ≤ a`. -/
def log10 (a : Ratio) : Int :=
  let bits : Int := (a.num.log2 : Int) - (a.den.log2 : Int)
  let guess := (bits * 30103).fdiv 100000
  let guess := if lt a (scale 1 10 guess) then guess - 1 else guess
  let guess := if lt a (scale 1 10 guess) then guess - 1 else guess
  if le (scale 1 10 (guess + 1)) a then guess + 1 else guess

/-- `a / 10 ^ e`, rounded down. -/
def floorDiv10 (a : Ratio) (e : Int) : Nat :=
  if 0 ≤ e then a.num / (a.den * Nat.pow 10 e.toNat) else a.num * Nat.pow 10 (-e).toNat / a.den

end Ratio

namespace Binary64

/-- The number itself, and the ends of the interval that rounds to it. -/
def bounds (b : Binary64) : Ratio × Ratio × Ratio :=
  let low := if b.mantissa = Nat.pow 2 52 ∧ minExponent < b.exponent then 4 * b.mantissa - 1
    else 4 * b.mantissa - 2
  (.scale low 2 (b.exponent - 2), .scale b.mantissa 2 b.exponent,
    .scale (4 * b.mantissa + 2) 2 (b.exponent - 2))

/-- The decimal `digits * 10 ^ exponent` reads back as the number. -/
def ReadsBack (b : Binary64) (digits : Nat) (exponent : Int) : Bool :=
  let (low, _, high) := b.bounds
  let d := Ratio.scale digits 10 exponent
  if b.mantissa % 2 = 0 then low.le d && d.le high else low.lt d && d.lt high

/-- The better of the two neighbours of `value` on the grid of step
`10 ^ step`, if one reads back. -/
def neighbour? (b : Binary64) (value : Ratio) (step : Int) : Option (Nat × Int) :=
  let d := value.floorDiv10 step
  match b.ReadsBack d step, b.ReadsBack (d + 1) step with
  | true, true =>
      let middle := Ratio.scale (2 * d + 1) 10 step
      if Ratio.lt ⟨2 * value.num, value.den⟩ middle then some (d, step) else some (d + 1, step)
  | true, false => some (d, step)
  | false, true => some (d + 1, step)
  | false, false => none

/-- The shortest decimal `digits * 10 ^ exponent` of a number; seventeen
digits are always enough. -/
def shortest (b : Binary64) : Nat × Int :=
  if b.mantissa = 0 then (0, 0)
  else
    let value := b.bounds.2.1
    let top := value.log10
    ((List.range 17).findSome? fun (n : Nat) => b.neighbour? value (top - (n : Int))).getD (0, 0)

end Binary64

/-- Drop the zeros at the end, at most `fuel` many. -/
def trimZeros : Nat → Nat × Int → Nat × Int
  | 0, d => d
  | fuel + 1, (digits, e) =>
      if digits ≠ 0 ∧ digits % 10 = 0 then trimZeros fuel (digits / 10, e + 1) else (digits, e)

/-- `digits * 10 ^ exponent` written out in full. -/
def positional (digits : Nat) (exponent : Int) : String :=
  let ds := Nat.toDigits 10 digits
  let fraction := (-exponent).toNat
  let zeros := fun n => List.replicate n '0'
  String.ofList <|
    if digits = 0 then ['0']
    else if 0 ≤ exponent then ds ++ zeros exponent.toNat
    else if fraction < ds.length then
      ds.take (ds.length - fraction) ++ '.' :: ds.drop (ds.length - fraction)
    else '0' :: '.' :: zeros (fraction - ds.length) ++ ds

/-- The text of the number `digits * 10 ^ exponent` once it is rounded to a
double; beyond the largest double it is `inf`. -/
def doubleText (digits : Nat) (exponent : Int) : String :=
  match Binary64.ofDecimal digits exponent with
  | none => "inf"
  | some b =>
      let (d, e) := trimZeros 20 b.shortest
      positional d e

end EmitLint.Decimal
