/-
# Reading JSON as it streams in

A reader takes text off the front and says what it found, or why it stopped.
There are three reasons to stop: the text is no JSON (`malformed`), it ended
too early (`truncated`), or it is JSON so far but not of the shape asked for
(`mismatched`).  Reading is from left to right and the first reason wins, so
a text with two faults is judged by the earlier one.

A value that nobody asks for is passed over (`skipValue`).  Passing over is
laxer than reading: a number may be of any size and a `\u` escape may name
half of a surrogate pair.
-/
import EmitLint.Decimal.Binary64
import EmitLint.Text.Digit
import EmitLint.Text.Offset

namespace EmitLint.Json

/-- Why reading stopped. -/
inductive Fault
  | malformed
  | truncated
  | mismatched
deriving DecidableEq, Repr

/-- What reads from the front of a text. -/
abbrev Reader (α : Type) := StateT (List Char) (Except Fault) α

/-- Stop. -/
def stop {α : Type} (fault : Fault) : Reader α := throw fault

/-- Space, tab, newline and carriage return. -/
def isBlank (c : Char) : Bool := c = ' ' || c = '\t' || c = '\n' || c = '\r'

/-- The next character that is no blank, which stays in the text. -/
def peek : Reader (Option Char) := do
  modify fun cs => cs.dropWhile isBlank
  return (← get).head?

/-- Take one character off the front. -/
def advance : Reader Unit := modify List.tail

/-- The rest of a word whose first letter was taken. -/
def readWord : List Char → Reader Unit
  | [] => return ()
  | w :: ws => do
      match ← get with
      | [] => stop .truncated
      | c :: cs =>
          set cs
          if c = w then readWord ws else stop .malformed

/-! ## Strings -/

/-- A code unit of four hexadecimal digits.  With fewer than four bytes left
the text is truncated, whatever they are. -/
def readUnit (cs : List Char) : Except Fault (Nat × List Char) :=
  match cs with
  | a :: b :: c :: d :: rest =>
      match Text.hexDigit? a, Text.hexDigit? b, Text.hexDigit? c, Text.hexDigit? d with
      | some a, some b, some c, some d => .ok (((a * 16 + b) * 16 + c) * 16 + d, rest)
      | _, _, _, _ => .error .malformed
  | _ => .error (if 4 ≤ Text.byteLength cs then .malformed else .truncated)

/-- Leading halves of surrogate pairs. -/
def isLeading (n : Nat) : Bool := 0xD800 ≤ n && n ≤ 0xDBFF

/-- Trailing halves of surrogate pairs. -/
def isTrailing (n : Nat) : Bool := 0xDC00 ≤ n && n ≤ 0xDFFF

/-- The character behind `\u`. -/
def readUnicode (cs : List Char) : Except Fault (Char × List Char) := do
  let (n, rest) ← readUnit cs
  if isTrailing n then .error .malformed
  else if isLeading n then
    match rest with
    | [] => .error .truncated
    | '\\' :: [] => .error .truncated
    | '\\' :: 'u' :: rest => do
        let (m, rest) ← readUnit rest
        if isTrailing m then
          .ok (Char.ofNat (0x10000 + (n - 0xD800) * 0x400 + (m - 0xDC00)), rest)
        else .error .malformed
    | _ => .error .malformed
  else .ok (Char.ofNat n, rest)

/-- The character behind a backslash that needs no digits. -/
def simpleEscape? : Char → Option Char
  | '"' => some '"'
  | '\\' => some '\\'
  | '/' => some '/'
  | 'b' => some '\x08'
  | 'f' => some '\x0c'
  | 'n' => some '\n'
  | 'r' => some '\r'
  | 't' => some '\t'
  | _ => none

/-- The character that an escape stands for, read behind its backslash.  A
`lax` reader does not ask whether surrogates come in pairs. -/
def readEscape (lax : Bool) : List Char → Except Fault (Char × List Char)
  | [] => .error .truncated
  | 'u' :: rest =>
      if lax then (readUnit rest).map fun u => (Char.ofNat u.1, u.2) else readUnicode rest
  | c :: rest =>
      match simpleEscape? c with
      | some d => .ok (d, rest)
      | none => .error .malformed

theorem readUnit_length {cs rest : List Char} {n : Nat} (h : readUnit cs = .ok (n, rest)) :
    rest.length ≤ cs.length := by
  unfold readUnit at h
  split at h
  · split at h
    · simp only [Except.ok.injEq, Prod.mk.injEq] at h
      rw [← h.2]
      simp only [List.length_cons]
      omega
    · exact nomatch h
  · exact nomatch h

theorem readUnicode_length {cs rest : List Char} {c : Char}
    (h : readUnicode cs = .ok (c, rest)) : rest.length ≤ cs.length := by
  unfold readUnicode at h
  cases hu : readUnit cs with
  | error f => rw [hu] at h; exact nomatch h
  | ok u =>
    obtain ⟨n, mid⟩ := u
    have hmid := readUnit_length hu
    simp only [hu, bind, Except.bind] at h
    split at h
    · exact nomatch h
    · split at h
      · split at h
        · exact nomatch h
        · exact nomatch h
        · rename_i tail
          cases hv : readUnit tail with
          | error f => rw [hv] at h; exact nomatch h
          | ok v =>
            have hrest := readUnit_length (show _ = Except.ok (v.1, v.2) from hv)
            rw [hv] at h
            simp only at h
            split at h
            · simp only [Except.ok.injEq, Prod.mk.injEq] at h
              rw [← h.2]
              simp only [List.length_cons] at hmid
              omega
            · exact nomatch h
        · exact nomatch h
      · simp only [Except.ok.injEq, Prod.mk.injEq] at h
        rw [← h.2]
        exact hmid

theorem readEscape_length {lax : Bool} {cs rest : List Char} {c : Char}
    (h : readEscape lax cs = .ok (c, rest)) : rest.length ≤ cs.length := by
  unfold readEscape at h
  split at h
  · exact nomatch h
  · rename_i tail
    split at h
    · cases hu : readUnit tail with
      | error f => rw [hu] at h; exact nomatch h
      | ok u =>
        have hlen := readUnit_length (show _ = Except.ok (u.1, u.2) from hu)
        rw [hu] at h
        simp only [Except.map, Except.ok.injEq, Prod.mk.injEq] at h
        rw [← h.2]
        simp only [List.length_cons]
        omega
    · have hlen := readUnicode_length h
      simp only [List.length_cons]
      omega
  · split at h
    · simp only [Except.ok.injEq, Prod.mk.injEq] at h
      rw [← h.2]
      simp only [List.length_cons]
      omega
    · exact nomatch h

/-- The characters of a string up to its closing quote, and what follows it. -/
def stringBody (lax : Bool) (cs : List Char) : Except Fault (List Char × List Char) :=
  match cs with
  | [] => .error .truncated
  | '"' :: rest => .ok ([], rest)
  | '\\' :: rest =>
      match _h : readEscape lax rest with
      | .error fault => .error fault
      | .ok (c, rest') => (stringBody lax rest').map fun r => (c :: r.1, r.2)
  | c :: rest =>
      if c < ' ' then .error .malformed
      else (stringBody lax rest).map fun r => (c :: r.1, r.2)
termination_by cs.length
decreasing_by
  · have hlen := readEscape_length _h
    simp only [List.length_cons]
    omega
  · simp

/-- A string whose opening quote was taken. -/
def readString (lax : Bool) : Reader String := do
  let (body, rest) ← stringBody lax (← get)
  set rest
  return String.ofList body

/-! ## Numbers -/

def isDigit (c : Char) : Bool := '0' ≤ c && c ≤ '9'

/-- Take the digits at the front. -/
def takeDigits : Reader (List Char) := do
  let cs ← get
  set (cs.dropWhile isDigit)
  return cs.takeWhile isDigit

/-- Digits of which there must be one.  When the text ends instead, a `lax`
reader calls it malformed. -/
def requireDigits (lax : Bool) : Reader (List Char) := do
  match ← get with
  | [] => stop (if lax then .malformed else .truncated)
  | c :: _ => if isDigit c then takeDigits else stop .malformed

/-- A whole part: a lone zero, or digits that do not start with one. -/
def readWhole (lax : Bool) : Reader (List Char) := do
  let digits ← requireDigits lax
  match digits with
  | '0' :: _ :: _ => stop .malformed
  | _ => return digits

/-- The largest value of an unsigned word of 64 bits. -/
def maxWord : Nat := Nat.pow 2 64 - 1

/-- As many leading digits as fit in a word of 64 bits, and how many do not. -/
def significand (acc : Nat) : List Char → Nat × Nat
  | [] => (acc, 0)
  | c :: cs =>
      let next := acc * 10 + (c.toNat - 48)
      if maxWord < next then (acc, (c :: cs).length) else significand next cs

/-- The product of `digits` and a power of ten, each first rounded to a
double, is beyond the largest double. -/
def overflows (digits : Nat) (exponent : Int) : Bool :=
  if digits = 0 ∨ exponent ≤ 0 then false
  else if 308 < exponent then true
  else
    let power := Nat.pow 10 exponent.toNat
    match Decimal.Binary64.ofRatio digits 1, Decimal.Binary64.ofRatio power 1 with
    | some a, some b =>
        let scale := a.exponent + b.exponent
        let product := a.mantissa * b.mantissa
        if 0 ≤ scale then Nat.pow 2 1024 - Nat.pow 2 970 ≤ product * Nat.pow 2 scale.toNat
        else (Nat.pow 2 1024 - Nat.pow 2 970) * Nat.pow 2 (-scale).toNat ≤ product
    | _, _ => true

/-- The value of decimal digits. -/
def decimalValue (digits : List Char) : Nat :=
  digits.foldl (fun n c => n * 10 + (c.toNat - 48)) 0

/-- A number as far as it was read: digits times a power of ten, and whether these are all. -/
structure Scaled where
  digits : Nat
  exponent : Int
  whole : Bool

/-- The point and the digits behind it, if there are any.  They count unless the digits in front of
the point are too many already. -/
def readFraction (lax : Bool) (s : Scaled) : Reader Scaled := do
  if (← get).head? = some '.' then
    advance
    let fraction ← requireDigits lax
    if s.exponent = 0 then
      let (kept, dropped) := significand s.digits fraction
      return ⟨kept, -((fraction.length - dropped : Nat) : Int), false⟩
    else return { s with whole := false }
  else return s

/-- The power of ten, if there is one. -/
def readPower (lax : Bool) (s : Scaled) : Reader Scaled := do
  if (← get).head? = some 'e' ∨ (← get).head? = some 'E' then
    advance
    let sign := (← get).head?
    if sign = some '+' ∨ sign = some '-' then advance
    let power ← requireDigits lax
    let shift : Int := if sign = some '-' then -decimalValue power else decimalValue power
    return ⟨s.digits, s.exponent + shift, false⟩
  else return s

/-- A number behind its sign.  Read in earnest it must not be out of range. -/
def readNumber (lax : Bool) : Reader Unit := do
  let whole ← readWhole lax
  let (kept, dropped) := significand 0 whole
  let s ← readFraction lax ⟨kept, dropped, dropped = 0⟩
  let s ← readPower lax s
  if !lax && !s.whole && overflows s.digits s.exponent then stop .malformed

/-! ## Values that nobody asks for -/

mutual

/-- Pass over a value; `fuel` bounds the number of its parts. -/
def skip : Nat → Reader Unit
  | 0 => stop .malformed
  | fuel + 1 => do
      match ← peek with
      | none => stop .truncated
      | some c =>
          match c with
          | 'n' => do advance; readWord ['u', 'l', 'l']
          | 't' => do advance; readWord ['r', 'u', 'e']
          | 'f' => do advance; readWord ['a', 'l', 's', 'e']
          | '-' => do advance; readNumber true
          | '"' => do advance; let _ ← readString true
          | '[' => do
              advance
              if (← peek) = some ']' then advance else skipElements fuel
          | '{' => do
              advance
              if (← peek) = some '}' then advance else skipMembers fuel
          | _ => if isDigit c then readNumber true else stop .malformed

/-- Pass over elements up to the closing bracket. -/
def skipElements : Nat → Reader Unit
  | 0 => stop .malformed
  | fuel + 1 => do
      skip fuel
      match ← peek with
      | some ',' => do advance; skipElements fuel
      | some ']' => advance
      | some _ => stop .malformed
      | none => stop .truncated

/-- Pass over members up to the closing brace. -/
def skipMembers : Nat → Reader Unit
  | 0 => stop .malformed
  | fuel + 1 => do
      match ← peek with
      | some '"' => do
          advance
          let _ ← readString true
          match ← peek with
          | some ':' => advance
          | some _ => stop .malformed
          | none => stop .truncated
          skip fuel
          match ← peek with
          | some ',' => do advance; skipMembers fuel
          | some '}' => advance
          | some _ => stop .malformed
          | none => stop .truncated
      | some _ => stop .malformed
      | none => stop .truncated

end

/-- Pass over one value.  Every part of it takes at least one character, so
the length of the text, counted twice, is fuel enough. -/
def skipValue : Reader Unit := do skip (2 * (← get).length + 2)

/-! ## Values of the wrong kind -/

/-- Stop at a value of a kind that was not asked for: strings, numbers and
words must be sound to count as mismatched, arrays and objects count as soon
as they open. -/
def mismatch {α : Type} : Reader α := do
  match (← get).head? with
  | some 'n' => do advance; readWord ['u', 'l', 'l']; stop .mismatched
  | some 't' => do advance; readWord ['r', 'u', 'e']; stop .mismatched
  | some 'f' => do advance; readWord ['a', 'l', 's', 'e']; stop .mismatched
  | some '-' => do advance; readNumber false; stop .mismatched
  | some '"' => do advance; let _ ← readString false; stop .mismatched
  | some '[' | some '{' => stop .mismatched
  | some c => if isDigit c then do readNumber false; stop .mismatched else stop .malformed
  | none => stop .malformed

/-! ## The shapes that are asked for -/

/-- A string. -/
def string : Reader String := do
  match ← peek with
  | none => stop .truncated
  | some '"' => do advance; readString false
  | some _ => mismatch

/-- A string, or `null` for none. -/
def optionalString : Reader (Option String) := do
  match ← peek with
  | some 'n' => do advance; readWord ['u', 'l', 'l']; return none
  | _ => return some (← string)

/-- The `null` value. -/
def null : Reader Unit := do
  match ← peek with
  | none => stop .truncated
  | some 'n' => do advance; readWord ['u', 'l', 'l']
  | some _ => mismatch

/-- The colon between a name and its value. -/
def colon : Reader Unit := do
  match ← peek with
  | some ':' => advance
  | some _ => stop .malformed
  | none => stop .truncated

/-- One of several named choices, written as its name or as an object that
holds the name with `null`. -/
def choice {α : Type} (ofName? : String → Option α) : Reader α := do
  match ← peek with
  | none => stop .truncated
  | some '"' => named
  | some '{' => do
      advance
      let a ← named
      colon
      null
      match ← peek with
      | some '}' => do advance; return a
      | some _ => stop .malformed
      | none => stop .truncated
  | some _ => stop .malformed
where
  named : Reader α := do
    match ofName? (← string) with
    | some a => return a
    | none => stop .mismatched

/-- The opening quote of the next member's name, or `false` when the object
ends here; its brace stays. -/
def nextMember (first : Bool) : Reader Bool := do
  match ← peek with
  | none => stop .truncated
  | some '}' => return false
  | some c => do
      if !first then
        if c = ',' then advance else stop .malformed
      match ← peek with
      | some '"' => do advance; return true
      | some _ => stop .malformed
      | none => stop .truncated

/-- The members from here on, folded into `state`; `member` is given a name
whose colon is still to come. -/
def members {σ : Type} (member : σ → String → Reader σ) : Nat → Bool → σ → Reader σ
  | 0, _, _ => stop .malformed
  | fuel + 1, first, state => do
      if ← nextMember first then
        let name ← readString false
        let state ← member state name
        members member fuel false state
      else
        advance
        return state

/-- An object, its members folded from the left. -/
def object {σ : Type} (member : σ → String → Reader σ) (start : σ) : Reader σ := do
  match ← peek with
  | none => stop .truncated
  | some '{' => do
      advance
      members member ((← get).length + 1) true start
  | some _ => mismatch

/-- A whole text that is one value. -/
def readAll {α : Type} (reader : Reader α) (text : String) : Except Fault α := do
  let (a, rest) ← reader.run text.toList
  match rest.dropWhile isBlank with
  | [] => .ok a
  | _ => .error .malformed

end EmitLint.Json
