/-
# Opening tags, read byte by byte

The pieces of a `<script …>` tag: where it opens, where it ends, and its
attributes.  All delimiters are ASCII, so the scan runs over bytes; what it
finds are offsets, and every one of them stands next to an ASCII byte or at
an end of the text.

The functions here take the bytes from the place where they start reading
and answer with an offset counted from there.
-/
import EmitLint.Text.Span

namespace EmitLint.Sfc

/-- The bytes of an ASCII text. -/
def ascii (text : String) : List UInt8 := text.toList.map fun c => c.toNat.toUInt8

/-- Capital ASCII letters become small ones, all other bytes stay. -/
def lower (b : UInt8) : UInt8 := if 65 ≤ b ∧ b ≤ 90 then b + 32 else b

/-- Space, tab, newline, form feed and carriage return. -/
def isBlank (b : UInt8) : Bool := b == 32 || b == 9 || b == 10 || b == 12 || b == 13

/-- The bytes begin with `word`, a text of small letters, in some letter case. -/
def startsWith (word bs : List UInt8) : Bool := (bs.take word.length).map lower == word

/-! ## The four marks that a scan looks for -/

namespace Mark

def script : List UInt8 := ascii "<script"
def scriptEnd : List UInt8 := ascii "</script>"
def comment : List UInt8 := ascii "<!--"
def commentEnd : List UInt8 := ascii "-->"

@[simp] theorem length_script : script.length = 7 := by decide
@[simp] theorem length_scriptEnd : scriptEnd.length = 9 := by decide
@[simp] theorem length_comment : comment.length = 4 := by decide
@[simp] theorem length_commentEnd : commentEnd.length = 3 := by decide

end Mark

/-- `<script` in some letter case, followed by a blank other than a form
feed, `>` or `/`. -/
def isScriptOpen (bs : List UInt8) : Bool :=
  startsWith Mark.script bs &&
    match bs[Mark.script.length]? with
    | some b => b == 32 || b == 9 || b == 10 || b == 13 || b == 62 || b == 47
    | none => false

/-- Offset of the first byte equal to `b`. -/
def findByte (b : UInt8) : List UInt8 → Option Nat
  | [] => none
  | c :: cs => if c = b then some 0 else (findByte b cs).map (· + 1)

/-- Offset of the first place where `word` stands, letter for letter. -/
def findWord (word : List UInt8) : List UInt8 → Option Nat
  | [] => if word.isEmpty then some 0 else none
  | bs@(_ :: cs) => if word.isPrefixOf bs then some 0 else (findWord word cs).map (· + 1)

/-- Where the scan for the end of a tag stands: in the open or inside a
value opened by `quote`. -/
inductive TagState
  | plain
  | quoted (quote : UInt8)
deriving DecidableEq, Repr

/-- Offset of the first `>` outside quotes. -/
def tagEnd (state : TagState) : List UInt8 → Option Nat
  | [] => none
  | b :: bs =>
      match state with
      | .plain =>
          if b = 62 then some 0
          else (tagEnd (if b = 34 ∨ b = 39 then .quoted b else .plain) bs).map (· + 1)
      | .quoted quote =>
          (tagEnd (if b = quote then .plain else .quoted quote) bs).map (· + 1)

/-- Offset of the first `</script>` in some letter case. -/
def findClose : List UInt8 → Option Nat
  | [] => none
  | bs@(_ :: cs) => if startsWith Mark.scriptEnd bs then some 0 else (findClose cs).map (· + 1)

/-! ## Attributes -/

/-- A range of bytes, counted from the start of the attribute text. -/
abbrev Range := Span

/-- The bytes of a range. -/
def bytesIn (bs : List UInt8) (r : Range) : List UInt8 :=
  (bs.drop r.start).take (r.stop - r.start)

/-- An attribute: where its name stands and where its value, if it has one. -/
structure Attribute where
  name : Range
  value : Option Range
deriving DecidableEq, Repr

/-- Number of leading bytes for which `p` holds. -/
def runLength (p : UInt8 → Bool) : List UInt8 → Nat
  | [] => 0
  | b :: bs => if p b then runLength p bs + 1 else 0

theorem runLength_le (p : UInt8 → Bool) (bs : List UInt8) : runLength p bs ≤ bs.length := by
  induction bs with
  | nil => simp [runLength]
  | cons b bs ih => by_cases h : p b <;> simp [runLength, h, ih]

/-- What may stand between attributes. -/
def isGap (b : UInt8) : Bool := isBlank b || b == 47

/-- What a name may hold. -/
def isNameByte (b : UInt8) : Bool := !isBlank b && b != 61 && b != 47

/-- The value behind an `=`, whose first byte is at `pos`, and the offset
where reading goes on.  A quoted value without its closing quote runs to the
end of the text. -/
def readValue (bs : List UInt8) (pos : Nat) : Range × Nat :=
  match bs.drop pos with
  | [] => (⟨pos, pos⟩, pos)
  | b :: rest =>
      if b = 34 ∨ b = 39 then
        let stop := pos + 1 + (findByte b rest).getD rest.length
        (⟨pos + 1, stop⟩, stop + 1)
      else
        let stop := pos + runLength (fun b => !isBlank b) (b :: rest)
        (⟨pos, stop⟩, stop)

theorem le_readValue (bs : List UInt8) (pos : Nat) : pos ≤ (readValue bs pos).2 := by
  unfold readValue
  split
  · simp
  · split
    · simp only [Nat.add_assoc]
      exact Nat.le_add_right _ _
    · exact Nat.le_add_right _ _

/-- The next attribute name at or after `pos`; `none` at the end of the text
and where no name can start, as before a stray `=`. -/
def nextName? (bs : List UInt8) (pos : Nat) : Option Range :=
  let start := pos + runLength isGap (bs.drop pos)
  let stop := start + runLength isNameByte (bs.drop start)
  if start < stop then some ⟨start, stop⟩ else none

theorem nextName?_bounds {bs : List UInt8} {pos : Nat} {name : Range}
    (h : nextName? bs pos = some name) :
    pos ≤ name.start ∧ name.start < name.stop ∧ name.stop ≤ bs.length := by
  simp only [nextName?] at h
  split at h
  · rename_i hlt
    obtain rfl := Option.some.inj h
    have hle := runLength_le isNameByte (bs.drop (pos + runLength isGap (bs.drop pos)))
    rw [List.length_drop] at hle
    exact ⟨Nat.le_add_right _ _, hlt, by simp only at *; omega⟩
  · simp at h

/-- The attributes from offset `pos` on. -/
def attributesFrom (bs : List UInt8) (pos : Nat) : List Attribute :=
  match _h : nextName? bs pos with
  | none => []
  | some name =>
      if bs[name.stop]? = some 61 then
        let value := readValue bs (name.stop + 1)
        ⟨name, some value.1⟩ :: attributesFrom bs value.2
      else
        ⟨name, none⟩ :: attributesFrom bs name.stop
termination_by bs.length - pos
decreasing_by
  all_goals have hname := nextName?_bounds _h
  · have hvalue := le_readValue bs (name.stop + 1)
    omega
  · omega

/-- The attributes of an attribute text. -/
def attributes (bs : List UInt8) : List Attribute := attributesFrom bs 0

/-- The attribute's name is `word`, a text of small letters, in some letter case. -/
def Attribute.named (bs : List UInt8) (word : String) (a : Attribute) : Bool :=
  (bytesIn bs a.name).map lower == ascii word

/-- Some attribute is called `setup`. -/
def hasSetup (bs : List UInt8) : Bool :=
  (attributes bs).any (Attribute.named bs "setup")

/-- Where the value of the last `lang` attribute stands. -/
def langRange (bs : List UInt8) : Option Range :=
  match (attributes bs).reverse.find? (Attribute.named bs "lang") with
  | some a => a.value
  | none => none

end EmitLint.Sfc
