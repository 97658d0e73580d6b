/-
# The scan as loops over positions

The scan of `Sfc/Block.lean` goes down lists of bytes, so that by its very form it
ends and never looks beyond them.  Here is the same scan as a reader with a finger
on the text does it: a position in the whole text moves on in loops, each byte is
looked up by its index, and each piece is cut out by its bounds.  Every access is
checked.  `none` stands for a byte that is not there, for a piece whose bounds are
in the wrong order, beyond the end or inside a character, and for a loop that turns
more often than the text is long.

Main statement: `run_of_runs`.  A loop whose turns lead on in the text comes to its
answer within one turn more than the text has bytes.
-/
import EmitLint.Sfc.Block
import EmitLint.Proofs.Text.Ascii

namespace EmitLint.Sfc

/-- What one turn of a loop does: it ends with an answer or goes on from another state. -/
inductive Turn (α σ : Type)
  | done (answer : α)
  | onward (next : σ)

namespace Cursor

open Text (encode)

/-! ## Loops -/

section
variable {α σ : Type} {turn : σ → Option (Turn α σ)} {place : σ → Nat} {length n : Nat}
  {s : σ} {answer : α}

/-- Makes at most so many turns. -/
def run (turn : σ → Option (Turn α σ)) : Nat → σ → Option α
  | 0, _ => none
  | n + 1, s =>
      match turn s with
      | none => none
      | some (.done answer) => some answer
      | some (.onward next) => run turn n next

/-- From the state the loop comes to the answer.  No turn on the way fails, and each
that goes on begins in front of the end of the text and moves forwards. -/
inductive Runs (turn : σ → Option (Turn α σ)) (place : σ → Nat) (length : Nat) : σ → α → Prop
  | done {s : σ} {answer : α} : turn s = some (.done answer) → Runs turn place length s answer
  | onward {s next : σ} {answer : α} :
      turn s = some (.onward next) → place s < length → place s < place next →
      Runs turn place length next answer → Runs turn place length s answer

theorem run_of_runs (h : Runs turn place length s answer) (hn : length - place s < n) :
    run turn n s = some answer := by
  induction h generalizing n with
  | done hturn =>
      obtain ⟨m, rfl⟩ := Nat.exists_eq_add_of_lt hn
      rw [run, hturn]
  | onward hturn hinside hforwards _ ih =>
      obtain ⟨m, rfl⟩ := Nat.exists_eq_add_of_lt hn
      rw [run, hturn]
      exact ih (by omega)

/-- The turn ends with the answer, or it moves forwards to another good state. -/
def Keeps (turn : σ → Option (Turn α σ)) (place : σ → Nat) (length : Nat) (good : σ → Prop)
    (answer : α) (s : σ) : Prop :=
  turn s = some (.done answer) ∨
    ∃ next, turn s = some (.onward next) ∧ place s < length ∧ place s < place next ∧ good next

/-- A loop that is kept among good states comes to the answer. -/
theorem runs_of_keeps (good : σ → Prop)
    (h : ∀ s, good s → Keeps turn place length good answer s) (hs : good s) :
    Runs turn place length s answer := by
  induction hk : length - place s using Nat.strongRecOn generalizing s with
  | _ k ih =>
      rcases h s hs with hdone | ⟨next, hturn, hinside, hforwards, hnext⟩
      · exact .done hdone
      · exact .onward hturn hinside hforwards (ih _ (by omega) hnext rfl)

end

/-! ## Checked accesses -/

/-- The bytes from `pos` on. -/
def rest? (bs : List UInt8) (pos : Nat) : Option (List UInt8) :=
  if pos ≤ bs.length then some (bs.drop pos) else none

/-- The first `n` bytes. -/
def front? (bs : List UInt8) (n : Nat) : Option (List UInt8) :=
  if n ≤ bs.length then some (bs.take n) else none

/-- The byte in front of `pos`. -/
def before? (bs : List UInt8) (pos : Nat) : Option UInt8 :=
  if 0 < pos then bs[pos - 1]? else none

/-- The bytes begin with a word of small letters, in some letter case. -/
def spells? (word bs : List UInt8) : Option Bool :=
  (front? bs word.length).map fun front => front.map lower == word

/-- A script opens here: its name stands here, and a byte that ends the name. -/
def opens? (bs : List UInt8) : Option Bool :=
  if Mark.script.length < bs.length then do
    if ← spells? Mark.script bs then
      let b ← bs[Mark.script.length]?
      return b == 32 || b == 9 || b == 10 || b == 13 || b == 62 || b == 47
    else return false
  else return false

/-- A script is closed here. -/
def closes? (bs : List UInt8) : Option Bool :=
  if Mark.scriptEnd.length ≤ bs.length then spells? Mark.scriptEnd bs else some false

/-! ## The loops that look for a byte -/

section
variable (bs : List UInt8)

/-- Goes on as long as `p` holds. -/
def skipTurn (p : UInt8 → Bool) (pos : Nat) : Option (Turn Nat Nat) :=
  if pos < bs.length then do
    let b ← bs[pos]?
    return if p b then .onward (pos + 1) else .done pos
  else return .done pos

/-- Looks for the `>` that ends a tag; a quote leads behind its partner. -/
def tagEndTurn (pos : Nat) : Option (Turn (Option Nat) Nat) :=
  if pos < bs.length then do
    let b ← bs[pos]?
    if b = 62 then return .done (some pos)
    else if b = 34 ∨ b = 39 then
      match findByte b (← rest? bs (pos + 1)) with
      | none => return .done none
      | some n => return .onward (pos + 1 + n + 1)
    else return .onward (pos + 1)
  else return .done none

/-- Looks for `</script>`, from one `<` to the next. -/
def closeTurn (pos : Nat) : Option (Turn (Option Nat) Nat) :=
  if pos < bs.length then do
    match findByte 60 (← rest? bs pos) with
    | none => return .done none
    | some n =>
        if ← closes? (← rest? bs (pos + n)) then return .done (some (pos + n))
        else return .onward (pos + n + 1)
  else return .done none

def skip? (p : UInt8 → Bool) (pos : Nat) : Option Nat := run (skipTurn bs p) (bs.length + 1) pos

def tagEnd? (pos : Nat) : Option (Option Nat) := run (tagEndTurn bs) (bs.length + 1) pos

def close? (pos : Nat) : Option (Option Nat) := run (closeTurn bs) (bs.length + 1) pos

end

/-! ## Attributes -/

/-- What has been read of the attributes, and up to where. -/
structure Reading where
  pos : Nat
  setup : Bool
  lang : Option (List Char)

section
variable (attrs : List Char)

/-- The next name, which may be empty, and where it ends. -/
def name? (pos : Nat) : Option (List Char × Nat) := do
  let start ← skip? (encode attrs) isGap pos
  let stop ← skip? (encode attrs) isNameByte start
  let name ← Text.slice? attrs start stop
  return (name, stop)

/-- A value without quotes, and where reading goes on. -/
def bareValue? (pos : Nat) : Option (List Char × Nat) := do
  let stop ← skip? (encode attrs) (fun b => !isBlank b) pos
  let value ← Text.slice? attrs pos stop
  return (value, stop)

/-- A value behind its opening quote, up to the same quote or the end of the text. -/
def quotedValue? (quote : UInt8) (pos : Nat) : Option (List Char × Nat) := do
  let bs := encode attrs
  let stop := match findByte quote (← rest? bs pos) with
    | some n => pos + n
    | none => bs.length
  let value ← Text.slice? attrs pos stop
  return (value, stop + 1)

/-- What follows a name: its value, if there is one, and where reading goes on. -/
def value? (pos : Nat) : Option (Option (List Char) × Nat) :=
  let bs := encode attrs
  if pos < bs.length then do
    let b ← bs[pos]?
    if b = 61 then
      let (value, next) ← match bs[pos + 1]? with
        | some quote =>
            if quote = 34 ∨ quote = 39 then quotedValue? attrs quote (pos + 2)
            else bareValue? attrs (pos + 1)
        | none => bareValue? attrs (pos + 1)
      return (some value, next)
    else return (none, pos)
  else return (none, pos)

/-- Reads one attribute; where there is no name the reading ends. -/
def attributeTurn (s : Reading) : Option (Turn (Bool × Option (List Char)) Reading) :=
  if s.pos < (encode attrs).length then do
    let (name, stop) ← name? attrs s.pos
    if name.isEmpty then return .done (s.setup, s.lang)
    else
      let (value, next) ← value? attrs stop
      let word := (encode name).map lower
      if word == ascii "setup" then return .onward ⟨next, true, s.lang⟩
      else if word == ascii "lang" then return .onward ⟨next, s.setup, value⟩
      else return .onward ⟨next, s.setup, s.lang⟩
  else return .done (s.setup, s.lang)

/-- The flag and the language of a tag, by its attributes. -/
def attributes? : Option (Bool × Option (List Char)) :=
  run (attributeTurn attrs) ((encode attrs).length + 1) ⟨0, false, none⟩

end

/-! ## The file -/

/-- The blocks that have been found, and up to where. -/
structure Progress where
  pos : Nat
  blocks : List ScriptBlock

section
variable (source : String)

/-- Reads the attributes and the content of a script whose tag ends at `tagEnd`. -/
def elementTurn (tagEnd : Nat) (s : Progress) :
    Option (Turn (Except ScriptError (List ScriptBlock)) Progress) := do
  let attrs ← Text.slice? source.toList (s.pos + Mark.script.length) tagEnd
  let (setup, lang) ← attributes? attrs
  match ← close? (Text.bytes source) (tagEnd + 1) with
  | none => return .done (.error (.unclosed s.pos))
  | some stop =>
      if s.blocks.any (·.setup == setup) then return .done (.error (.duplicate setup s.pos))
      else
        let content ← Text.slice? source.toList (tagEnd + 1) stop
        let block : ScriptBlock :=
          ⟨String.ofList content, tagEnd + 1, setup, lang.map String.ofList⟩
        return .onward ⟨stop + Mark.scriptEnd.length, s.blocks ++ [block]⟩

/-- Reads the script that opens at the position. -/
def scriptTurn (s : Progress) :
    Option (Turn (Except ScriptError (List ScriptBlock)) Progress) := do
  match ← tagEnd? (Text.bytes source) (s.pos + Mark.script.length) with
  | none => return .done (.error (.unclosed s.pos))
  | some tagEnd =>
      if (← before? (Text.bytes source) tagEnd) = 47 then return .onward ⟨tagEnd + 1, s.blocks⟩
      else elementTurn source tagEnd s

/-- Reads what stands at a `<`: a comment, a script, or nothing of interest. -/
def markTurn (s : Progress) :
    Option (Turn (Except ScriptError (List ScriptBlock)) Progress) := do
  let rest ← rest? (Text.bytes source) s.pos
  if Mark.comment.isPrefixOf rest then
    match findWord Mark.commentEnd (← rest? rest Mark.comment.length) with
    | none => return .done (.ok s.blocks)
    | some n =>
        return .onward
          ⟨s.pos + (Mark.comment.length + n + Mark.commentEnd.length), s.blocks⟩
  else if ← opens? rest then scriptTurn source s
  else return .onward ⟨s.pos + 1, s.blocks⟩

/-- Goes to the next `<` and reads what stands there. -/
def scanTurn (s : Progress) :
    Option (Turn (Except ScriptError (List ScriptBlock)) Progress) :=
  if s.pos < (Text.bytes source).length then do
    match findByte 60 (← rest? (Text.bytes source) s.pos) with
    | none => return .done (.ok s.blocks)
    | some n => markTurn source ⟨s.pos + n, s.blocks⟩
  else return .done (.ok s.blocks)

/-- The script blocks of a file, with every access checked. -/
def extract? : Option (Except ScriptError (List ScriptBlock)) :=
  run (scanTurn source) ((Text.bytes source).length + 1) ⟨0, []⟩

end
end Cursor
end EmitLint.Sfc
