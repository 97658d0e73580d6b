/-
# What stands at the front of a single-file component

A single-file component is read from left to right, and at each place one
`Piece` is taken off: a comment, a self-closing `<script … />`, a whole
`<script …>…</script>` element, or, failing these, one byte of other text.
Two pieces end the reading: a comment that is never closed swallows the
rest, and a script that is never closed is an error.
-/
import EmitLint.Sfc.Tag

namespace EmitLint.Sfc

/-- What stands at the front of the text; the numbers are lengths in bytes. -/
inductive Piece
  /-- One byte of no interest. -/
  | text
  /-- A comment with both its marks. -/
  | comment (length : Nat)
  /-- A comment that is never closed. -/
  | openComment
  /-- A self-closing `<script … />`. -/
  | external (length : Nat)
  /-- An opening tag with its `>`, and the content up to `</script>`. -/
  | element (tag content : Nat)
  /-- A `<script` without an end of tag or without its closing tag. -/
  | unclosed
deriving DecidableEq, Repr

namespace Piece

/-- The bytes that a piece takes off the front. -/
def length : Piece → Nat
  | text => 1
  | comment n => n
  | openComment => 0
  | external n => n
  | element tag content => tag + content + Mark.scriptEnd.length
  | unclosed => 0

/-- The piece that begins with the bytes of an opening tag, which stand at
the front of `bs`. -/
def ofScriptOpen (bs : List UInt8) : Piece :=
  match tagEnd .plain (bs.drop Mark.script.length) with
  | none => .unclosed
  | some n =>
      let tag := Mark.script.length + n + 1
      if bs[tag - 2]? = some 47 then .external tag
      else
        match findClose (bs.drop tag) with
        | none => .unclosed
        | some content => .element tag content

/-- The piece at the front of a non-empty text. -/
def front (bs : List UInt8) : Piece :=
  if Mark.comment.isPrefixOf bs then
    match findWord Mark.commentEnd (bs.drop Mark.comment.length) with
    | some n => .comment (Mark.comment.length + n + Mark.commentEnd.length)
    | none => .openComment
  else if isScriptOpen bs then ofScriptOpen bs
  else .text

/-- The attribute text of an element whose opening tag takes `tag` bytes. -/
def attributeText (bs : List UInt8) (tag : Nat) : List UInt8 :=
  (bs.drop Mark.script.length).take (tag - 1 - Mark.script.length)

/-- A piece that ends the reading takes nothing. -/
def Stops (p : Piece) : Prop := p = openComment ∨ p = unclosed

theorem length_ofScriptOpen_pos (bs : List UInt8) :
    0 < (ofScriptOpen bs).length ∨ (ofScriptOpen bs).Stops := by
  unfold ofScriptOpen
  split
  · exact .inr (.inr rfl)
  · dsimp only
    split
    · exact .inl (by simp [length])
    · split
      · exact .inr (.inr rfl)
      · exact .inl (by simp [length])

theorem length_front_pos (bs : List UInt8) : 0 < (front bs).length ∨ (front bs).Stops := by
  unfold front
  split
  · split
    · exact .inl (by simp [length])
    · exact .inr (.inl rfl)
  · split
    · exact length_ofScriptOpen_pos bs
    · exact .inl (by simp [length])

end Piece
end EmitLint.Sfc
