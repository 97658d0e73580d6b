/-
# Fixes

A fix is a message with edits; an edit replaces the bytes of a span.  The
edits of one fix all speak of the same source, so they are applied from the
back: an edit made later never moves the place of one still to come.

An edit that runs backwards or beyond the end of the text is passed over.
An edit with a boundary inside a character cannot be made at all, and then
the whole fix cannot (`Fix.apply` is `none`).
-/
import EmitLint.Text.Offset
import EmitLint.Text.Span

namespace EmitLint

open Text

/-- Put `newText` in place of the bytes of `span`. -/
structure TextEdit where
  span : Span
  newText : String
deriving DecidableEq, Repr, Inhabited

namespace TextEdit

/-- The edit seen from a text in which `offset` bytes stand in front. -/
def shift (e : TextEdit) (offset : Nat) : TextEdit := { e with span := e.span.shift offset }

/-- The edit runs forwards and ends inside the text. -/
def Fits (e : TextEdit) (text : List Char) : Prop :=
  e.span.start ≤ e.span.stop ∧ e.span.stop ≤ byteLength text

instance (e : TextEdit) (text : List Char) : Decidable (e.Fits text) :=
  inferInstanceAs (Decidable (_ ∧ _))

/-- The text after one edit; `none` when a boundary lies inside a character. -/
def replaceIn (e : TextEdit) (text : List Char) : Option (List Char) :=
  if e.Fits text then do
    let (before, rest) ← splitAt? text e.span.start
    let (_, after) ← splitAt? rest (e.span.stop - e.span.start)
    return before ++ e.newText.toList ++ after
  else some text

theorem replaceIn_append (e : TextEdit) (before inside after : List Char)
    (hs : e.span.start = byteLength before)
    (ht : e.span.stop = byteLength before + byteLength inside) :
    e.replaceIn (before ++ inside ++ after) = some (before ++ e.newText.toList ++ after) := by
  have hfit : e.Fits (before ++ inside ++ after) := by
    simp [Fits, hs, ht]
  rw [replaceIn, if_pos hfit, hs, ht]
  simp [List.append_assoc, splitAt?_append]

theorem replaceIn_of_not_fits {e : TextEdit} {text : List Char} (h : ¬ e.Fits text) :
    e.replaceIn text = some text := if_neg h

end TextEdit

/-- What to change, and a sentence that says so. -/
structure Fix where
  message : String
  edits : List TextEdit
deriving DecidableEq, Repr, Inhabited

namespace Fix

/-- A fix with a single edit. -/
def single (message : String) (edit : TextEdit) : Fix := ⟨message, [edit]⟩

/-- The fix seen from a text in which `offset` bytes stand in front. -/
def shift (f : Fix) (offset : Nat) : Fix := { f with edits := f.edits.map (·.shift offset) }

/-- Edits from the back of the text to its front; edits with one start keep
their order. -/
def fromBack (edits : List TextEdit) : List TextEdit :=
  edits.mergeSort fun a b => decide (b.span.start ≤ a.span.start)

/-- Make the edits one after the other. -/
def replaceAll (text : List Char) (edits : List TextEdit) : Option (List Char) :=
  edits.foldlM (fun t e => e.replaceIn t) text

/-- The text after the fix; `none` when an edit splits a character. -/
def apply (f : Fix) (text : String) : Option String :=
  (replaceAll text.toList (fromBack f.edits)).map String.ofList

@[simp] theorem replaceAll_nil (text : List Char) : replaceAll text [] = some text := rfl

theorem replaceAll_cons (text : List Char) (e : TextEdit) (es : List TextEdit) :
    replaceAll text (e :: es) = (e.replaceIn text).bind (replaceAll · es) := rfl

theorem fromBack_perm (edits : List TextEdit) : (fromBack edits).Perm edits :=
  List.mergeSort_perm _ _

end Fix
end EmitLint
