/-
# Script blocks of a single-file component

`extractScriptBlocks` finds the `<script>` and `<script setup>` elements of
a file, in order.  A file has at most one of each; a second one, and one
that is never closed, is an error with the offset of its tag.  An element
that is both a duplicate and unclosed is reported as unclosed.

The scan itself yields ranges of bytes (`BlockRange`); the text of a block
is cut out of the source afterwards.
-/
import EmitLint.ScriptKind
import EmitLint.Sfc.Piece
import EmitLint.Syntax.Dialect
import EmitLint.Text.Offset

namespace EmitLint.Sfc

/-- Why the script blocks of a file could not be located. -/
inductive ScriptError
  | duplicate (setup : Bool) (offset : Nat)
  | unclosed (offset : Nat)
deriving DecidableEq, Repr

namespace ScriptError

/-- Offset of the offending tag. -/
def offset : ScriptError → Nat
  | duplicate _ o => o
  | unclosed o => o

def message : ScriptError → String
  | duplicate false o =>
      s!"SFC can only contain one <script> block (duplicate at offset {o})"
  | duplicate true o =>
      s!"SFC can only contain one <script setup> block (duplicate at offset {o})"
  | unclosed o => s!"<script> block at offset {o} is never closed"

end ScriptError

/-- Where a script block stands in its file. -/
structure BlockRange where
  /-- Offset of the opening tag. -/
  tag : Nat
  content : Span
  setup : Bool
  /-- Where the value of `lang` stands. -/
  lang : Option Span
deriving DecidableEq, Repr

namespace BlockRange

/-- The block of an element at offset `pos`, at the front of `bs`. -/
def ofElement (bs : List UInt8) (pos tag content : Nat) : BlockRange :=
  let attrs := Piece.attributeText bs tag
  { tag := pos
    content := ⟨pos + tag, pos + tag + content⟩
    setup := hasSetup attrs
    lang := (langRange attrs).map (·.shift (pos + Mark.script.length)) }

end BlockRange

/-- The blocks found so far, followed by those of the text `bs` at `pos`. -/
def scan (pos : Nat) (bs : List UInt8) (found : List BlockRange) :
    Except ScriptError (List BlockRange) :=
  if _hbs : bs = [] then .ok found
  else
    match hp : Piece.front bs with
    | .openComment => .ok found
    | .unclosed => .error (.unclosed pos)
    | .element tag content =>
        let block := BlockRange.ofElement bs pos tag content
        if found.any (·.setup == block.setup) then
          .error (.duplicate block.setup pos)
        else
          let n := (Piece.element tag content).length
          scan (pos + n) (bs.drop n) (found ++ [block])
    | .comment n | .external n => scan (pos + n) (bs.drop n) found
    | .text => scan (pos + 1) (bs.drop 1) found
termination_by bs.length
decreasing_by
  all_goals
    have hlen : 0 < bs.length := List.length_pos_iff.2 _hbs
    have h := Piece.length_front_pos bs
    rw [hp] at h
    simp only [Piece.Stops, reduceCtorEq, or_false] at h
    simp only [Piece.length, List.length_drop] at *
    omega

/-- A `<script>` block: its text, and the byte offset of that text in the file. -/
structure ScriptBlock where
  content : String
  offset : Nat
  setup : Bool
  lang : Option String
deriving DecidableEq, Repr

namespace ScriptBlock

/-- Cut a block out of its file. -/
def ofRange (source : String) (r : BlockRange) : ScriptBlock where
  content := Text.slice source r.content.start r.content.stop
  offset := r.content.start
  setup := r.setup
  lang := r.lang.map fun l => Text.slice source l.start l.stop

def kind (b : ScriptBlock) : ScriptKind := .ofSetup b.setup

/-- The language of a block, by its `lang` attribute. -/
def dialect (b : ScriptBlock) : Syntax.Dialect :=
  match b.lang with
  | some "ts" | some "mts" | some "cts" => .ts
  | some "tsx" => .tsx
  | some "jsx" => .jsx
  | _ => .mjs

end ScriptBlock

/-- The script blocks of a single-file component, in order. -/
def extractScriptBlocks (source : String) : Except ScriptError (List ScriptBlock) :=
  (scan 0 (Text.bytes source) []).map fun ranges => ranges.map (ScriptBlock.ofRange source)

end EmitLint.Sfc
