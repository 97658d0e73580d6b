/-
# Places in a script

A place is the text from somewhere on with the byte offset at which that
stands.  Between two tokens lies a `Gap`: blanks, line ends and comments.

A gap is skipped one character at a time by a machine that remembers what it
is in (`GapState`).  Anything behind `<!--` on a line is a comment too, and
so is a line that starts with `-->`, unless the text is a module.  A module
should not have the former either, which is a `fault`, and so is a comment
that the text ends in.
-/
import EmitLint.Text.Span

namespace EmitLint.Syntax

/-- The text from a byte offset on. -/
structure Place where
  rest : List Char
  offset : Nat
deriving Inhabited

namespace Place

/-- The start of a text. -/
def first (text : String) : Place := ⟨text.toList, 0⟩

/-- The place behind the next character. -/
def next (p : Place) : Place :=
  match p.rest with
  | [] => p
  | c :: rest => ⟨rest, p.offset + c.utf8Size⟩

/-- The place behind so many characters. -/
def drop (p : Place) : Nat → Place
  | 0 => p
  | n + 1 => p.next.drop n

/-- The text goes on with a word. -/
def startsWith (p : Place) (word : String) : Bool := word.toList.isPrefixOf p.rest

end Place

/-- A character that ends a line. -/
def isLineEnd (c : Char) : Bool :=
  c = '\n' || c = '\r' || c = '\u2028' || c = '\u2029'

/-- A blank. -/
def isBlank (c : Char) : Bool :=
  c = ' ' || c = '\t' || c = '\x0b' || c = '\x0c' || c = '\u0085' || c = '\u00a0' ||
    c = '\u1680' || c = '\u180e' || ('\u2000' ≤ c && c ≤ '\u200b') || c = '\u202f' ||
    c = '\u205f' || c = '\u3000' || c = '\ufeff'

/-- What lies between two tokens. -/
structure Gap where
  /-- The place behind it. -/
  stop : Place
  /-- It holds a line end, or stands at the start of the text. -/
  newline : Bool
  fault : Bool

/-- What a gap is in at some character. -/
inductive GapState
  | blank
  | line
  /-- Behind the slash that opens a comment. -/
  | opening
  | block
  /-- Behind the star that closes a comment. -/
  | closing
deriving DecidableEq

namespace GapState

/-- The comment that begins at a character which neither is a blank nor ends a
line.  The flag tells whether the comment is one that modules should not
have. -/
def comment? (isModule newline : Bool) (cs : List Char) : Option (GapState × Bool) :=
  match cs with
  | '/' :: '/' :: _ => some (.line, false)
  | '/' :: '*' :: _ => some (.opening, false)
  | '<' :: '!' :: '-' :: '-' :: _ => some (.line, true)
  | '-' :: '-' :: '>' :: _ => if newline && !isModule then some (.line, true) else none
  | _ => none

/-- Skip a gap, from the state that it is in. -/
def skip (isModule : Bool) (newline fault : Bool) : GapState → List Char → Nat → Gap
  | .opening, [], n | .block, [], n | .closing, [], n => ⟨⟨[], n⟩, newline, true⟩
  | .blank, [], n | .line, [], n => ⟨⟨[], n⟩, newline, fault⟩
  | .opening, c :: cs, n => skip isModule newline fault .block cs (n + c.utf8Size)
  | .closing, c :: cs, n => skip isModule newline fault .blank cs (n + c.utf8Size)
  | .line, c :: cs, n =>
      if isLineEnd c then skip isModule true fault .blank cs (n + c.utf8Size)
      else skip isModule newline fault .line cs (n + c.utf8Size)
  | .block, c :: cs, n =>
      if c = '*' && cs.head? = some '/' then
        skip isModule newline fault .closing cs (n + c.utf8Size)
      else skip isModule (newline || isLineEnd c) fault .block cs (n + c.utf8Size)
  | .blank, c :: cs, n =>
      if isLineEnd c then skip isModule true fault .blank cs (n + c.utf8Size)
      else if isBlank c then skip isModule newline fault .blank cs (n + c.utf8Size)
      else
        match comment? isModule newline (c :: cs) with
        | some (state, script) =>
            skip isModule newline (fault || (script && isModule)) state cs (n + c.utf8Size)
        | none => ⟨⟨c :: cs, n⟩, newline, fault⟩

end GapState

/-- The gap at a place; `newline` tells whether a line starts there. -/
def Gap.at (isModule newline : Bool) (p : Place) : Gap :=
  GapState.skip isModule newline false .blank p.rest p.offset

end EmitLint.Syntax
