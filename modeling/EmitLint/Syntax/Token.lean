/-
# Tokens of scripts

One token at a time is taken off the front of a text.  A token knows the
place where it starts, because what follows a slash, a quote of a template
or a sign of a type can only be told by who asks for it; such a token is
then read again from there.

Words are identifiers and keywords alike.  Of `>` only one is taken at a
time.  A script ends where its text ends, or where the text makes no token.
-/
import EmitLint.Syntax.Letter
import EmitLint.Syntax.Numeral
import EmitLint.Syntax.Place
import EmitLint.Syntax.Quoted
import EmitLint.Text.Offset

namespace EmitLint.Syntax

namespace Token

/-- The kinds of tokens. -/
inductive Kind
  | endOfText
  | word
  | privateName
  | punctuator
  | string
  | number
  | bigint
  /-- A number that lacks the digits of its exponent; no rule takes it. -/
  | unfinished
  /-- The opening quote of a template. -/
  | template
deriving DecidableEq, Repr

end Token

/-- A token. -/
structure Token where
  kind : Token.Kind
  /-- A word or name with its escapes replaced, a punctuator as it is written,
  the value of a string, or the text of a number. -/
  text : String
  place : Place
  /-- The offset behind the token. -/
  stop : Nat
  /-- A line end stands in front of it. -/
  newline : Bool

namespace Token

/-- Where the token starts. -/
def start (t : Token) : Nat := t.place.offset

def span (t : Token) : Span := ⟨t.start, t.stop⟩

/-- The word is written with an escape. -/
def isEscaped (t : Token) : Bool := t.stop - t.start ≠ t.text.utf8ByteSize

/-- Words that never are identifiers. -/
def reserved : List String :=
  ["break", "case", "catch", "class", "const", "continue", "debugger", "default", "delete", "do",
    "else", "enum", "export", "extends", "false", "finally", "for", "function", "if", "import",
    "in", "instanceof", "new", "null", "return", "super", "switch", "this", "throw", "true",
    "try", "typeof", "var", "void", "while", "with"]

/-- Words that are identifiers but have a meaning somewhere in the grammar. -/
def contextual : List String :=
  ["abstract", "accessor", "any", "as", "assert", "asserts", "async", "await", "bigint", "boolean",
    "constructor", "declare", "defer", "from", "get", "global", "implements", "infer", "interface",
    "intrinsic", "is", "keyof", "let", "meta", "module", "namespace", "never", "number", "object",
    "of", "out", "override", "package", "private", "protected", "public", "readonly", "require",
    "satisfies", "set", "source", "static", "string", "symbol", "target", "type", "undefined",
    "unique", "unknown", "using", "yield"]

/-- The token is the word or the punctuator. -/
def spells (t : Token) (text : String) : Bool :=
  (t.kind == .word || t.kind == .punctuator) && t.text == text

/-- The token is one of the words or punctuators. -/
def isOneOf (t : Token) (texts : List String) : Bool :=
  (t.kind == .word || t.kind == .punctuator) && texts.contains t.text

/-- The token can stand for a variable. -/
def isIdentifier (t : Token) : Bool := t.kind == .word && !reserved.contains t.text

/-- The token can stand for a variable and has no other meaning anywhere. -/
def isPlainName (t : Token) : Bool := t.isIdentifier && !contextual.contains t.text

/-- The token is a literal that is written in one piece. -/
def isLiteral (t : Token) : Bool :=
  t.kind == .string || t.kind == .number || t.kind == .bigint ||
    t.isOneOf ["null", "true", "false"]

/-- A token with the place behind it; a `fault` is something that should not
be written so, though it is clear what it means. -/
structure Scan where
  token : Token
  next : Place
  fault : Bool

/-! ## Words -/

/-- A word at the front of a text. -/
structure WordScan where
  letters : List Char
  rest : List Char
  /-- Some escape stands for nothing that can be there. -/
  fault : Bool

/-- The character that the escape behind a backslash in a word stands for, if
it can be there, and the text behind it. -/
def wordEscape (first : Bool) : List Char → Option Char × List Char
  | [] => (none, [])
  | c :: cs =>
      if c = 'u' then
        let (n?, rest) := Quoted.unicodeNumber cs
        let paired := cs.head? ≠ some '\x7b' && n?.any (0xFFFF < ·)
        let c? := if paired then none else n?.bind Text.charOf?
        (c?.filter (if first then isIdentifierStart else isIdentifierPart), rest)
      else (none, cs)

/-- A word with escapes; at most `fuel` characters and escapes are read. -/
def escapedWord (first : Bool) : Nat → List Char → WordScan
  | 0, cs => ⟨[], cs, false⟩
  | _ + 1, [] => ⟨[], [], false⟩
  | fuel + 1, c :: cs =>
      if c = '\\' then
        let (c?, rest) := wordEscape first cs
        let w := escapedWord false fuel rest
        ⟨c?.toList ++ w.letters, w.rest, w.fault || c?.isNone⟩
      else if isIdentifierPart c then
        let w := escapedWord false fuel cs
        { w with letters := c :: w.letters }
      else ⟨[], c :: cs, false⟩

/-! ## Punctuators -/

/-- Punctuators, longer ones before shorter ones. -/
def punctuators : List (List Char × String) :=
  ["...", "===", "!==", "**=", "<<=", "&&=", "||=", "??=", "=>", "==", "!=", "++", "--", "+=",
    "-=", "*=", "/=", "%=", "&=", "|=", "^=", "**", "&&", "||", "??", "?.", "<=", "<<", "\x7b",
    "\x7d", "(", ")", "[", "]", ";", ",", "~", ":", "@", ".", "?", "=", "!", "+", "-", "*", "/",
    "%", "&", "|", "^", "<", ">"].map fun s => (s.toList, s)

/-- The punctuator at the front of a text.  A question mark before a decimal
number stands by itself. -/
def punctuator? (cs : List Char) : Option (List Char × String) :=
  match cs with
  | '?' :: '.' :: c :: _ =>
      if c.isDigit then some (['?'], "?") else some (['?', '.'], "?.")
  | _ => punctuators.find? fun p => p.1.isPrefixOf cs

/-- The place behind the text `cs`, where `rest` stands. -/
def behind (p : Place) (cs rest : List Char) : Place := ⟨rest, p.offset + Text.byteLength cs⟩

/-- A token that ends at a place. -/
def upTo (kind : Kind) (text : String) (p next : Place) (newline : Bool) (fault : Bool) : Scan :=
  ⟨⟨kind, text, p, next.offset, newline⟩, next, fault⟩

/-- The end of a script where the text makes no token. -/
def noToken (p : Place) (newline : Bool) : Scan := upTo .endOfText "" p p newline true

/-- A word, or the name behind the number sign. -/
def scanWord (kind : Kind) (p letters : Place) (newline : Bool) : Scan :=
  let (w, rest) := letters.rest.span isIdentifierPart
  if rest.head? = some '\\' then
    let w := escapedWord true letters.rest.length letters.rest
    let length := Text.byteLength letters.rest - Text.byteLength w.rest
    upTo kind (String.ofList w.letters) p ⟨w.rest, letters.offset + length⟩ newline w.fault
  else upTo kind (String.ofList w) p (behind letters w rest) newline false

/-- A number. -/
def scanNumeral (p : Place) (newline : Bool) : Scan :=
  match Numeral.read p.rest with
  | none => noToken p newline
  | some n =>
      let next := behind p n.written n.rest
      match n.value with
      | .decimal text => upTo .number text p next newline n.fault
      | .big => upTo .bigint "" p next newline n.fault
      | .unfinished => upTo .unfinished "" p next newline n.fault

/-- A string. -/
def scanString (quote : Char) (p : Place) (newline : Bool) : Scan :=
  match Quoted.body? quote false p.next.rest with
  | some (raw, rest) =>
      let (value, fault) := Quoted.stringValue raw
      upTo .string value p ⟨rest, p.offset + 2 + Text.byteLength raw⟩ newline fault
  | none => noToken p newline

/-- The token at a place where no gap is. -/
def scanAt (p : Place) (newline : Bool) : Scan :=
  let startsWord := fun (c : Char) => isIdentifierStart c || c = '\\'
  match p.rest with
  | [] => upTo .endOfText "" p p newline false
  | c :: cs =>
      if startsWord c then scanWord .word p p newline
      else if c = '#' then
        if cs.head?.any startsWord then scanWord .privateName p p.next newline
        else noToken p newline
      else if c.isDigit || (c = '.' && cs.head?.any Char.isDigit) then scanNumeral p newline
      else if c = '"' || c = '\'' then scanString c p newline
      else if c = '`' then
        if (Quoted.piece? false cs).isSome then upTo .template "`" p p.next newline false
        else noToken p newline
      else
        match punctuator? p.rest with
        | some (cs, text) => upTo .punctuator text p (p.drop cs.length) newline false
        | none => noToken p newline

/-- The token behind the gap at a place; `newline` tells whether a line starts
there. -/
def scan (isModule newline : Bool) (p : Place) : Scan :=
  let gap := Gap.at isModule newline p
  let s := scanAt gap.stop gap.newline
  { s with fault := s.fault || gap.fault }

end Token
end EmitLint.Syntax
