/-
# The words of TOML

Blanks, line ends, comments, strings and keys.  A reader takes text off the
front and gives what it read; `none` means that the text is no TOML, and it
is never asked why.
-/
import EmitLint.Text.Digit

namespace EmitLint.Toml

/-- What reads from the front of a text. -/
abbrev Reader (α : Type) := StateT (List Char) Option α

def isBlank (c : Char) : Bool := c = ' ' || c = '\t'

/-- What a comment may hold: no control character but the tab. -/
def isCommentChar (c : Char) : Bool := c = '\t' || (' ' ≤ c && c ≠ '\x7f')

/-- What stands for itself in a quoted string. -/
def isBasicChar (c : Char) : Bool := isCommentChar c && c ≠ '"' && c ≠ '\\'

/-- What a string in single quotes may hold. -/
def isLiteralChar (c : Char) : Bool := isCommentChar c && c ≠ '\''

def isBareKeyChar (c : Char) : Bool := c.isAlphanum || c = '_' || c = '-'

/-- Take the given characters. -/
def word (w : List Char) : Reader Unit := do
  let cs ← get
  if w.isPrefixOf cs then set (cs.drop w.length) else failure

/-- The characters at the front for which `p` holds. -/
def takeWhile (p : Char → Bool) : Reader (List Char) := do
  let cs ← get
  set (cs.dropWhile p)
  return cs.takeWhile p

def blanks : Reader Unit := do let _ ← takeWhile isBlank

/-- The text without a line end at its front, if it has one there. -/
def dropLineEnd? : List Char → Option (List Char)
  | '\n' :: rest => some rest
  | '\r' :: '\n' :: rest => some rest
  | _ => none

def comment : Reader Unit := do
  if (← get).head? = some '#' then
    let _ ← takeWhile isCommentChar

/-- What may follow a statement on its line: blanks, a comment, and the line
end or the end of the text. -/
def lineTrailing : Reader Unit := do
  blanks
  comment
  match ← get with
  | [] => return ()
  | cs =>
      match dropLineEnd? cs with
      | some rest => set rest
      | none => failure

/-- Skip blanks, comments and line ends. -/
def skipLayout : Nat → List Char → Option (List Char)
  | 0, _ => none
  | fuel + 1, cs =>
      match cs.dropWhile isBlank with
      | [] => some []
      | '#' :: rest =>
          match rest.dropWhile isCommentChar with
          | [] => some []
          | after => (dropLineEnd? after).bind (skipLayout fuel)
      | after =>
          match dropLineEnd? after with
          | some rest => skipLayout fuel rest
          | none => some after

/-- Blanks, comments and line ends between the elements of an array. -/
def layout : Reader Unit := do
  match skipLayout ((← get).length + 1) (← get) with
  | some rest => set rest
  | none => failure

/-! ## Strings -/

/-- The number written in exactly `count` hexadecimal digits. -/
def hexNumber : Nat → Nat → List Char → Option (Nat × List Char)
  | 0, acc, cs => some (acc, cs)
  | count + 1, acc, c :: cs => do
      let d ← Text.hexDigit? c
      hexNumber count (acc * 16 + d) cs
  | _ + 1, _, [] => none

/-- The character that an escape stands for, read behind its backslash. -/
def escape : List Char → Option (Char × List Char)
  | 'b' :: rest => some ('\x08', rest)
  | 't' :: rest => some ('\t', rest)
  | 'n' :: rest => some ('\n', rest)
  | 'f' :: rest => some ('\x0c', rest)
  | 'r' :: rest => some ('\r', rest)
  | '"' :: rest => some ('"', rest)
  | '\\' :: rest => some ('\\', rest)
  | 'u' :: rest => do
      let (n, rest) ← hexNumber 4 0 rest
      return (← Text.charOf? n, rest)
  | 'U' :: rest => do
      let (n, rest) ← hexNumber 8 0 rest
      return (← Text.charOf? n, rest)
  | _ => none

/-- A quoted string behind its opening quote; `fuel` bounds its length. -/
def basicBody : Nat → List Char → Option (List Char × List Char)
  | 0, _ => none
  | fuel + 1, cs =>
      match cs with
      | '"' :: rest => some ([], rest)
      | '\\' :: rest => do
          let (c, rest) ← escape rest
          let (body, rest) ← basicBody fuel rest
          return (c :: body, rest)
      | c :: rest =>
          if isBasicChar c then do
            let (body, rest) ← basicBody fuel rest
            return (c :: body, rest)
          else none
      | [] => none

/-- A string in single quotes behind its opening quote. -/
def literalBody : List Char → Option (List Char × List Char)
  | [] => none
  | '\'' :: rest => some ([], rest)
  | c :: rest =>
      if isLiteralChar c then do
        let (body, rest) ← literalBody rest
        return (c :: body, rest)
      else none

/-- Split a run of `quote` at the front: its length up to five, and the rest
behind that many. -/
def quoteRun (quote : Char) (cs : List Char) : Nat × List Char :=
  let n := min 5 (cs.takeWhile (· = quote)).length
  (n, cs.drop n)

/-- Blanks and line ends behind a backslash at the end of a line. -/
def skipFolded : Nat → List Char → List Char
  | 0, cs => cs
  | fuel + 1, cs =>
      match cs with
      | ' ' :: rest | '\t' :: rest => skipFolded fuel rest
      | _ =>
          match dropLineEnd? cs with
          | some rest => skipFolded fuel rest
          | none => cs

/-- The text behind a folded line end, if only blanks stand before it. -/
def foldedLine? (cs : List Char) : Option (List Char) :=
  (dropLineEnd? (cs.dropWhile isBlank)).map fun rest => skipFolded rest.length rest

/-- A string of several lines behind its opening quotes.  One or two quotes
inside it stand for themselves, and up to two may stand right before the
three that close it. -/
def multiLineBody (quote : Char) (isPlain : Char → Bool) (escapes : Bool) :
    Nat → List Char → Option (List Char × List Char)
  | 0, _ => none
  | fuel + 1, cs =>
      match cs with
      | [] => none
      | c :: rest =>
          if c = quote then
            let (n, after) := quoteRun quote cs
            if 3 ≤ n then some (List.replicate (n - 3) quote, after)
            else if after.isEmpty then none
            else do
              let (body, rest) ← multiLineBody quote isPlain escapes fuel after
              return (List.replicate n quote ++ body, rest)
          else if escapes && c = '\\' then
            match foldedLine? rest with
            | some after => multiLineBody quote isPlain escapes fuel after
            | none => do
                let (c, rest) ← escape rest
                let (body, rest) ← multiLineBody quote isPlain escapes fuel rest
                return (c :: body, rest)
          else
            match dropLineEnd? cs with
            | some after => do
                let (body, rest) ← multiLineBody quote isPlain escapes fuel after
                return ('\n' :: body, rest)
            | none =>
                if isPlain c then do
                  let (body, rest) ← multiLineBody quote isPlain escapes fuel rest
                  return (c :: body, rest)
                else none

/-- A string of one line, behind its opening quote. -/
def oneLine (quote : Char) (cs : List Char) : Option (List Char × List Char) :=
  if quote = '"' then basicBody (cs.length + 1) cs else literalBody cs

/-- A string of several lines, behind its three opening quotes.  A line end
right there is not part of it. -/
def multiLine (quote : Char) (cs : List Char) : Option (List Char × List Char) :=
  let cs := (dropLineEnd? cs).getD cs
  if quote = '"' then multiLineBody quote isBasicChar true (cs.length + 1) cs
  else multiLineBody quote isLiteralChar false (cs.length + 1) cs

/-- A string of any of the four kinds. -/
def string : Reader String := do
  let found := match ← get with
    | '"' :: '"' :: '"' :: rest => multiLine '"' rest
    | '\'' :: '\'' :: '\'' :: rest => multiLine '\'' rest
    | '"' :: rest => oneLine '"' rest
    | '\'' :: rest => oneLine '\'' rest
    | _ => none
  match found with
  | some (body, rest) => do set rest; return String.ofList body
  | none => failure

/-! ## Keys -/

/-- A key without dots. -/
def simpleKey : Reader String := do
  match ← get with
  | '"' :: rest | '\'' :: rest =>
      let quote := (← get).head?.getD '"'
      match oneLine quote rest with
      | some (body, rest) => do set rest; return String.ofList body
      | none => failure
  | _ =>
      let name ← takeWhile isBareKeyChar
      if name.isEmpty then failure
      return String.ofList name

/-- The parts of a dotted key. -/
def keyParts : Nat → Reader (List String)
  | 0 => failure
  | fuel + 1 => do
      blanks
      let part ← simpleKey
      blanks
      match ← get with
      | '.' :: rest => do
          set rest
          return part :: (← keyParts fuel)
      | _ => return [part]

/-- How deep keys and values may nest. -/
def depthLimit : Nat := 80

/-- A key with its dots, as a path and its last part. -/
def key : Reader (List String × String) := do
  let parts ← keyParts (depthLimit - 1)
  match parts.getLast? with
  | some last => return (parts.dropLast, last)
  | none => failure

end EmitLint.Toml
