/-
# Reading a TOML document

Values, then lines: `key = value`, `[header]`, `[[header]]`.  The lines up to
the next header form a section; sections go into the tree one by one.
-/
import EmitLint.Toml.Scalar
import EmitLint.Toml.Table

namespace EmitLint.Toml

/-! ## Values -/

/-- Fold the pairs of a table in braces. -/
def inlineEntries (pairs : List ((List String × String) × Item)) : Option Entries :=
  pairs.foldlM (fun t p => t.addKey .inline p.1.1 p.1.2 p.2 true) []

mutual

/-- A value; `depth` bounds how deep arrays and tables nest, `fuel` how many
parts they have. -/
def value (depth : Nat) : Nat → Reader Item
  | 0 => failure
  | fuel + 1 => do
      match ← get with
      | '"' :: _ | '\'' :: _ => return .text (← string)
      | '[' :: rest =>
          if depth = 0 then failure
          set rest
          layout
          match ← get with
          | ']' :: rest => do set rest; return .array []
          | _ => return .array (← elements (depth - 1) fuel)
      | '{' :: rest =>
          if depth = 0 then failure
          set rest
          blanks
          match ← get with
          | '}' :: rest => do set rest; return .table .inline []
          | _ =>
              match inlineEntries (← pairs (depth - 1) fuel) with
              | some t => return .table .inline t
              | none => failure
      | cs =>
          match Scalar.read cs with
          | some rest => do set rest; return .scalar
          | none => failure

/-- The elements of an array from here to its bracket. -/
def elements (depth : Nat) : Nat → Reader (List Item)
  | 0 => failure
  | fuel + 1 => do
      let first ← value depth fuel
      layout
      match ← get with
      | ']' :: rest => do set rest; return [first]
      | ',' :: rest =>
          set rest
          layout
          match ← get with
          | ']' :: rest => do set rest; return [first]
          | _ => return first :: (← elements depth fuel)
      | _ => failure

/-- The pairs of a table in braces from here to its brace. -/
def pairs (depth : Nat) : Nat → Reader (List ((List String × String) × Item))
  | 0 => failure
  | fuel + 1 => do
      let name ← key
      word ['=']
      blanks
      let item ← value depth fuel
      blanks
      match ← get with
      | '}' :: rest => do set rest; return [(name, item)]
      | ',' :: rest => do set rest; return (name, item) :: (← pairs depth fuel)
      | _ => failure

end

/-! ## Lines -/

/-- A line that says something. -/
inductive Line
  | pair (path : List String) (key : String) (value : Item)
  | header (path : List String) (key : String)
  | element (path : List String) (key : String)
deriving Repr

/-- One such line, with what trails it. -/
def line : Reader Line := do
  let found ← match ← get with
    | '[' :: '[' :: rest => do
        set rest
        let (path, name) ← key
        word [']', ']']
        pure (Line.element path name)
    | '[' :: rest => do
        set rest
        let (path, name) ← key
        word [']']
        pure (Line.header path name)
    | _ => do
        let (path, name) ← key
        word ['=']
        blanks
        pure (Line.pair path name (← value (depthLimit - 1) (2 * (← get).length + 2)))
  lineTrailing
  return found

/-- The lines of a document. -/
def lines : Nat → Reader (List Line)
  | 0 => failure
  | fuel + 1 => do
      layout
      match ← get with
      | [] => return []
      | _ => return (← line) :: (← lines fuel)

/-! ## Sections -/

/-- Where the lines of a section go. -/
inductive Target
  | root
  | table (path : List String) (key : String)
  | element (path : List String) (key : String)
deriving Repr

/-- A header with the pairs under it. -/
structure Section where
  target : Target
  pairs : List (List String × String × Item)
deriving Repr

/-- Split lines at their headers. -/
def sections (target : Target) (pairs : List (List String × String × Item)) :
    List Line → List Section
  | [] => [⟨target, pairs⟩]
  | .pair path key value :: rest => sections target (pairs ++ [(path, key, value)]) rest
  | .header path key :: rest => ⟨target, pairs⟩ :: sections (.table path key) [] rest
  | .element path key :: rest => ⟨target, pairs⟩ :: sections (.element path key) [] rest

/-- Add the pairs of a section to a table. -/
def Section.fill (s : Section) (t : Entries) : Option Entries :=
  s.pairs.foldlM (fun t p => t.addKey .header p.1 p.2.1 p.2.2 true) t

/-- Put a section into the document. -/
def Section.addTo (s : Section) (root : Entries) : Option Entries :=
  match s.target with
  | .root => s.fill root
  | .table path key => root.addSection path key s.fill
  | .element path key => root.addElement path key s.fill

/-- The tree of a document; `none` when the text is no TOML. -/
def read (text : String) : Option Entries := do
  let cs := match text.toList with
    | '\ufeff' :: rest => rest
    | cs => cs
  let (found, _) ← (lines (cs.length + 1)).run cs
  (sections .root [] found).foldlM (fun root s => s.addTo root) []

end EmitLint.Toml
