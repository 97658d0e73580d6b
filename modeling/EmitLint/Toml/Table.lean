/-
# Tables of TOML

A document is a tree of tables.  How a table came about decides how it may
still grow: one with a header of its own, or written in braces, is complete
where it stands; one that only came along as the parent of another header
may still get a header; one that came along inside a dotted key may only get
further dotted keys.
-/

namespace EmitLint.Toml

/-- How a table came about. -/
inductive Form
  /-- Written in braces. -/
  | inline
  /-- Under a header of its own, or the document itself. -/
  | header
  /-- As the parent of a header. -/
  | implied
  /-- Inside a dotted key. -/
  | dotted
deriving DecidableEq, Repr

/-- A value, a table, or an array of tables. -/
inductive Item
  | text (value : String)
  /-- A number, a boolean, a date or a time. -/
  | scalar
  | array (items : List Item)
  | table (form : Form) (entries : List (String × Item))
  /-- Tables under headers in double brackets. -/
  | tables (all : List (List (String × Item)))
deriving Repr

/-- The entries of a table in the order in which their keys came. -/
abbrev Entries := List (String × Item)

namespace Entries

def get? (t : Entries) (key : String) : Option Item :=
  (t.find? fun e => e.1 = key).map (·.2)

/-- Put an item under a key, in the place of the former one if there is one. -/
def put (t : Entries) (key : String) (item : Item) : Entries :=
  match t with
  | [] => [(key, item)]
  | e :: rest => if e.1 = key then (key, item) :: rest else e :: put rest key item

def erase (t : Entries) (key : String) : Entries := t.filter fun e => e.1 ≠ key

/-- A dotted key may go on into a table of this form. -/
def acceptsDots : Form → Bool
  | .implied | .dotted => true
  | .inline | .header => false

/-- Add a key with the path before it to a table of a form.  The key must be
new, and the last table on the path must come from a dotted key. -/
def addKey (form : Form) (t : Entries) (path : List String) (key : String) (value : Item)
    (direct : Bool) : Option Entries :=
  match path with
  | [] =>
      if direct || form = .dotted then
        match t.get? key with
        | none => some (t ++ [(key, value)])
        | some _ => none
      else none
  | p :: rest =>
      match t.get? p with
      | none => do
          let child ← addKey .dotted [] rest key value false
          return t ++ [(p, .table .dotted child)]
      | some (.table childForm child) =>
          if acceptsDots childForm then do
            let child ← addKey childForm child rest key value false
            return t.put p (.table childForm child)
          else none
      | some (.tables all) => do
          let last ← all.getLast?
          let last ← addKey .header last rest key value false
          return t.put p (.tables (all.dropLast ++ [last]))
      | some _ => none

/-- Change the table that a header path leads to, making the tables on the
way as needed. -/
def atPath (t : Entries) (path : List String) (change : Entries → Option Entries) :
    Option Entries :=
  match path with
  | [] => change t
  | p :: rest =>
      match t.get? p with
      | none => do
          let child ← atPath [] rest change
          return t ++ [(p, .table .implied child)]
      | some (.table .inline _) => none
      | some (.table form child) => do
          let child ← atPath child rest change
          return t.put p (.table form child)
      | some (.tables all) => do
          let last ← all.getLast?
          let last ← atPath last rest change
          return t.put p (.tables (all.dropLast ++ [last]))
      | some _ => none

/-- Put the entries of a section under its header.  The name must be free,
or that of a table that came along as a parent; `fill` adds the section's
own entries to those already there. -/
def addSection (t : Entries) (path : List String) (key : String)
    (fill : Entries → Option Entries) : Option Entries :=
  t.atPath path fun parent =>
    match parent.get? key with
    | none => do return parent.put key (.table .header (← fill []))
    | some (.table .implied child) => do
        return (parent.erase key).put key (.table .header (← fill child))
    | some _ => none

/-- Append the entries of a section to an array of tables. -/
def addElement (t : Entries) (path : List String) (key : String)
    (fill : Entries → Option Entries) : Option Entries :=
  t.atPath path fun parent =>
    match parent.get? key with
    | none => do return parent.put key (.tables [← fill []])
    | some (.tables all) => do return parent.put key (.tables (all ++ [← fill []]))
    | some _ => none

end Entries
end EmitLint.Toml
