/-
# Files as they are written

A single-file component as it is put together: gaps, comments, `<script … />`
tags and elements, each with what keeps it from being taken for something else.
`Part.written` is the text of a part, and `blocksFrom` are the blocks that a
reader of the parts would name, with the offsets at which their texts stand.
-/
import EmitLint.Sfc.Block
import EmitLint.Text.Occurs

namespace EmitLint.Sfc.Written

open Text (byteLength)

/-- What may stand in front of an attribute. -/
def gaps : List Char := [' ', '\t', '\n', '\r']

/-- The white space of ASCII. -/
def spaces : List Char := [' ', '\t', '\n', '\x0c', '\r']

/-- The text is of these characters only. -/
def Only (allowed text : List Char) : Prop := ∀ c ∈ text, c ∈ allowed

/-- The text has none of these characters. -/
def Without (barred text : List Char) : Prop := ∀ c ∈ text, c ∉ barred

instance (allowed text : List Char) : Decidable (Only allowed text) :=
  List.decidableBAll (· ∈ allowed) text

instance (barred text : List Char) : Decidable (Without barred text) :=
  List.decidableBAll (· ∉ barred) text

/-- The text is `word`, a text of small letters, in some letter case. -/
def Spells (word : String) (text : List Char) : Prop := text.map Char.toLower = word.toList

instance (word : String) (text : List Char) : Decidable (Spells word text) :=
  inferInstanceAs (Decidable (_ = _))

/-! ## Attributes -/

/-- The value of an attribute, in quotes or bare. -/
inductive Value
  | double (text : List Char) (closed : '\x22' ∉ text := by decide)
  | single (text : List Char) (closed : '\x27' ∉ text := by decide)
  | bare (text : List Char) (nonempty : text ≠ [] := by decide)
      (plain : Without (spaces ++ ['\x22', '\x27', '>']) text := by decide)

namespace Value

def text : Value → List Char
  | double text _ | single text _ | bare text .. => text

def written : Value → List Char
  | double text _ => '\x22' :: text ++ ['\x22']
  | single text _ => '\x27' :: text ++ ['\x27']
  | bare text .. => text

def quoted : Value → Bool
  | double .. | single .. => true
  | bare .. => false

end Value

structure Attribute where
  gap : List Char
  name : List Char
  value : Option Value
  gap_ne_nil : gap ≠ [] := by decide
  gap_blank : Only gaps gap := by decide
  name_ne_nil : name ≠ [] := by decide
  name_plain : Without (spaces ++ ['\x22', '\x27', '=', '/', '<', '>']) name := by decide

namespace Attribute

/-- The attribute behind its name. -/
def writtenValue (a : Attribute) : List Char :=
  match a.value with
  | none => []
  | some v => '=' :: v.written

def written (a : Attribute) : List Char := a.gap ++ (a.name ++ a.writtenValue)

def named (word : String) (a : Attribute) : Bool := decide (Spells word a.name)

end Attribute

/-! ## Tags and parts -/

/-- The opening tag of a script: its name and its attributes. -/
structure Tag where
  name : List Char
  attributes : List Attribute
  spells : Spells "script" name := by decide

namespace Tag

def attributeText (t : Tag) : List Char := t.attributes.flatMap Attribute.written

/-- The tag up to the end of its attributes. -/
def front (t : Tag) : List Char := '<' :: t.name ++ t.attributeText

/-- All values of the tag are in quotes. -/
def Quoted (t : Tag) : Prop := ∀ a ∈ t.attributes, a.value.all Value.quoted = true

instance (t : Tag) : Decidable t.Quoted :=
  List.decidableBAll (fun a : Attribute => a.value.all Value.quoted = true) t.attributes

/-- Some attribute is called `setup`. -/
def setup (t : Tag) : Bool := t.attributes.any (·.named "setup")

/-- The value of the last attribute that is called `lang`, if that one has a value. -/
def lang (t : Tag) : Option String :=
  match t.attributes.reverse.find? (·.named "lang") with
  | some a => a.value.map fun v => String.ofList v.text
  | none => none

end Tag

/-- The closing tag of a script. -/
def closing (name : List Char) : List Char := "</".toList ++ (name ++ ['>'])

/-- What a file is put together from. -/
inductive Part
  | gap (text : List Char) (plain : '<' ∉ text := by decide)
  | comment (body : List Char)
      (closed : Text.occursIn "-->".toList body = false := by decide)
  | external (tag : Tag)
  | element (tag : Tag) (content close : List Char)
      (opened : tag.attributeText.getLast? ≠ some '/' := by decide)
      (closed : Text.occursIn "</script>".toList (content.map Char.toLower) = false := by decide)
      (spells : Spells "script" close := by decide)

namespace Part

def written : Part → List Char
  | gap text _ => text
  | comment body _ => "<!--".toList ++ (body ++ "-->".toList)
  | external tag => tag.front ++ "/>".toList
  | element tag content close .. =>
      tag.front ++ '>' :: (content ++ closing close)

/-- The block of a part that stands at `offset`. -/
def block? (offset : Nat) : Part → Option ScriptBlock
  | element tag content .. =>
      some ⟨String.ofList content, offset + byteLength tag.front + 1, tag.setup, tag.lang⟩
  | _ => none

/-- The flag of an element. -/
def setup? : Part → Option Bool
  | element tag .. => some tag.setup
  | _ => none

end Part

/-! ## Files -/

/-- The text of the parts, one behind the other. -/
def written (parts : List Part) : List Char := parts.flatMap Part.written

/-- The blocks of the parts, the first of which stands at `offset`. -/
def blocksFrom (offset : Nat) : List Part → List ScriptBlock
  | [] => []
  | p :: parts =>
      (p.block? offset).toList ++ blocksFrom (offset + byteLength p.written) parts

/-- The flags of the elements. -/
def setups (parts : List Part) : List Bool := parts.filterMap Part.setup?

end EmitLint.Sfc.Written
