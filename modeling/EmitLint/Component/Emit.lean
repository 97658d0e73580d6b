/-
# Declared emits

Both ways to declare emits come down to one record per declaration: in an
array each element declares one, in an object each property does.  What
cannot be read without running the script leaves a record without a name or
without a value; no declaration is left out.
-/
import EmitLint.Component.Site

namespace EmitLint.Component

open Syntax

/-- The declaration of one emit. -/
structure Emit where
  /-- The name, if it is known without running the script. -/
  name : Option String
  /-- The identifier that an array element is. -/
  anchor : Option String
  /-- The declared value without its wrappers; an array element has none. -/
  value : Option Expr
  /-- Where the array element or the property stands. -/
  span : Span

namespace Emit

/-- The name of an emit whose name is not known. -/
def unknown : String := "Unknown emit"

/-- The name to show. -/
def displayName (e : Emit) : String := (e.name.or e.anchor).getD unknown

end Emit

/-- The text that an expression stands for, if it is a string, a number or a
template without substitutions. -/
def literalText? : Expr → Option String
  | .string _ value => some value
  | .number _ text => some text
  | .template _ head [] => head
  | _ => none

/-- The name that a key stands for, if it is known. -/
def keyName? : Key → Option String
  | .name _ text => some text
  | .privateName .. => none
  | .expr _ e => literalText? e

/-- The emit that an array element declares; a hole declares none. -/
def elementEmit? : Element → Option Emit
  | .hole _ => none
  | .spread s _ => some ⟨none, none, none, s⟩
  | .item (.string s value) => some ⟨some value, none, none, s⟩
  | .item (.template s head []) => some ⟨head, none, none, s⟩
  | .item (.name s text) => some ⟨none, some text, none, s⟩
  | .item e => some ⟨none, none, none, e.span⟩

/-- The emit that a property declares. -/
def propertyEmit : Property → Emit
  | .entry s key value => ⟨keyName? key, none, some value.unwrap, s⟩
  | .spread s _ => ⟨none, none, none, s⟩

/-- The emits of a definition: the value of an `emits` property, or the
argument of the macro. -/
def definitionEmits (e : Expr) : List Emit :=
  match e.unwrap with
  | .array _ elements => elements.filterMap elementEmit?
  | .object _ properties => properties.map propertyEmit
  | _ => []

/-- The value of a property called `emits`. -/
def emitsValue? : Property → Option Expr
  | .entry _ key value => if keyName? key = some "emits" then some value else none
  | .spread .. => none

/-- The definition that a site holds: of an options object the first
property called `emits`, of the macro its first argument. -/
def Site.definition? : Site → Option Expr
  | .options _ properties => properties.findSome? emitsValue?
  | .emitsCall _ true _ => none
  | .emitsCall _ false (.item e :: _) => some e
  | .emitsCall _ false _ => none

/-- The emits declared at a site, in order. -/
def Site.emits (s : Site) : List Emit :=
  match s.definition? with
  | some e => definitionEmits e
  | none => []

end EmitLint.Component
