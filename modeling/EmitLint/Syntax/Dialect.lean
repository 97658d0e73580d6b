/-
# Dialects

What kind of script a text is: JavaScript or TypeScript, with JSX or
without, and how far it is known to be a module.
-/

namespace EmitLint.Syntax

/-- What a script is written in. -/
inductive Language
  | javaScript
  | typeScript
  /-- TypeScript that declares only. -/
  | definitions
deriving DecidableEq, Repr

/-- How far a text is known to be a module. -/
inductive ModuleKind
  | module
  /-- A module exactly if it imports or exports. -/
  | unambiguous
  | commonJs
deriving DecidableEq, Repr

/-- The kind of script that a text is. -/
structure Dialect where
  language : Language
  hasJsx : Bool
  modules : ModuleKind
deriving DecidableEq, Repr

namespace Dialect

def ts : Dialect := ⟨.typeScript, false, .unambiguous⟩
def tsx : Dialect := ⟨.typeScript, true, .unambiguous⟩
def mjs : Dialect := ⟨.javaScript, false, .module⟩
def jsx : Dialect := ⟨.javaScript, true, .module⟩

/-- There are types in the script. -/
def isTyped (d : Dialect) : Bool := d.language != .javaScript

/-- The short name of the four dialects that a component file can ask for. -/
def name (d : Dialect) : String :=
  match d.isTyped, d.hasJsx with
  | true, true => "tsx"
  | true, false => "ts"
  | false, true => "jsx"
  | false, false => "mjs"

end Dialect
end EmitLint.Syntax
