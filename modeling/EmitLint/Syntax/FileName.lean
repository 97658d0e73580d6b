/-
# What a file name tells about a script

`Dialect.ofFilename?` reads the dialect off the extension of a file.  A linter
is given such a function, and has an answer of its own for names that tell
nothing.
-/
import EmitLint.Syntax.Dialect
import EmitLint.Text.Path

namespace EmitLint.Syntax.Dialect

/-- The dialect that a file extension stands for. -/
def ofExtension? : String → Option Dialect
  | "js" => some ⟨.javaScript, false, .unambiguous⟩
  | "cjs" => some ⟨.javaScript, false, .commonJs⟩
  | "mjs" => some mjs
  | "jsx" => some ⟨.javaScript, true, .unambiguous⟩
  | "ts" => some ts
  | "cts" => some ⟨.typeScript, false, .commonJs⟩
  | "mts" => some ⟨.typeScript, false, .module⟩
  | "tsx" => some tsx
  | _ => none

/-- The file is one of declarations: a second extension `d` stands in front of the first. -/
def isDefinitionName (path : String) : Bool :=
  [".d.ts", ".d.mts", ".d.cts"].any fun ending => path.endsWith ending

/-- The dialect that a file name tells; `none` when it tells nothing. -/
def ofFilename? (path : String) : Option Dialect := do
  let dialect ← ofExtension? (← Path.extension? path)
  return if isDefinitionName path then { dialect with language := .definitions } else dialect

end EmitLint.Syntax.Dialect
