/-
# File names

The parts of a path that decide how a file is read: its last component, and
what follows the last dot of that.
-/

namespace EmitLint.Path

/-- The last component of a path that names something: empty components and
`.` name nothing, and `..` names no file. -/
def fileName? (path : String) : Option String :=
  match ((path.toList.splitOn '/').filter fun p => p ≠ [] ∧ p ≠ ['.']).getLast? with
  | some ['.', '.'] => none
  | found => found.map String.ofList

/-- What follows the last dot of a file name, if something precedes that dot. -/
def extension? (path : String) : Option String := do
  let name := (← fileName? path).toList.reverse
  let ext := name.takeWhile (· ≠ '.')
  match name.drop ext.length with
  | [] => none
  | [_] => none
  | _ => return String.ofList ext.reverse

end EmitLint.Path
