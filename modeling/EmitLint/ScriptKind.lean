/-
# Kinds of script

Whether compiler macros are available in a script.
-/

namespace EmitLint

/-- How a script is compiled. -/
inductive ScriptKind
  /-- A plain `<script>` block, or a module of its own. -/
  | plain
  /-- A `<script setup>` block, in which compiler macros are available. -/
  | setup
deriving DecidableEq, Repr, Inhabited

namespace ScriptKind

def isSetup : ScriptKind → Bool
  | plain => false
  | setup => true

/-- The kind of a block with or without a `setup` attribute. -/
def ofSetup (setup : Bool) : ScriptKind := if setup then .setup else .plain

@[simp] theorem isSetup_ofSetup (setup : Bool) : (ofSetup setup).isSetup = setup := by
  cases setup <;> rfl

end ScriptKind
end EmitLint
