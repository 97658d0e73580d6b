/-
# A script in a component and a script in a file of its own

Main statement: `lintSfc_eq_lintScript`.  A component that holds one TypeScript
block, with any text in front of it and behind it, is linted as the script alone
would be under the same file name, and what is reported moves behind the tag.

The two ways agree on what they ask of the parser and of the rules although they
get it from different places: the tag gives the language and the kind of the
block, while for a file the name says that it is a component and must tell no
dialect, so that TypeScript is what is left.  Nothing else is asked of the
function that reads names; `ofFilename?` is such a one.
-/
import EmitLint.Proofs.Sfc.Offsets
import EmitLint.Proofs.Sfc.RoundTrip
import EmitLint.Proofs.Syntax.FileName

namespace EmitLint

/-! ## A component with one block -/

namespace Sfc

open Text (byteLength)
open Written

/-- The opening tag of a TypeScript block. -/
def typedTag (setup : Bool) : String :=
  if setup then "<script setup lang=\"ts\">" else "<script lang=\"ts\">"

variable {preamble script tail : String}

/-- A file with one TypeScript block. -/
def typedFile (preamble : String) (setup : Bool) (script tail : String) : String :=
  preamble ++ typedTag setup ++ script ++ "</script>" ++ tail

/-- The tag, taken apart. -/
theorem exists_typedTag (setup : Bool) : ∃ tag : Tag,
    (typedTag setup).toList = tag.front ++ ['>'] ∧ tag.attributeText.getLast? ≠ some '/' ∧
      tag.setup = setup ∧ tag.lang = some "ts" := by
  let flags : List Written.Attribute :=
    if setup then [{ gap := [' '], name := "setup".toList, value := none }] else []
  let lang : Written.Attribute :=
    { gap := [' '], name := "lang".toList, value := some (.double "ts".toList) }
  refine ⟨⟨"script".toList, flags ++ [lang], by decide⟩, ?_, ?_, ?_, ?_⟩ <;>
    cases setup <;> decide

/-- The only block of such a file is found. -/
theorem extractScriptBlocks_typedFile (setup : Bool) (hpreamble : '<' ∉ preamble.toList)
    (htail : '<' ∉ tail.toList)
    (hscript : Text.occursIn "</script>".toList (script.toList.map Char.toLower) = false) :
    extractScriptBlocks (typedFile preamble setup script tail) =
      .ok [⟨script, byteLength preamble.toList + byteLength (typedTag setup).toList, setup,
        some "ts"⟩] := by
  obtain ⟨tag, htag, hopened, hsetup, hlang⟩ := exists_typedTag setup
  let parts : List Written.Part :=
    [.gap preamble.toList hpreamble,
     .element tag script.toList "script".toList hopened hscript (by decide),
     .gap tail.toList htail]
  have hwritten : typedFile preamble setup script tail = String.ofList (written parts) := by
    rw [← String.toList_inj, String.toList_ofList]
    simp [typedFile, htag, written, parts, Written.Part.written, closing]
  have hnew : (setups parts).Nodup := List.nodup_cons.mpr ⟨List.not_mem_nil, List.nodup_nil⟩
  have hoffset : byteLength (typedTag setup).toList = byteLength tag.front + 1 := by
    rw [htag, Text.byteLength_append]
    rfl
  have hblocks : blocksFrom 0 parts = [⟨String.ofList script.toList,
      0 + byteLength preamble.toList + byteLength tag.front + 1, tag.setup, tag.lang⟩] := rfl
  rw [hwritten, blocks_of_written parts hnew, hblocks, hsetup, hlang, String.ofList_toList,
    Nat.zero_add, Nat.add_assoc, hoffset]

end Sfc

/-! ## The two entry points -/

namespace Linter

open Sfc
open Text (byteLength)

variable {l : Linter} {filename : String}

theorem lintSfc_of_single {source : String} {b : ScriptBlock}
    (h : extractScriptBlocks source = .ok [b]) :
    l.lintSfc source filename = .ok (l.lintBlock filename b) := by
  have hname : (l.lintBlock filename b).filename = filename := filename_lintSource ..
  rw [lintSfc, h]
  refine congrArg Except.ok ?_
  show (LintResult.empty filename).merge (l.lintBlock filename b) = _
  generalize l.lintBlock filename b = r at hname ⊢
  subst hname
  simp [LintResult.merge, LintResult.empty]

/-- Linting a component with a single TypeScript block is linting its script, provided
that the names of components tell no dialect: the reports are the same, moved by what
stands in front of the script, and no offset grows too large. -/
theorem lintSfc_eq_lintScript (l : Linter) (setup : Bool)
    {preamble script tail filename : String}
    (hvue : ∀ name : String, name.endsWith ".vue" = true → l.dialectOf? name = none)
    (hpreamble : '<' ∉ preamble.toList) (htail : '<' ∉ tail.toList)
    (hscript : Text.occursIn "</script>".toList (script.toList.map Char.toLower) = false)
    (hfilename : filename.endsWith ".vue" = true)
    (hsize : byteLength (typedFile preamble setup script tail).toList < UInt32.size) :
    l.lintSfc (typedFile preamble setup script tail) filename =
        .ok ((l.lintScript script filename (.ofSetup setup)).shift
          (byteLength preamble.toList + byteLength (typedTag setup).toList)) ∧
      byteLength preamble.toList + byteLength (typedTag setup).toList +
        byteLength script.toList < UInt32.size := by
  constructor
  · rw [lintSfc_of_single (extractScriptBlocks_typedFile setup hpreamble htail hscript),
      lintScript, dialectOf, hvue filename hfilename, Option.getD_none]
    have hcomponent : isComponentFilename filename = true := by
      simp [isComponentFilename, hfilename]
    rw [hcomponent]
    rfl
  · simp only [typedFile, String.toList_append, Text.byteLength_append] at hsize
    omega

/-! ## An example -/

/-- A script with half of an element behind it, in a comment. -/
def trickyScript : String := "createApp({emits:{a:null}})// é <script><!-- </SCRIPT"

/-- A linter that reads this one script, and names as they are. -/
def trickyLinter : Linter :=
  .new (fun _ text => if text = trickyScript then some exampleScript else none)
    Syntax.Dialect.ofFilename?

/-- The report and its suggestion move by the 21 bytes in front of the script. -/
theorem lintSfc_eq_lintScript_tricky :
    (trickyLinter.lintSfc (typedFile "é\n" false trickyScript "-->") "A.vue").map
        (fun r => (r.filename, r.errorCount, r.warningCount, r.diagnostics.map (·.spans))) =
      .ok ("A.vue", 0, 1, [[⟨39, 45⟩, ⟨41, 45⟩]]) := by
  have hscript : Text.occursIn "</script>".toList (trickyScript.toList.map Char.toLower) = false :=
    by decide
  have hfilename : "A.vue".endsWith ".vue" = true :=
    String.Slice.endsWith_string_iff.mpr ⟨['A'], by simp⟩
  have hsize : byteLength (typedFile "é\n" false trickyScript "-->").toList < UInt32.size := by
    decide
  have hvue : ∀ name : String, name.endsWith ".vue" = true → trickyLinter.dialectOf? name = none :=
    fun _ h => Syntax.Dialect.ofFilename?_of_endsWith h
  rw [(lintSfc_eq_lintScript trickyLinter false hvue (by simp) (by simp) hscript hfilename
    hsize).1]
  decide

end Linter
end EmitLint
