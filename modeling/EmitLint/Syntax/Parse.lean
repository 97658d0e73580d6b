/-
# Reading scripts

The rules of the grammar, tied together.  How deep constructs can be inside
of each other is bounded by the length of the text: with every level a token
is taken after a fixed number of rules at most.
-/
import EmitLint.Syntax.Grammar.Statement

namespace EmitLint.Syntax

namespace Grammar

open EmitLint.Syntax.Parser

/-- The rule for a construct, given the rules for its parts. -/
def define (g : Grammar) {α : Type} : Nonterminal α → Parser α
  | .expression => expression g
  | .assignment arrowType => assignment g arrowType
  | .operand level => operand g level
  | .unary => unary g
  | .leftHandSide => leftHandSide g
  | .constructed => constructed g
  | .markup => markup g
  | .pattern => pattern g
  | .parameters => parameters g
  | .block => block g
  | .body => body g
  | .statement alone => statement g alone
  | .classTail => classTail g
  | .type => type g
  | .typeMembers => typeMembers g

/-- The grammar for constructs up to some depth. -/
def upTo : Nat → Grammar
  | 0 => ⟨fun _ => Parser.giveUp⟩
  | depth + 1 => ⟨fun n => (upTo depth).define n⟩

/-! ## Whole scripts -/

/-- What was read of a script that may be a module. -/
structure Draft where
  /-- The statements, the last one first. -/
  statements : List Stmt
  /-- Where statements start in which `await` was read as a name, by how many
  statements stand in front of them; the last one first. -/
  doubtful : List (Nat × State)
  /-- The last statement cannot be read, and with it what follows. -/
  stopped : Bool

/-- A statement outside of all functions. -/
def outerStatement (g : Grammar) (isModule : Bool) : Parser Stmt :=
  within (fun s => { s with inAwait := isModule }) (g.rule (.statement false))

/-- One more statement of a script that may be a module. -/
def draftStep (g : Grammar) (draft : Draft) : Parser (Option Draft) := do
  if draft.stopped || (← seesKind .endOfText) then return none
  modify fun s => { s with awaitSeen := false }
  let before ← get
  let found ← attempt (outerStatement g before.moduleSeen)
  let doubtful := if (← get).awaitSeen then
      (draft.statements.length, before) :: draft.doubtful
    else draft.doubtful
  return some ⟨found.getD default :: draft.statements, doubtful, found.isNone⟩

/-- Read a statement again as one of a module.  The flag tells whether it can
be read. -/
def revise (g : Grammar) : List Stmt × Bool → Nat × State → Parser (List Stmt × Bool) :=
  fun (statements, _) (i, before) => do
    set before
    let found ← attempt (outerStatement g true)
    return (statements.set i (found.getD default), found.isSome)

/-- The statements of a script that is a module if something in it shows so.
In a module `await` is no name, so the statements that took it for one are
read again; then the last one of them decides whether the script can be
read. -/
def ambiguous (g : Grammar) : Parser (List Stmt) := do
  let draft ← iterate (draftStep g) ⟨[], [], false⟩
  let doubtful := if (← get).moduleSeen then draft.doubtful.reverse else []
  let (body, isRead) ← doubtful.foldlM (revise g) (draft.statements.reverse, !draft.stopped)
  check isRead
  return body

/-- A whole script. -/
def script (g : Grammar) : Parser Program := do
  let body ← if (← read).dialect.modules == .unambiguous then ambiguous g
    else many (return !(← seesKind .endOfText)) (g.rule (.statement false))
  return ⟨afterDirectives body⟩

end Grammar

/-- The tree of a script; `none` when it cannot be read. -/
def parse (dialect : Dialect) (text : String) : Option Program :=
  Parser.run? (Grammar.upTo (16 * (text.length + 4))).script dialect text

end EmitLint.Syntax
