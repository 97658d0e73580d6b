/-
# The order of declarations

The entries of a definition of emits can be written in any order.  Main
statement: `outlines_of_reordered`.  If the entries of definitions are permuted,
of any number of them, and of those inside of entries as well, then what is
reported is permuted, and nothing else changes but where the reports point.
-/
import EmitLint.Proofs.Component.Reordering
import EmitLint.Proofs.Rule.Once
import EmitLint.Proofs.Rule.Wrapping

namespace EmitLint.EmitValidator

open Component Syntax

variable {m : Mode} {program program' : Program}

/-- What a node declares, it declares wherever its entries are moved. -/
theorem alike_nodeEmit? {x x' : Node} (h : Moves x x') :
    Option.Rel EmitAlike (nodeEmit? x) (nodeEmit? x') := by
  have hhead := h.head
  cases x with
  | element b =>
      cases x' with
      | element b' =>
          cases h.element with
          | item he =>
              have hitem := Node.expr.inj he.head
              show Option.Rel _ (elementEmit? _) (elementEmit? _)
              rw [elementEmit?_item, elementEmit?_item]
              refine .some ⟨?_, ?_, rfl⟩
              · rw [← declaredName?_exprHead, hitem, declaredName?_exprHead]
              · rw [← name?_exprHead, hitem, name?_exprHead]
          | spread => exact .some ⟨rfl, rfl, rfl⟩
          | hole => exact .none
      | function fn | declarator fn | case fn => cases fn; cases hhead
      | _ => cases hhead
  | property p =>
      cases x' with
      | property p' =>
          cases h.property with
          | entry hkey hvalue => exact .some ⟨hkey, rfl, congrArg some hvalue.head_unwrap⟩
          | spread => exact .some ⟨rfl, rfl, rfl⟩
      | function fn | declarator fn | case fn => cases fn; cases hhead
      | _ => cases hhead
  | function fn | declarator fn | case fn =>
      cases fn
      cases x' <;> first | exact .none | cases hhead
  | _ => cases x' <;> first | exact .none | cases hhead

/-- A program with moved entries declares what the program declares, in some order. -/
theorem shuffled_emits (m : Mode) (h : Moves program.root program'.root) :
    Shuffled EmitAlike (emitsOf m program) (emitsOf m program') := by
  rw [emitsOf_eq, emitsOf_eq]
  refine Shuffled.filterMap ?_ fun _ _ => alike_nodeEmit?
  exact (h.sites m).flatMap fun _ _ _ => Moves.declaring

theorem perm_reports {c c' : Context} (hseverity : c.severity = c'.severity) {es es' : List Emit}
    (h : Shuffled EmitAlike es es') :
    ((reports c' es').map outline).Perm ((reports c es).map outline) := by
  obtain ⟨between, halike, hperm⟩ := h
  rw [← alike_reports hseverity halike]
  exact ((hperm.filterMap (diagnostic? c')).map outline).symm

/-- To permute the entries of any definitions of emits, those inside of entries included, permutes
what is reported. -/
theorem outlines_of_reordered (c : Context) (source : String)
    (h : Reordered (· ∈ definitionsAt c.mode program.root) program.root program'.root) :
    ((unfiltered { c with source } program').diagnostics.map outline).Perm
      ((unfiltered c program).diagnostics.map outline) := by
  have hmoves : Moves program.root program'.root :=
    ⟨_, sparesOptions_definitionsAt c.mode program.root, h⟩
  have hreports : ((reports { c with source } (emitsOf c.mode program')).map outline).Perm
      ((reports c (emitsOf c.mode program)).map outline) :=
    perm_reports rfl (shuffled_emits c.mode hmoves)
  rw [unfiltered_diagnostics, unfiltered_diagnostics, List.map_append, List.map_append]
  exact hreports.append_left _

/-! ## An example -/

/-- The component `createApp({emits:…})` that stands between two offsets. -/
def component (start stop : Nat) (definition : Expr) : Expr :=
  .call ⟨start, stop⟩ false (.name ⟨start, start + 9⟩ "createApp") false
    [.item (.object ⟨start + 10, stop - 1⟩ [.entry ⟨start + 11, stop - 2⟩
      (.name ⟨start + 11, start + 16⟩ "emits") definition])]

/-- The script `createApp({emits:['a',,createApp({emits:{b:null,...x}})]})`. -/
def mixedScript : Program :=
  ⟨[.expression ⟨0, 58⟩ (component 0 58 (.array ⟨17, 56⟩
    [.item (.string ⟨18, 21⟩ "a"), .hole ⟨22, 23⟩,
      .item (component 23 55 (.object ⟨40, 53⟩
        [.entry ⟨41, 47⟩ (.name ⟨41, 42⟩ "b") (.null ⟨43, 47⟩),
          .spread ⟨48, 52⟩ (.name ⟨51, 52⟩ "x")]))]))]⟩

/-- The script `createApp({emits:[createApp({emits:{...x,b:null}}),,'a']})`. -/
def reversedScript : Program :=
  ⟨[.expression ⟨0, 58⟩ (component 0 58 (.array ⟨17, 56⟩
    [.item (component 18 50 (.object ⟨35, 48⟩
        [.spread ⟨36, 40⟩ (.name ⟨39, 40⟩ "x"),
          .entry ⟨41, 47⟩ (.name ⟨41, 42⟩ "b") (.null ⟨43, 47⟩)])),
      .hole ⟨51, 52⟩, .item (.string ⟨52, 55⟩ "a")]))]⟩

def mixedContext : Context :=
  .new "createApp(\x7bemits:['a',,createApp(\x7bemits:\x7bb:null,...x\x7d\x7d)]\x7d)" "A.ts" .plain

section
variable {n c x : Node} {a b : Address} {s t s' t' : Nat} {v v' : Expr} {Free : Address → Prop}

/-- By the step of this number. -/
theorem mem_visited_of_getElem? (i : Nat) (hs : n.steps[i]? = some (a, c))
    (hx : (b, x) ∈ c.visited) : (a ++ b, x) ∈ n.visited :=
  Node.mem_visited_of_step (List.mem_of_getElem? hs) hx

theorem mem_visited_component : ([1, 0, 0, 1], .expr v) ∈ (Node.expr (component s t v)).visited := by
  refine mem_visited_of_getElem? (a := [1]) 1 rfl ?_
  refine mem_visited_of_getElem? (a := [0]) 0 rfl ?_
  refine mem_visited_of_getElem? (a := [0]) 0 rfl ?_
  exact mem_visited_of_getElem? (a := [1]) 0 rfl (Node.self_mem_visited _)

theorem mem_definitionsAt_component (h : (a, .expr (component s t v)) ∈ n.visited)
    (hv : v.IsBare) : a ++ [1, 0, 0, 1] ∈ definitionsAt m n := by
  refine mem_definitionsAt.mpr ⟨a ++ [1, 0], _, v,
    mem_sitesAt.mpr ⟨a, _, h, List.mem_singleton.mpr rfl, rfl⟩, rfl, ?_⟩
  rw [Site.definitionAddress, Expr.unwrapAt_of_isBare hv, List.append_assoc]
  rfl

/-- What is reordered in a definition is reordered in the component. -/
theorem reordered_component (h : Reordered (fun a => Free (1 :: 0 :: 0 :: 1 :: a))
    (.expr v) (.expr v')) :
    Reordered Free (.expr (component s t v)) (.expr (component s' t' v')) := by
  refine .kept rfl (.cons (.leaf rfl rfl) (.cons ?_ .nil))
  refine .kept rfl (.cons ?_ .nil)
  refine .kept rfl (.cons ?_ .nil)
  exact .kept rfl (.cons (.leaf rfl rfl) (.cons h .nil))

end

theorem reordered_reversedScript :
    Reordered (· ∈ definitionsAt mixedContext.mode mixedScript.root)
      mixedScript.root reversedScript.root := by
  have houter : ([0, 0], _) ∈ mixedScript.root.visited :=
    mem_visited_of_getElem? (a := [0]) 0 rfl
      (mem_visited_of_getElem? (a := [0]) 0 rfl (Node.self_mem_visited _))
  have hinner : ([0, 0, 1, 0, 0, 1, 2, 0], _) ∈ mixedScript.root.visited :=
    Node.mem_visited_trans (Node.mem_visited_trans houter mem_visited_component)
      (mem_visited_of_getElem? (a := [2]) 2 rfl
        (mem_visited_of_getElem? (a := [0]) 0 rfl (Node.self_mem_visited _)))
  -- From the script to the list of entries, and from its last entry to the inner object.
  refine .kept rfl (.cons (.kept rfl (.cons (reordered_component ?_) .nil)) .nil)
  refine .permuted rfl ⟨_, rfl, trivial⟩ (mem_definitionsAt_component houter trivial) ?_
    (List.reverse_perm _)
  refine .cons (.kept rfl (.cons (.leaf rfl rfl) .nil)) (.cons (.leaf rfl rfl) (.cons ?_ .nil))
  refine .kept rfl (.cons (reordered_component ?_) .nil)
  refine .permuted rfl ⟨_, rfl, trivial⟩ (mem_definitionsAt_component hinner trivial) ?_
    (List.reverse_perm _)
  exact .cons (.kept rfl (.cons (.leaf rfl rfl) (.cons (.leaf rfl rfl) .nil)))
    (.cons (.kept rfl (.cons (.leaf rfl rfl) .nil)) .nil)

/-- Both lists of entries are reversed, and the reports are permuted. -/
theorem outlines_of_reordered_reversed :
    Reordered (· ∈ definitionsAt mixedContext.mode mixedScript.root)
      mixedScript.root reversedScript.root ∧
    ((unfiltered { mixedContext with
      source := "createApp(\x7bemits:[createApp(\x7bemits:\x7b...x,b:null\x7d\x7d),,'a']\x7d)" }
        reversedScript).diagnostics.map outline).Perm
      [(("missing", some "a", .warning, missingMessage "a"), 0),
        (("missing", some Emit.unknown, .warning, missingMessage Emit.unknown), 0),
        (("skipped", some "b", .warning, skippedMessage "b"), 1),
        (("missing", some Emit.unknown, .warning, missingMessage Emit.unknown), 0)] :=
  ⟨reordered_reversedScript, outlines_of_reordered mixedContext _ reordered_reversedScript⟩

end EmitLint.EmitValidator
