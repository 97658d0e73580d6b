/-
# What the mode of the walk decides

A mode says whether calls of the macro count, and whether an object that is
exported as default does.  Main statement: `sites_of_mode`.  The walk is the same
in all modes.  From what it finds when both count, a mode deletes the calls of the
macro or the objects that are exported, and nothing else: also not the components
inside of what is deleted.

Sites are told apart by their addresses, so nothing is assumed about spans.
-/
import EmitLint.Proofs.Component.Located
import Mathlib.Data.List.Infix

namespace EmitLint.Syntax.Node

/-- At the second address is an export as default, and at the first one what it exports,
without wrappers. -/
def exports (n : Node) (a b : Address) : Bool :=
  match n.at? b with
  | some (stmt (.exportDefault _ value)) => a == b ++ 0 :: value.unwrapAt
  | _ => false

/-- What is at the address is exported as default, but for wrappers around it. -/
def IsDefaultExport (n : Node) (a : Address) : Prop :=
  ∃ b s value, n.at? b = some (stmt (.exportDefault s value)) ∧ a = b ++ 0 :: value.unwrapAt

theorem exports_iff {n : Node} {a b : Address} : n.exports a b = true ↔
    ∃ s value, n.at? b = some (stmt (.exportDefault s value)) ∧ a = b ++ 0 :: value.unwrapAt := by
  unfold exports
  split
  · rename_i s value hb
    rw [beq_iff_eq, hb]
    constructor
    · rintro rfl
      exact ⟨s, value, rfl, rfl⟩
    · rintro ⟨s', value', heq, rfl⟩
      obtain ⟨-, rfl⟩ := Stmt.exportDefault.inj (stmt.inj (Option.some.inj heq))
      rfl
  · rename_i hnot
    refine iff_of_false Bool.false_ne_true ?_
    rintro ⟨s, value, hb, -⟩
    exact hnot s value hb

instance (n : Node) (a : Address) : Decidable (n.IsDefaultExport a) :=
  decidable_of_iff (∃ b ∈ a.inits, n.exports a b = true) <| by
    constructor
    · rintro ⟨b, -, hb⟩
      exact ⟨b, exports_iff.mp hb⟩
    · rintro ⟨b, hb⟩
      have hprefix : b <+: a := by
        obtain ⟨s, value, -, rfl⟩ := hb
        exact List.prefix_append _ _
      exact ⟨b, (List.mem_inits b a).mpr hprefix, exports_iff.mpr hb⟩

end EmitLint.Syntax.Node

namespace EmitLint.Component

open Syntax

/-- The site is a call of the macro. -/
def Site.isMacro : Site → Bool
  | options .. => false
  | emitsCall .. => true

/-- The mode in which all counts that can. -/
def Mode.full : Mode := ⟨.setup, true⟩

/-- What a mode keeps of the sites of a tree: of the calls of the macro all or none, and of the
options objects those that are not exported as default, or all. -/
def Mode.Keeps (m : Mode) (n : Node) (found : Address × Site) : Prop :=
  if found.2.isMacro then m.kind = .setup
  else m.componentFile = true ∨ ¬ n.IsDefaultExport found.1

instance (m : Mode) (n : Node) (found : Address × Site) : Decidable (m.Keeps n found) :=
  inferInstanceAs (Decidable (if found.2.isMacro then _ else _))

variable {m : Mode} {n root x : Node} {a : Address} {s : Site}

/-- The node exports an expression as default. -/
def isExport : Node → Bool
  | .stmt (.exportDefault ..) => true
  | _ => false

/-! ## One node -/

theorem isMacro_of_mem_argumentSite {arg : Option Element} (h : s ∈ argumentSite arg) :
    s.isMacro = false := by
  obtain ⟨t, ps, -, rfl⟩ := mem_argumentSite.mp h
  rfl

theorem callSite_eq_filter (m : Mode) (c : Span) (callee : Expr) (t : Bool) (args : List Element) :
    callSite m c callee t args =
      (callSite .full c callee t args).filter fun s => !s.isMacro || m.kind.isSetup := by
  have hargument : ∀ arg, argumentSite arg =
      (argumentSite arg).filter fun s => !s.isMacro || m.kind.isSetup := by
    intro arg
    refine (List.filter_eq_self.mpr fun s hs => ?_).symm
    rw [isMacro_of_mem_argumentSite hs]
    rfl
  unfold callSite
  split
  · split
    · cases hkind : m.kind.isSetup <;> simp [Mode.full, ScriptKind.isSetup, Site.isMacro]
    · split
      · exact hargument _
      · rfl
  · split
    · split
      · exact hargument _
      · rfl
    · rfl
  · rfl

/-- For one node the mode decides by the form of the node. -/
theorem ownSites_eq_filter (m : Mode) (n : Node) : n.ownSites m =
    (n.ownSites .full).filter fun s =>
      if s.isMacro then m.kind.isSetup else m.componentFile || !isExport n := by
  cases n with
  | expr e =>
      cases e with
      | call c o callee t args =>
          refine (callSite_eq_filter m c callee t args).trans (List.filter_congr fun s _ => ?_)
          cases hs : s.isMacro <;> simp [isExport]
      | new c callee args =>
          refine (List.filter_eq_self.mpr fun s hs => ?_).symm
          cases mem_ownSites (m := m).mp hs with
          | application _ => simp [Site.isMacro, isExport]
      | _ => rfl
  | stmt t =>
      cases t with
      | exportDefault c value =>
          have hoptions : ∀ s ∈ objectSite value, s.isMacro = false := by
            intro s hs
            obtain ⟨t, ps, -, rfl⟩ := mem_objectSite.mp hs
            rfl
          show (if m.componentFile then objectSite value else []) = (objectSite value).filter _
          split
          · rename_i hfile
            refine (List.filter_eq_self.mpr fun s hs => ?_).symm
            simp [hoptions s hs, hfile]
          · rename_i hfile
            refine (List.filter_eq_nil_iff.mpr fun s hs => ?_).symm
            simp [hoptions s hs, hfile, isExport]
      | _ => rfl
  | _ => rfl

/-- An options object is exported as default exactly if the node that declares it is the export. -/
theorem isDefaultExport_iff {t : Span} {ps : List Property} (hx : root.at? a = some x)
    (hs : Declares m x (.options t ps)) :
    root.IsDefaultExport (a ++ siteAddress x) ↔ isExport x = true := by
  constructor
  · rintro ⟨b, c, value, hb, heq⟩
    obtain ⟨-, p, hp⟩ := located_of_options hs
    have hexport : root.Holds b (a ++ siteAddress x) :=
      ⟨_, 0, .part, value, hb, fun _ => Node.noConfusion, rfl, heq⟩
    have hholder : a ++ p = b := Node.holder_unique (hp.holds.append hx) hexport
    rw [← hholder, Node.at?_append_of_at? hx] at hb
    cases hp with
    | argument _ hi _ =>
        rw [hi] at hb
        cases hb
    | exported hexported _ =>
        rw [hexported]
        rfl
  · intro hexport
    cases hs with
    | @exported c _ value _ _ _ => exact ⟨a, c, value, hx, rfl⟩
    | _ => cases hexport

/-! ## The whole walk -/

/-- In any tree, the sites of a mode are those of the mode in which all counts, in the same order,
without the calls of the macro if the script is a plain one, and without the options objects that
are exported as default if the file is no component.  All these sites are different nodes. -/
theorem sites_of_mode (m : Mode) (program : Program) :
    (sitesAt m program.root).map (·.2) = sites m program ∧
    ((sitesAt m program.root).map (·.1)).Nodup ∧
    (∀ found ∈ sitesAt m program.root, ∃ x, program.root.at? found.1 = some x ∧ found.2.Is x) ∧
    sitesAt m program.root =
      (sitesAt .full program.root).filter fun found => m.Keeps program.root found := by
  refine ⟨map_snd_sitesAt m _, nodup_sitesAt m _, fun _ => exists_is_of_mem_sitesAt, ?_⟩
  rw [sitesAt, sitesAt, List.filter_flatMap]
  refine List.flatMap_congr fun v hv => ?_
  rw [ownSites_eq_filter, List.filter_map]
  refine congrArg _ (List.filter_congr fun s hs => ?_)
  cases s with
  | options t ps =>
      have hexport := isDefaultExport_iff (Node.at?_of_mem_visited hv) (mem_ownSites.mp hs)
      simp [Mode.Keeps, Site.isMacro, hexport]
  | emitsCall c o args =>
      cases hkind : m.kind <;> simp [Mode.Keeps, Site.isMacro, ScriptKind.isSetup, hkind]

end EmitLint.Component
