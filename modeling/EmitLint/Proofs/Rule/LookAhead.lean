/-
# What the look ahead overlooks

The rule does nothing in a script that does not hold one of the words `emits`
and `defineEmits`.  But a script can write such a word with an escape in it, and
then the tree has the word and the text has not.  Main statement:
`diagnostics_eq_unfiltered_iff`.  The look ahead changes nothing exactly if such
spellings declare nothing that there is something to say about.
`overlooked_emit` is a script in which they do.

Of what reads the scripts it is assumed that a word without a backslash reads as
it is written (`Spelled`).
-/
import EmitLint.Proofs.Rule.Placed
import EmitLint.Syntax.Quoted
import EmitLint.Proofs.Text.Edit

namespace EmitLint.Syntax

/-- Where a key stands. -/
def Key.span : Key → Span
  | name s _ | privateName s _ => s
  | expr _ e => e.span

/-- A word that a node is reads as it is written, unless a backslash is in it.
A string and a template have a quote at either end, a template may be written
with other line ends, and a number is no word. -/
def Node.Spelled (source : List Char) : Node → Prop
  | expr (.name s text) | key (.name s text) =>
      ∃ raw, Text.slice? source s.start s.stop = some raw ∧ ('\\' ∉ raw → raw = text.toList)
  | expr (.string s value) =>
      ∃ quote raw, Text.slice? source s.start s.stop = some (quote :: raw ++ [quote]) ∧
        ('\\' ∉ raw → raw = value.toList)
  | expr (.template s (some head) []) =>
      ∃ raw, Text.slice? source s.start s.stop = some ('`' :: raw ++ ['`']) ∧
        ('\\' ∉ raw → Quoted.plainLines raw = head.toList)
  | expr (.number _ text) => text = "inf" ∨ ∃ d rest, text.toList = d :: rest ∧ d.isDigit
  | _ => True

/-- The word at a span is written with a backslash. -/
def Escaped (source : List Char) (s : Span) : Prop :=
  ∃ raw, Text.slice? source s.start s.stop = some raw ∧ '\\' ∈ raw

end EmitLint.Syntax

namespace EmitLint.EmitValidator

open Component Syntax

/-! ## The words that decide -/

/-- The key of a property called `emits`. -/
def emitsKey? : Property → Option Key
  | .entry _ key _ => if keyName? key = some "emits" then some key else none
  | .spread .. => none

/-- The node declares the site because of the word at the span: the key of its
first property called `emits`, or the name of the macro. -/
inductive DecidedBy (m : Mode) : Node → Site → Span → Prop
  | key {n : Node} {s : Span} {ps : List Property} {k : Key} :
      Declares m n (.options s ps) → ps.findSome? emitsKey? = some k →
      DecidedBy m n (.options s ps) k.span
  | callee {c f : Span} {o t : Bool} {args : List Element} :
      m.kind = .setup →
      DecidedBy m (.expr (.call c o (.name f "defineEmits") t args))
        (.emitsCall c (args.isEmpty && t) args) f

section
variable {m : Mode} {n : Node} {s : Site} {w : Span} {source : List Char}

theorem declares_of_decidedBy (h : DecidedBy m n s w) : Declares m n s := by
  cases h with
  | key hdeclares _ => exact hdeclares
  | callee hkind => exact .emitsCall hkind

theorem emitsKey?_isSome (p : Property) : (emitsKey? p).isSome = (emitsValue? p).isSome := by
  cases p with
  | entry s k v =>
      rw [emitsKey?, emitsValue?]
      split <;> rfl
  | spread s v => rfl

/-- A site that declares anything is decided by some word. -/
theorem exists_decidedBy {e : Emit} (h : Declares m n s) (he : e ∈ s.emits) :
    ∃ w, DecidedBy m n s w := by
  cases s with
  | options u ps =>
      cases hvalue : ps.findSome? emitsValue? with
      | none => simp [Site.emits, Site.definition?, hvalue] at he
      | some v =>
          obtain ⟨p, hp, hv⟩ := List.exists_of_findSome?_eq_some hvalue
          have hkey : (ps.findSome? emitsKey?).isSome = true := by
            rw [List.findSome?_isSome_iff]
            exact ⟨p, hp, by rw [emitsKey?_isSome, hv]; rfl⟩
          obtain ⟨k, hk⟩ := Option.isSome_iff_exists.mp hkey
          exact ⟨k.span, .key h hk⟩
  | emitsCall u o args =>
      cases h with
      | emitsCall hkind => exact ⟨_, .callee hkind⟩

/-! ## Words in the text -/

theorem plainLines_eq_self {raw : List Char} (h : '\n' ∉ Quoted.plainLines raw) :
    Quoted.plainLines raw = raw := by
  fun_induction Quoted.plainLines raw with
  | case1 cs ih => exact absurd List.mem_cons_self h
  | case2 cs _ ih => exact absurd List.mem_cons_self h
  | case3 c cs _ _ ih => rw [ih fun hcs => h (List.mem_cons_of_mem c hcs)]
  | case4 => rfl

theorem mentionsEmits_of_piece {text : String} {word piece : List Char} {i j : Nat}
    (hword : word = "emits".toList ∨ word = "defineEmits".toList)
    (hpiece : Text.occursIn word piece = true)
    (hslice : Text.slice? text.toList i j = some piece) : mentionsEmits text = true := by
  obtain ⟨before, after, htext, -⟩ := Text.slice?_eq_some hslice
  have hoccurs : Text.occursIn word text.toList = true := by
    rw [htext]
    exact Text.occursIn_append_left (Text.occursIn_append_right hpiece)
  rw [mentionsEmits, Bool.or_eq_true]
  rcases hword with rfl | rfl
  · exact .inl hoccurs
  · exact .inr hoccurs

theorem occursIn_self (word : List Char) : Text.occursIn word word = true :=
  Text.occursIn_iff.mpr ⟨[], [], by simp⟩

theorem occursIn_quoted (word : List Char) (a b : Char) :
    Text.occursIn word (a :: word ++ [b]) = true :=
  Text.occursIn_iff.mpr ⟨[a], [b], by simp⟩

/-- The text mentions a word that is written without a backslash. -/
theorem mentionsEmits_of_key {text : String} {k : Key}
    (hkey : ∀ x ∈ (Node.key k).nodes, x.Spelled text.toList) (hname : keyName? k = some "emits")
    (hplain : ¬ Escaped text.toList k.span) : mentionsEmits text = true := by
  cases k with
  | name s word =>
      obtain rfl : word = "emits" := Option.some.inj hname
      obtain ⟨raw, hslice, hraw⟩ := hkey _ (Node.self_mem_nodes _)
      obtain rfl := hraw fun hescape => hplain ⟨raw, hslice, hescape⟩
      exact mentionsEmits_of_piece (.inl rfl) (occursIn_self _) hslice
  | privateName s word => cases hname
  | expr bracketed e =>
      have he : Node.Spelled text.toList (.expr e) :=
        hkey _ (Node.child_mem_nodes List.mem_cons_self)
      have hinside : ∀ {quote quote' : Char} {raw : List Char},
          Text.slice? text.toList e.span.start e.span.stop = some (quote :: raw ++ [quote']) →
          '\\' ∉ raw := by
        intro quote quote' raw hslice hescape
        exact hplain ⟨_, hslice, List.mem_cons_of_mem _ (List.mem_append_left _ hescape)⟩
      cases e with
      | string s word =>
          obtain rfl : word = "emits" := Option.some.inj hname
          obtain ⟨quote, raw, hslice, hraw⟩ := he
          obtain rfl := hraw (hinside hslice)
          exact mentionsEmits_of_piece (.inl rfl) (occursIn_quoted _ _ _) hslice
      | number s word =>
          obtain rfl : word = "emits" := Option.some.inj hname
          rcases he with hword | ⟨d, rest, hword, hdigit⟩
          · exact absurd hword (by decide)
          · obtain rfl : 'e' = d := (List.cons.inj hword).1
            exact absurd hdigit (by decide)
      | template s head parts =>
          cases parts with
          | nil =>
              obtain rfl : head = some "emits" := hname
              obtain ⟨raw, hslice, hraw⟩ := he
              have hlines := hraw (hinside hslice)
              have hself : Quoted.plainLines raw = raw :=
                plainLines_eq_self (by rw [hlines]; decide)
              obtain rfl : raw = "emits".toList := hself.symm.trans hlines
              exact mentionsEmits_of_piece (.inl rfl) (occursIn_quoted _ _ _) hslice
          | cons part parts => cases hname
      | _ => cases hname

/-- A word that decides is there for the look ahead, unless it is escaped. -/
theorem mentionsEmits_of_decidedBy {text : String}
    (hspelled : ∀ x ∈ n.nodes, x.Spelled text.toList) (h : DecidedBy m n s w)
    (hplain : ¬ Escaped text.toList w) : mentionsEmits text = true := by
  cases h with
  | @key _ u ps k hdeclares hkey =>
      obtain ⟨p, hp, hpk⟩ := List.exists_of_findSome?_eq_some hkey
      have hproperty : Node.property p ∈ n.nodes := partsIn_of_declares hdeclares p hp
      cases p with
      | entry v k' value =>
          rw [emitsKey?, Option.ite_none_right_eq_some] at hpk
          obtain ⟨hname, rfl⟩ := hpk.imp_right Option.some.inj
          have hk : Node.key k' ∈ n.nodes :=
            Node.mem_nodes_trans hproperty (Node.child_mem_nodes List.mem_cons_self)
          exact mentionsEmits_of_key (fun x hx => hspelled x (Node.mem_nodes_trans hk hx)) hname
            hplain
      | spread v value => cases hpk
  | callee hkind =>
      obtain ⟨raw, hslice, hraw⟩ := hspelled _ (Node.child_mem_nodes List.mem_cons_self)
      obtain rfl := hraw fun hescape => hplain ⟨raw, hslice, hescape⟩
      exact mentionsEmits_of_piece (.inr rfl) (occursIn_self _) hslice

end

/-! ## What is overlooked -/

theorem reportEmit_of_hasValidator {c : Context} {e : Emit} (h : classify e = .hasValidator) :
    reportEmit c e = c := by
  rw [reportEmit, diagnostic?, h]

theorem foldl_reportEmit_of_hasValidator {c : Context} {es : List Emit}
    (h : ∀ e ∈ es, classify e = .hasValidator) : es.foldl reportEmit c = c := by
  induction es with
  | nil => rfl
  | cons e es ih =>
      obtain ⟨he, hes⟩ := List.forall_mem_cons.mp h
      rw [List.foldl_cons, reportEmit_of_hasValidator he, ih hes]

theorem hasValidator_of_reports_eq_nil {c : Context} {es : List Emit} (h : reports c es = []) :
    ∀ e ∈ es, classify e = .hasValidator := by
  intro e he
  have hnone := List.filterMap_eq_nil_iff.mp h e he
  rw [diagnostic?] at hnone
  cases hclass : classify e with
  | hasValidator => rfl
  | missing | skipped t => rw [hclass] at hnone; cases hnone

/-- The look ahead changes nothing exactly if the text mentions emits, or every
emit that is declared by an escaped word has a validator. -/
theorem diagnostics_eq_unfiltered_iff (c : Context) (program : Program)
    (hspelled : ∀ x ∈ program.root.nodes, x.Spelled c.source.toList) :
    (check c program).diagnostics = (unfiltered c program).diagnostics ↔
      mentionsEmits c.source = true ∨
        ∀ place ∈ program.root.places, isWalkedTrail place.1 = true →
          ∀ s w, DecidedBy c.mode place.2 s w → Escaped c.source.toList w →
            ∀ e ∈ s.emits, classify e = .hasValidator := by
  by_cases hmentions : mentionsEmits c.source = true
  · exact ⟨fun _ => .inl hmentions, fun _ => by rw [check, if_pos hmentions]⟩
  · rw [check_of_not_mentions program hmentions]
    constructor
    · intro heq
      have hreports : reports c (emitsOf c.mode program) = [] := by
        rw [unfiltered_diagnostics] at heq
        exact List.self_eq_append_right.mp heq
      refine .inr fun place hplace hwalked s w hdecided _ e he => ?_
      have hown : s ∈ place.2.ownSites c.mode := mem_ownSites.mpr (declares_of_decidedBy hdecided)
      have hs : s ∈ program.root.sites c.mode :=
        Node.mem_sites.mpr ⟨place, hplace, hwalked, hown⟩
      exact hasValidator_of_reports_eq_nil hreports e (List.mem_flatMap.mpr ⟨s, hs, he⟩)
    · rintro (hmentions' | hescaped)
      · exact absurd hmentions' hmentions
      · refine congrArg Context.diagnostics (Eq.symm ?_)
        refine foldl_reportEmit_of_hasValidator fun e he => ?_
        obtain ⟨s, hs, hse⟩ : ∃ s ∈ program.root.sites c.mode, e ∈ s.emits :=
          List.mem_flatMap.mp he
        obtain ⟨place, hplace, hwalked, hs⟩ := Node.mem_sites.mp hs
        obtain ⟨w, hdecided⟩ := exists_decidedBy (mem_ownSites.mp hs) hse
        refine hescaped place hplace hwalked s w hdecided ?_ e hse
        -- Were the word not escaped, the text would mention it.
        by_contra hplain
        have hx : place.2 ∈ program.root.nodes := List.mem_map.mpr ⟨place, hplace, rfl⟩
        exact hmentions (mentionsEmits_of_decidedBy
          (fun x hxs => hspelled x (Node.mem_nodes_trans hx hxs)) hdecided hplain)

/-- A component whose key `emits` is written with an escape. -/
def escapedSource : String := "export default \x7b em\\u0069ts: ['a'] \x7d"

def escapedProgram : Program :=
  ⟨[.exportDefault ⟨0, 36⟩ (.object ⟨15, 36⟩
    [.entry ⟨17, 34⟩ (.name ⟨17, 27⟩ "emits") (.array ⟨29, 34⟩ [.item (.string ⟨30, 33⟩ "a")])])]⟩

def escapedContext : Context :=
  { (Context.new escapedSource "A.vue" .plain).withComponentFile true with rule := info.name }

theorem spelled_escapedProgram :
    ∀ x ∈ escapedProgram.root.nodes, x.Spelled escapedSource.toList := by
  have hkey : ∃ raw, Text.slice? escapedSource.toList 17 27 = some raw ∧
      ('\\' ∉ raw → raw = "emits".toList) := ⟨_, rfl, by decide⟩
  have hstring : ∃ quote raw, Text.slice? escapedSource.toList 30 33 =
      some (quote :: raw ++ [quote]) ∧ ('\\' ∉ raw → raw = "a".toList) :=
    ⟨_, ['a'], rfl, fun _ => rfl⟩
  simpa [Program.root, escapedProgram, Node.nodes_script, Node.nodes_stmt, Node.nodes_expr,
    Node.nodes_element, Node.nodes_property, Node.nodes_key, stmtChildren, exprChildren,
    elementChildren, propertyChildren, keyChildren, partsAt, Node.Spelled]
    using And.intro hkey hstring

/-- The component declares an emit without a validator, and nothing is said. -/
theorem overlooked_emit :
    (∀ x ∈ escapedProgram.root.nodes, x.Spelled escapedSource.toList) ∧
    (check escapedContext escapedProgram).diagnostics = [] ∧
    (unfiltered escapedContext escapedProgram).diagnostics.map (·.span) = [⟨30, 33⟩] :=
  ⟨spelled_escapedProgram, by decide, by decide⟩

theorem diagnostics_eq_unfiltered_iff_escaped :
    ¬ (mentionsEmits escapedSource = true ∨
      ∀ place ∈ escapedProgram.root.places, isWalkedTrail place.1 = true →
        ∀ s w, DecidedBy escapedContext.mode place.2 s w → Escaped escapedSource.toList w →
          ∀ e ∈ s.emits, classify e = .hasValidator) := by
  intro h
  have heq :=
    (diagnostics_eq_unfiltered_iff escapedContext escapedProgram spelled_escapedProgram).mpr h
  have hcheck : (check escapedContext escapedProgram).diagnostics = [] := by decide
  rw [heq] at hcheck
  exact absurd hcheck (by decide)

end EmitLint.EmitValidator
