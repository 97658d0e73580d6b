/-
# A configuration is read from the value that a text says

`takeMember?` takes a member of the object into what is known so far, or finds
that it is not one that a configuration has; `ofValue?` takes in all of them.
This is what a value says, and no text comes into it.

What is to be known of a reader of texts is the law of `JsonLayer`: each text of
a value that says a configuration is read as that configuration.  Main
statement: `ofJson_of_document`, by which the reader at hand is such a layer
(`JsonLayer.streaming`), although it never makes the value.
-/
import EmitLint.Config.File
import EmitLint.Proofs.Json.Objects

namespace EmitLint

open Json

namespace Json

variable {front rest : List Char}

/-- A choice is read from any spelling of its name. -/
theorem run_choice {α : Type} {ofName? : String → Option α} {word : String} {spelled : List Char}
    {a : α} (hfront : IsBlanks front) (hword : Spells word.toList spelled)
    (ha : ofName? word = some a) (rest : List Char) :
    (choice ofName?).run (front ++ '"' :: (spelled ++ '"' :: rest)) = .ok (a, rest) := by
  rw [choice, run_bind_ok (run_peek hfront (by decide) _)]
  show (choice.named ofName?).run _ = _
  rw [choice.named, run_bind_ok (run_string hword rest), ha]
  rfl

theorem run_optionalString_null (hfront : IsBlanks front) (rest : List Char) :
    optionalString.run (front ++ (['n', 'u', 'l', 'l'] ++ rest)) = .ok (none, rest) := by
  rw [List.cons_append, optionalString, run_bind_ok (run_peek hfront (by decide) _)]
  rfl

theorem run_optionalString_some {text : String} {word : List Char} (hfront : IsBlanks front)
    (hword : Spells text.toList word) (rest : List Char) :
    optionalString.run (front ++ '"' :: (word ++ '"' :: rest)) = .ok (some text, rest) := by
  rw [optionalString, run_bind_ok (run_peek hfront (by decide) _)]
  show (string >>= fun text => pure (some text) : Reader (Option String)).run _ = _
  rw [run_bind_ok (run_string hword rest)]
  rfl

/-- A whole text is read if only white space is left behind the value. -/
theorem readAll_of_run {α : Type} {reader : Reader α} {text : String} {a : α} {back : List Char}
    (hrun : reader.run text.toList = .ok (a, back)) (hback : IsBlanks back) :
    readAll reader text = .ok a := by
  have hblanks : ∀ c ∈ back, isBlank c = true := fun c hc => isBlank_of_mem (hback c hc)
  have hdone : back.dropWhile isBlank = [] := by
    rw [← List.append_nil back, List.dropWhile_append_of_pos hblanks, List.dropWhile_nil]
  simp only [readAll, hrun, hdone, bind, Except.bind]

end Json

namespace Config

/-- Take in a setting, which is the name of one. -/
def takeRule? (rules : RuleMap) (m : String × Value) : Option RuleMap :=
  match m.2 with
  | .string word => (Setting.ofName? word).map (rules.set m.1)
  | _ => none

/-- Take in a member; one of the two that count may come once. -/
def takeMember? (d : Draft) (m : String × Value) : Option Draft :=
  if m.1 = "$schema" then
    if d.schema.isSome then none
    else
      match m.2 with
      | .null => some { d with schema := some none }
      | .string text => some { d with schema := some (some text) }
      | _ => none
  else if m.1 = "rules" then
    if d.rules.isSome then none
    else
      match m.2 with
      | .object settings =>
          (settings.foldlM takeRule? .empty).map fun rules => { d with rules := some rules }
      | _ => none
  else some d

/-- The configuration that an object says, each setting being a name.  A reader may take other forms
of a configuration too. -/
def ofValue? : Value → Option Config
  | .object members => (members.foldlM takeMember? {}).map Draft.config
  | _ => none

/-! ## Members -/

theorem run_readRules {settings : List (String × Value)} {rules : RuleMap}
    {front cs rest : List Char} (hfront : IsBlanks front) (h : Writing (.object settings) cs)
    (hfold : settings.foldlM takeRule? .empty = some rules) :
    readRules.run (front ++ (cs ++ rest)) = .ok (rules, rest) := by
  refine run_object ?_ hfront h hfold
  intro rules name v rules' htake front back text rest hfront hback h _
  cases h with
  | string hword =>
      obtain ⟨setting, hsetting, rfl⟩ := Option.map_eq_some_iff.mp htake
      rw [run_bind_ok (run_colon hfront _), List.cons_append, List.append_assoc,
        List.singleton_append, run_bind_ok (run_choice hback hword hsetting rest)]
      rfl
  | _ => exact nomatch htake

theorem reads_readMember : Reads readMember takeMember? := by
  intro d name v d' htake front back text rest hfront hback h hrest
  unfold takeMember? at htake
  unfold readMember
  by_cases hschema : name = "$schema"
  · rw [if_pos hschema] at htake ⊢
    split at htake
    · exact nomatch htake
    · rename_i hfirst
      rw [if_neg hfirst]
      show (colon >>= fun _ => optionalString >>= fun text =>
        pure { d with schema := some text } : Reader Draft).run _ = _
      rw [run_bind_ok (run_colon hfront _)]
      cases h with
      | null =>
          obtain rfl := Option.some.inj htake
          rw [run_bind_ok (run_optionalString_null hback rest)]
          rfl
      | string hword =>
          obtain rfl := Option.some.inj htake
          rw [List.cons_append, List.append_assoc, List.singleton_append,
            run_bind_ok (run_optionalString_some hback hword rest)]
          rfl
      | _ => exact nomatch htake
  · rw [if_neg hschema] at htake ⊢
    by_cases hrules : name = "rules"
    · rw [if_pos hrules] at htake ⊢
      split at htake
      · exact nomatch htake
      · rename_i hfirst
        rw [if_neg hfirst]
        show (colon >>= fun _ => readRules >>= fun rules =>
          pure { d with rules := some rules } : Reader Draft).run _ = _
        rw [run_bind_ok (run_colon hfront _)]
        split at htake
        · rename_i settings hobject
          obtain rfl : v = .object settings := hobject
          obtain ⟨rules, hfold, rfl⟩ := Option.map_eq_some_iff.mp htake
          rw [run_bind_ok (run_readRules hback h hfold)]
          rfl
        · exact nomatch htake
    · rw [if_neg hrules] at htake ⊢
      obtain rfl := Option.some.inj htake
      rw [run_bind_ok (run_colon hfront _), run_bind_ok (run_skipValue hback h hrest)]
      rfl

/-! ## Documents -/

theorem run_readJson {members : List (String × Value)} {d : Draft} {front cs rest : List Char}
    (hfront : IsBlanks front) (h : Writing (.object members) cs)
    (hfold : members.foldlM takeMember? {} = some d) :
    readJson.run (front ++ (cs ++ rest)) = .ok (d.config, rest) := by
  have hobject : (object readMember {}).run (cs ++ rest) = .ok (d, rest) :=
    run_object reads_readMember isBlanks_nil h hfold
  cases h with
  | object h =>
      rw [List.cons_append] at hobject ⊢
      rw [readJson, run_bind_ok (run_peek hfront (by decide) _)]
      show (object readMember {} >>= fun d => pure d.config : Reader Config).run _ = _
      rw [run_bind_ok hobject]
      rfl

theorem ofJson_of_document {v : Value} {text : String} {c : Config} (h : Document v text)
    (hvalue : ofValue? v = some c) : ofJson text = .ok c := by
  obtain ⟨front, body, back, hfront, hbody, hback, htext⟩ := h
  refine readAll_of_run ?_ hback
  cases v with
  | object members =>
      obtain ⟨d, hfold, rfl⟩ := Option.map_eq_some_iff.mp hvalue
      rw [htext, run_readJson hfront hbody hfold]
  | _ => exact nomatch hvalue

/-! ## Layers -/

/-- A reader of texts that sees in a text the value that it says, whichever text of the value it
is. -/
structure JsonLayer where
  read : String → Except Fault Config
  read_document : ∀ {v : Value} {text : String} {c : Config},
    Document v text → ofValue? v = some c → read text = .ok c

/-- The layer that takes in each member as it comes. -/
def JsonLayer.streaming : JsonLayer := ⟨ofJson, ofJson_of_document⟩

/-- Read a text by way of the layer. -/
def JsonLayer.fromJson (layer : JsonLayer) (text : String) : Except ConfigError Config :=
  (layer.read text).mapError .json

end Config

end EmitLint
