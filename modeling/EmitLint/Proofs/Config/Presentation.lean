/-
# However a configuration is presented

An object presents a configuration if it has the schema and the settings of it,
whatever else it has and in whatever order.  Main statement:
`fromJson_presentations`.  Every text of such an object is read as the
configuration, and what the configuration is written as is such an object.  Of
the reader of texts nothing is used but the law of a `JsonLayer`.

* The schema may be left out or `null` where there is none.
* A setting may be given by any of its words, and where a rule is set several
  times the last one counts.
* Members of other names may stand anywhere and hold anything.
* The map of settings has no order of its own, so they may be written in any.
-/
import Mathlib.Data.List.Forall2
import EmitLint.Config.File
import EmitLint.Config.Value
import EmitLint.Proofs.Config.Reading
import EmitLint.Proofs.Config.RuleMap

namespace EmitLint

open Json

/-- The words that name a setting. -/
def Setting.words : Setting → List String
  | off => ["off"]
  | warn => ["warn", "warning"]
  | error => ["error"]

theorem Setting.ofName?_of_mem {s : Setting} {word : String} (h : word ∈ s.words) :
    Setting.ofName? word = some s := by
  have hall : ∀ word ∈ s.words, Setting.ofName? word = some s := by
    cases s <;> decide
  exact hall word h

theorem Setting.name_mem_words (s : Setting) : s.name ∈ s.words := by
  cases s <;> decide

namespace Config

/-- The values of the members of a name. -/
def valuesOf (name : String) (members : List (String × Value)) : List Value :=
  (members.filter fun m => m.1 = name).map (·.2)

/-- What may stand under the name of the schema. -/
inductive ShowsSchema : Option String → List Value → Prop
  | absent : ShowsSchema none []
  | null : ShowsSchema none [.null]
  | text (s : String) : ShowsSchema (some s) [.string s]

/-- The member sets the rule, by one of the words for the setting. -/
def ShowsSetting (m : String × Value) (e : String × Setting) : Prop :=
  m.1 = e.1 ∧ ∃ word ∈ e.2.words, m.2 = .string word

/-- The members set each rule of the map, and no other, to what the map says; the last one of a name
counts. -/
def ShowsRules (members : List (String × Value)) (rules : RuleMap) : Prop :=
  ∃ settings, List.Forall₂ ShowsSetting members settings ∧
    ∀ name, lastSetting name settings = rules.get? name

/-- The members are those of an object that presents the configuration. -/
structure Presents (members : List (String × Value)) (c : Config) : Prop where
  schema : ShowsSchema c.schema (valuesOf "$schema" members)
  rules : ∃ entries, valuesOf "rules" members = [.object entries] ∧ ShowsRules entries c.rules

/-! ## Taking the members in -/

section

variable {members entries : List (String × Value)} {c : Config} {rules : RuleMap}

theorem valuesOf_cons (name : String) (m : String × Value) (members : List (String × Value)) :
    valuesOf name (m :: members) =
      if m.1 = name then m.2 :: valuesOf name members else valuesOf name members := by
  rw [valuesOf, List.filter_cons]
  split <;> simp_all [valuesOf]

theorem takeRule?_of_shows {m : String × Value} {e : String × Setting} (h : ShowsSetting m e)
    (rules : RuleMap) : takeRule? rules m = some (rules.set e.1 e.2) := by
  obtain ⟨hname, word, hword, hvalue⟩ := h
  simp only [takeRule?, hvalue, hname, Setting.ofName?_of_mem hword, Option.map_some]

/-- The settings are set one by one. -/
theorem foldlM_takeRule? {settings : List (String × Setting)}
    (h : List.Forall₂ ShowsSetting entries settings) (rules : RuleMap) :
    entries.foldlM takeRule? rules =
      some (settings.foldl (fun rules e => rules.set e.1 e.2) rules) := by
  induction h generalizing rules with
  | nil => rfl
  | cons hfirst _ ih =>
      rw [List.foldlM_cons, takeRule?_of_shows hfirst, List.foldl_cons]
      exact ih _

theorem foldlM_takeRule?_of_shows (h : ShowsRules entries rules) :
    entries.foldlM takeRule? .empty = some rules := by
  obtain ⟨settings, hshows, hlast⟩ := h
  have hrules : RuleMap.ofList settings = rules := by
    refine RuleMap.ext_get? fun name => ?_
    rw [RuleMap.get?_ofList, hlast]
  rw [foldlM_takeRule? hshows, ← hrules, RuleMap.ofList]

/-- What one of the two places of a draft is after the values of its name. -/
inductive Fills {α : Type} (reads : Value → α → Prop) : Option α → List Value → Option α → Prop
  | rest (place : Option α) : Fills reads place [] place
  | first {v : Value} {a : α} (h : reads v a) : Fills reads none [v] (some a)

/-- What a schema is read from. -/
inductive ReadsSchema : Value → Option String → Prop
  | null : ReadsSchema .null none
  | text (s : String) : ReadsSchema (.string s) (some s)

/-- What the settings are read from. -/
def ReadsRules (v : Value) (rules : RuleMap) : Prop :=
  ∃ entries, v = .object entries ∧ entries.foldlM takeRule? .empty = some rules

/-- A member is taken in, and the members behind it fill what it leaves of the two places. -/
theorem takeMember?_of_fills {m : String × Value} {d d' : Draft}
    (hschema : Fills ReadsSchema d.schema (if m.1 = "$schema" then m.2 :: valuesOf "$schema" members
      else valuesOf "$schema" members) d'.schema)
    (hrules : Fills ReadsRules d.rules (if m.1 = "rules" then m.2 :: valuesOf "rules" members
      else valuesOf "rules" members) d'.rules) :
    ∃ next, takeMember? d m = some next ∧
      Fills ReadsSchema next.schema (valuesOf "$schema" members) d'.schema ∧
      Fills ReadsRules next.rules (valuesOf "rules" members) d'.rules := by
  obtain ⟨name, v⟩ := m
  unfold takeMember?
  by_cases hname : name = "$schema"
  · subst hname
    obtain ⟨place, rules⟩ := d
    obtain ⟨filled, rules'⟩ := d'
    rw [if_pos rfl] at hschema ⊢
    have hother : ¬("$schema", v).1 = "rules" := fun h => absurd h (by decide : "$schema" ≠ "rules")
    rw [if_neg hother] at hrules
    generalize valuesOf "$schema" members = later at hschema ⊢
    -- The place was empty so far, and no later member has the name.
    cases hschema with
    | first hreads =>
        cases hreads with
        | null => exact ⟨_, rfl, .rest _, hrules⟩
        | text s => exact ⟨_, rfl, .rest _, hrules⟩
  · rw [if_neg hname] at hschema ⊢
    by_cases hname : name = "rules"
    · subst hname
      obtain ⟨schema, place⟩ := d
      obtain ⟨schema', filled⟩ := d'
      rw [if_pos rfl] at hrules ⊢
      generalize valuesOf "rules" members = later at hrules ⊢
      cases hrules with
      | first hreads =>
          obtain ⟨entries, rfl, hfold⟩ := hreads
          refine ⟨⟨schema, some _⟩, ?_, hschema, .rest _⟩
          simp only [hfold, Option.isSome_none, Bool.false_eq_true, if_false, Option.map_some]
    · rw [if_neg hname] at hrules ⊢
      exact ⟨d, rfl, hschema, hrules⟩

/-- Each place is filled by the values of its own name, wherever they stand. -/
theorem foldlM_takeMember? {d d' : Draft}
    (hschema : Fills ReadsSchema d.schema (valuesOf "$schema" members) d'.schema)
    (hrules : Fills ReadsRules d.rules (valuesOf "rules" members) d'.rules) :
    members.foldlM takeMember? d = some d' := by
  induction members generalizing d with
  | nil =>
      cases d
      cases d'
      cases hschema
      cases hrules
      rfl
  | cons m members ih =>
      rw [valuesOf_cons] at hschema hrules
      rw [List.foldlM_cons]
      obtain ⟨next, htake, hnextSchema, hnextRules⟩ := takeMember?_of_fills hschema hrules
      rw [htake]
      exact ih hnextSchema hnextRules

theorem fills_schema {schema : Option String} {vs : List Value} (h : ShowsSchema schema vs) :
    ∃ place, Fills ReadsSchema none vs place ∧ place.getD none = schema := by
  cases h with
  | absent => exact ⟨none, .rest none, rfl⟩
  | null => exact ⟨some none, .first .null, rfl⟩
  | text s => exact ⟨some (some s), .first (.text s), rfl⟩

/-- What an object that presents the configuration says is the configuration; this is about its
value, and no layer has a say in it. -/
theorem ofValue?_of_presents (h : Presents members c) : ofValue? (.object members) = some c := by
  obtain ⟨place, hschema, hplace⟩ := fills_schema h.schema
  obtain ⟨entries, hvalues, hshows⟩ := h.rules
  have hfold : members.foldlM takeMember? {} = some ⟨place, some c.rules⟩ := by
    refine foldlM_takeMember? hschema ?_
    rw [hvalues]
    exact .first ⟨entries, rfl, foldlM_takeRule?_of_shows hshows⟩
  rw [ofValue?, hfold, Option.map_some, Draft.config, hplace, Option.getD_some]

theorem JsonLayer.fromJson_of_presents (layer : JsonLayer) {text : String} (h : Presents members c)
    (htext : Document (.object members) text) : layer.fromJson text = .ok c := by
  rw [JsonLayer.fromJson, layer.read_document htext (ofValue?_of_presents h)]
  rfl

/-! ## What is written -/

theorem showsSetting_name (e : String × Setting) : ShowsSetting (e.1, .string e.2.name) e :=
  ⟨rfl, _, e.2.name_mem_words, rfl⟩

theorem showsRules_of_perm {settings : List (String × Setting)} (h : settings.Perm rules.entries) :
    ShowsRules (settings.map fun e => (e.1, .string e.2.name)) rules :=
  ⟨settings, List.forall₂_map_left_iff.mpr (List.forall₂_same.mpr fun e _ => showsSetting_name e),
    rules.lastSetting_entries h⟩

/-- A configuration is written as an object that presents it. -/
theorem presents_valueListing {settings : List (String × Setting)}
    (h : settings.Perm c.rules.entries) :
    ∃ members, c.valueListing settings = .object members ∧ Presents members c := by
  refine ⟨_, rfl, ?_, _, ?_, showsRules_of_perm h⟩
  · cases hschema : c.schema with
    | none => exact .absent
    | some s => exact .text s
  · cases c.schema <;> rfl

end

/-- By any layer, of which `fromJson` uses one: whatever order the settings are written in, the text
is read as the configuration that was written, and so is every other text of that value.  Any object
that presents a configuration is read as the configuration, and what is written for it then is an
object that presents it too. -/
theorem fromJson_presentations (layer : JsonLayer) (c : Config) :
    JsonLayer.streaming.fromJson = fromJson ∧
    (∀ settings, settings.Perm c.rules.entries →
      layer.fromJson (String.ofList (c.valueListing settings).render) = .ok c ∧
        ∀ text, Document (c.valueListing settings) text → layer.fromJson text = .ok c) ∧
    layer.fromJson (String.ofList c.value.render) = .ok c ∧
    ∀ members text, Presents members c → Document (.object members) text →
      layer.fromJson text = .ok c ∧
        ∃ written, (layer.fromJson text).map value = .ok (.object written) ∧
          c.value = .object written ∧ Presents written c := by
  have hread : ∀ settings, settings.Perm c.rules.entries → ∀ text,
      Document (c.valueListing settings) text → layer.fromJson text = .ok c := by
    intro settings hperm text htext
    obtain ⟨members, hvalue, hpresents⟩ := presents_valueListing hperm
    exact layer.fromJson_of_presents hpresents (hvalue ▸ htext)
  refine ⟨rfl, fun settings hperm => ⟨hread _ hperm _ (document_render _), hread _ hperm⟩,
    hread _ (.refl _) _ (document_render _), ?_⟩
  intro members text hpresents htext
  obtain ⟨written, hvalue, hwritten⟩ := presents_valueListing (.refl c.rules.entries)
  have hconfig := layer.fromJson_of_presents hpresents htext
  refine ⟨hconfig, written, ?_, hvalue, hwritten⟩
  rw [hconfig]
  exact congrArg Except.ok hvalue

/-- The settings stand in another order than that of their names, then behind a member that does not
count, with one of them overwritten under the other word for it. -/
theorem fromJson_two_rules :
    let c : Config := ⟨none, .ofList [("a", .warn), ("b", .off)]⟩
    fromJson "\x7b\"rules\":\x7b\"b\":\"off\",\"a\":\"warn\"\x7d\x7d" = .ok c ∧
      fromJson ("\x7b\"x\":[null],\"rules\":\x7b\"a\":\"off\",\"b\":\"off\",\"a\":\"warning\"" ++
        "\x7d,\"$schema\":null\x7d") = .ok c := by
  intro c
  have hsettings : [("b", Setting.off), ("a", .warn)].Perm c.rules.entries := by decide
  have hshows : List.Forall₂ ShowsSetting
      [("a", .string "off"), ("b", .string "off"), ("a", .string "warning")]
      [("a", .off), ("b", .off), ("a", .warn)] :=
    .cons ⟨rfl, "off", by decide, rfl⟩ (.cons ⟨rfl, "off", by decide, rfl⟩
      (.cons ⟨rfl, "warning", by decide, rfl⟩ .nil))
  have hpresents : Presents [("x", .array [.null]),
      ("rules", .object [("a", .string "off"), ("b", .string "off"), ("a", .string "warning")]),
      ("$schema", .null)] c := by
    have hrules : RuleMap.ofList [("a", .off), ("b", .off), ("a", .warn)] = c.rules := rfl
    exact ⟨.null, _, rfl, _, hshows, fun name => by rw [← RuleMap.get?_ofList, hrules]⟩
  obtain ⟨hstreaming, hwritten, -, hpresented⟩ := fromJson_presentations .streaming c
  rw [← hstreaming]
  exact ⟨(hwritten _ hsettings).1, (hpresented _ _ hpresents (document_render _)).1⟩

end Config

end EmitLint
