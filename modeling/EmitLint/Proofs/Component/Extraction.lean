/-
# Which emits a site declares

`Extraction` says what is declared at a site, by the forms that sites and definitions
have; it does not look at how the emits are read.  The definition of a site is the value
of the first property whose name is known to be `emits`, or the first argument of the
macro.  Below its wrappers it is an array, where each element but a hole leaves a record,
or an object, where each property does:

    element       span of the element,  no value
                  name of a string or template, anchor of a bare identifier
    property      span of the property, value without wrappers, name if known
    spread        span of the spread, nothing else

Everything else, a site without a definition included, leaves nothing.

Main statement: `emits_eq_iff_extraction`.  The emits of a site are what this says, and
nothing in the site but its definition has a part in them.
-/
import EmitLint.Proofs.Component.Compare

namespace EmitLint.Component

open Syntax

/-! ## The forms -/

/-- The text of a string, or of a template without substitutions. -/
inductive Spells : Expr → String → Prop
  | string {s : Span} {text : String} : Spells (.string s text) text
  | template {s : Span} {text : String} : Spells (.template s (some text) []) text

/-- The key is known to stand for the name. -/
inductive Names : Key → String → Prop
  | identifier {s : Span} {text : String} : Names (.name s text) text
  | literal {b : Bool} {e : Expr} {text : String} : Spells e text → Names (.expr b e) text
  /-- A number names its decimal text, which is never a word. -/
  | number {b : Bool} {s : Span} {text : String} : Names (.expr b (.number s text)) text

/-- The second expression is the first one without the wrappers around it. -/
inductive Stripped : Expr → Expr → Prop
  | bare {e : Expr} : e.IsBare → Stripped e e
  | wrapped {s : Span} {w : Wrapper} {inner e : Expr} :
      Stripped inner e → Stripped (.wrapped s w inner) e

/-- The property has a value and is known to have the name. -/
inductive HasName (name : String) : Property → Prop
  | entry {s : Span} {key : Key} {value : Expr} : Names key name → HasName name (.entry s key value)

/-- The expression defines the emits of the site. -/
inductive Defines : Site → Expr → Prop
  /-- The value of the first property called `emits`, whatever stands around it. -/
  | property {s t : Span} {before after : List Property} {key : Key} {value : Expr} :
      (∀ p ∈ before, ¬ HasName "emits" p) → Names key "emits" →
      Defines (.options s (before ++ .entry t key value :: after)) value
  | argument {s : Span} {d : Expr} {rest : List Element} :
      Defines (.emitsCall s false (.item d :: rest)) d

/-- What an array element leaves. -/
structure ElementRecord (a : Element) (r : Emit) : Prop where
  span : r.span = a.span
  value : r.value = none
  name : ∀ text, r.name = some text ↔ ∃ e, a = .item e ∧ Spells e text
  anchor : ∀ text, r.anchor = some text ↔ ∃ s, a = .item (.name s text)

/-- What a property leaves. -/
structure PropertyRecord (p : Property) (r : Emit) : Prop where
  span : r.span = p.span
  value : ∀ v, r.value = some v ↔ ∃ s key value, p = .entry s key value ∧ Stripped value v
  name : ∀ text, r.name = some text ↔ HasName text p
  anchor : r.anchor = none

/-- The array has nothing in this place. -/
def IsHole : Element → Bool
  | .hole _ => true
  | _ => false

/-- What is declared at a site. -/
inductive Extraction : Site → List Emit → Prop
  | typeOnly {s : Span} {args : List Element} : Extraction (.emitsCall s true args) []
  /-- The first argument of the macro is missing, or it is a spread. -/
  | noArgument {s : Span} {o : Bool} {args : List Element} :
      (∀ e, args.head? ≠ some (.item e)) → Extraction (.emitsCall s o args) []
  | noProperty {s : Span} {ps : List Property} :
      (∀ p ∈ ps, ¬ HasName "emits" p) → Extraction (.options s ps) []
  | unreadable {site : Site} {d v : Expr} :
      Defines site d → Stripped d v → ¬ IsCollection v → Extraction site []
  | array {site : Site} {d : Expr} {t : Span} {els : List Element} {es : List Emit} :
      Defines site d → Stripped d (.array t els) →
      List.Forall₂ ElementRecord (els.filter (!IsHole ·)) es → Extraction site es
  | object {site : Site} {d : Expr} {t : Span} {ps : List Property} {es : List Emit} :
      Defines site d → Stripped d (.object t ps) →
      List.Forall₂ PropertyRecord ps es → Extraction site es

section
variable {e v : Expr} {key : Key} {name text : String} {s : Site} {r : Emit}

/-! ## Names, values, and definitions -/

theorem spells_iff : Spells e text ↔ declaredName? e = some text := by
  constructor
  · intro h
    cases h <;> rfl
  · intro h
    cases e with
    | string s value =>
        obtain rfl := Option.some.inj h
        exact .string
    | template s head parts =>
        cases parts with
        | nil =>
            obtain rfl : head = some text := h
            exact .template
        | cons _ _ => cases h
    | _ => cases h

theorem names_iff : Names key text ↔ keyName? key = some text := by
  constructor
  · intro h
    cases h with
    | literal he => cases he <;> rfl
    | _ => rfl
  · intro h
    cases key with
    | name s value =>
        obtain rfl := Option.some.inj h
        exact .identifier
    | privateName s value => cases h
    | expr b e =>
        cases e with
        | number s value =>
            obtain rfl := Option.some.inj h
            exact .number
        | string s value => exact .literal (spells_iff.mpr h)
        | template s head parts =>
            cases parts with
            | nil => exact .literal (spells_iff.mpr h)
            | cons _ _ => cases h
        | _ => cases h

theorem hasName_entry_iff {t : Span} {value : Expr} :
    HasName name (.entry t key value) ↔ keyName? key = some name := by
  rw [← names_iff]
  constructor
  · rintro ⟨h⟩
    exact h
  · exact .entry

theorem stripped_unwrap (e : Expr) : Stripped e e.unwrap := by
  induction e using Expr.induction_unwrap with
  | bare e hbare =>
      rw [Expr.unwrap_of_isBare hbare]
      exact .bare hbare
  | wrapped s w inner ih => exact .wrapped ih

theorem stripped_iff : Stripped e v ↔ e.unwrap = v := by
  constructor
  · intro h
    induction h with
    | bare hbare => exact Expr.unwrap_of_isBare hbare
    | wrapped _ ih => exact ih
  · rintro rfl
    exact stripped_unwrap e

/-- What has no wrappers around it is no wrapper. -/
theorem Stripped.isBare (h : Stripped e v) : v.IsBare := by
  rw [← stripped_iff.mp h]
  exact e.unwrap_isBare

theorem emitsValue?_eq_none_iff {p : Property} : emitsValue? p = none ↔ ¬ HasName "emits" p := by
  cases p with
  | entry t key value => simp [emitsValue?, hasName_entry_iff]
  | spread t value =>
      refine iff_of_true rfl ?_
      rintro ⟨⟩

theorem emitsValue?_eq_some_iff {p : Property} :
    emitsValue? p = some v ↔ ∃ t key, p = .entry t key v ∧ Names key "emits" := by
  cases p with
  | entry t key value => simp [emitsValue?, names_iff, and_comm]
  | spread t value =>
      refine iff_of_false (by rintro ⟨⟩) ?_
      rintro ⟨t, key, ⟨⟩, -⟩

theorem defines_iff : Defines s v ↔ s.definition? = some v := by
  constructor
  · intro h
    cases h with
    | @property _ t before after key _ hbefore hkey =>
        refine List.findSome?_eq_some_iff.mpr ⟨before, .entry t key v, after, rfl, ?_, ?_⟩
        · exact emitsValue?_eq_some_iff.mpr ⟨t, key, rfl, hkey⟩
        · exact fun p hp => emitsValue?_eq_none_iff.mpr (hbefore p hp)
    | argument => rfl
  · intro h
    cases s with
    | options s ps =>
        obtain ⟨before, p, after, rfl, hp, hbefore⟩ := List.findSome?_eq_some_iff.mp h
        obtain ⟨t, key, rfl, hkey⟩ := emitsValue?_eq_some_iff.mp hp
        exact .property (fun q hq => emitsValue?_eq_none_iff.mp (hbefore q hq)) hkey
    | emitsCall s o args =>
        cases o with
        | true => cases h
        | false =>
            cases args with
            | nil => cases h
            | cons a rest =>
                cases a with
                | item d =>
                    obtain rfl := Option.some.inj h
                    exact .argument
                | _ => cases h

/-! ## Records -/

theorem emit_ext {r' : Emit} (hspan : r.span = r'.span)
    (hname : ∀ text, r.name = some text ↔ r'.name = some text)
    (hanchor : ∀ text, r.anchor = some text ↔ r'.anchor = some text)
    (hvalue : ∀ v, r.value = some v ↔ r'.value = some v) : r = r' := by
  cases r
  cases r'
  obtain rfl := hspan
  obtain rfl := Option.ext hname
  obtain rfl := Option.ext hanchor
  obtain rfl := Option.ext hvalue
  rfl

theorem name?_eq_some_iff : name? e = some text ↔ ∃ t, e = .name t text := by
  cases e <;> simp [name?]

theorem elementRecord_of_emit {a : Element} (h : elementEmit? a = some r) : ElementRecord a r := by
  cases a with
  | item e =>
      rw [elementEmit?_item] at h
      obtain rfl := Option.some.inj h
      constructor
      · rfl
      · rfl
      · intro text
        simp [spells_iff]
      · intro text
        simp [name?_eq_some_iff]
  | spread t value =>
      obtain rfl := Option.some.inj h
      constructor
      · rfl
      · rfl
      · intro text
        simp
      · intro text
        simp
  | hole t => cases h

theorem exists_elementEmit? {a : Element} (ha : IsHole a = false) :
    ∃ r, elementEmit? a = some r := by
  cases a with
  | item e => exact ⟨_, elementEmit?_item e⟩
  | spread t value => exact ⟨_, rfl⟩
  | hole t => cases ha

/-- The record of an element that is no hole is determined, and it is the one that is read. -/
theorem elementRecord_iff {a : Element} (ha : IsHole a = false) :
    ElementRecord a r ↔ elementEmit? a = some r := by
  constructor
  · intro h
    obtain ⟨r', hr'⟩ := exists_elementEmit? ha
    have h' := elementRecord_of_emit hr'
    obtain rfl : r = r' := by
      refine emit_ext (h.span.trans h'.span.symm) ?_ ?_ ?_
      · exact fun text => (h.name text).trans (h'.name text).symm
      · exact fun text => (h.anchor text).trans (h'.anchor text).symm
      · intro v
        rw [h.value, h'.value]
    exact hr'
  · exact elementRecord_of_emit

theorem propertyRecord_propertyEmit (p : Property) : PropertyRecord p (propertyEmit p) := by
  cases p with
  | entry t key value =>
      constructor
      · rfl
      · intro v
        simp [propertyEmit, stripped_iff]
      · intro text
        exact hasName_entry_iff.symm
      · rfl
  | spread t value =>
      constructor
      · rfl
      · intro v
        simp [propertyEmit]
      · intro text
        exact iff_of_false nofun nofun
      · rfl

theorem propertyRecord_iff {p : Property} : PropertyRecord p r ↔ r = propertyEmit p := by
  constructor
  · intro h
    have h' := propertyRecord_propertyEmit p
    refine emit_ext (h.span.trans h'.span.symm) ?_ ?_ ?_
    · exact fun text => (h.name text).trans (h'.name text).symm
    · intro text
      rw [h.anchor, h'.anchor]
    · exact fun v => (h.value v).trans (h'.value v).symm
  · rintro rfl
    exact propertyRecord_propertyEmit p

/-- Every element but the holes leaves its record, in order. -/
theorem elementRecords_iff {els : List Element} {es : List Emit} :
    List.Forall₂ ElementRecord (els.filter (!IsHole ·)) es ↔ es = els.filterMap elementEmit? := by
  induction els generalizing es with
  | nil => simp
  | cons a els ih =>
      cases ha : IsHole a with
      | true =>
          have hnone : elementEmit? a = none := by
            cases a <;> first | rfl | cases ha
          rw [List.filter_cons_of_neg (by simp [ha]), List.filterMap_cons_none hnone, ih]
      | false =>
          rw [List.filter_cons_of_pos (by simp [ha]), List.forall₂_cons_left_iff]
          constructor
          · rintro ⟨r, rest, hr, hrest, rfl⟩
            rw [List.filterMap_cons_some ((elementRecord_iff ha).mp hr), ih.mp hrest]
          · intro hes
            obtain ⟨r, hr⟩ := exists_elementEmit? ha
            rw [List.filterMap_cons_some hr] at hes
            exact ⟨r, _, elementRecord_of_emit hr, ih.mpr rfl, hes⟩

/-- Every property leaves its record, in order. -/
theorem propertyRecords_iff {ps : List Property} {es : List Emit} :
    List.Forall₂ PropertyRecord ps es ↔ es = ps.map propertyEmit := by
  induction ps generalizing es with
  | nil => simp
  | cons p ps ih =>
      rw [List.forall₂_cons_left_iff, List.map_cons]
      constructor
      · rintro ⟨r, rest, hr, hrest, rfl⟩
        rw [propertyRecord_iff.mp hr, ih.mp hrest]
      · rintro rfl
        exact ⟨_, _, propertyRecord_propertyEmit p, ih.mpr rfl, rfl⟩

/-! ## The emits of a site -/

theorem emits_of_defines (h : Defines s v) : s.emits = definitionEmits v := by
  rw [Site.emits, defines_iff.mp h]

theorem emits_of_not_defines (h : ∀ d, ¬ Defines s d) : s.emits = [] := by
  have hnone : s.definition? = none := by
    cases hd : s.definition? with
    | none => rfl
    | some d => exact absurd (defines_iff.mpr hd) (h d)
  rw [Site.emits, hnone]

theorem emits_of_extraction {es : List Emit} (h : Extraction s es) : s.emits = es := by
  cases h with
  | typeOnly => exact emits_of_not_defines nofun
  | noArgument hargs =>
      refine emits_of_not_defines fun d hd => ?_
      cases hd with
      | argument => exact hargs d rfl
  | noProperty hps =>
      refine emits_of_not_defines fun d hd => ?_
      cases hd with
      | property _ hkey => exact hps _ (List.mem_append_right _ List.mem_cons_self) (.entry hkey)
  | unreadable hd hv hnot =>
      rw [emits_of_defines hd, definitionEmits, stripped_iff.mp hv]
      split
      · exact absurd trivial hnot
      · exact absurd trivial hnot
      · rfl
  | array hd hv hes =>
      rw [emits_of_defines hd, definitionEmits, stripped_iff.mp hv, elementRecords_iff.mp hes]
  | object hd hv hes =>
      rw [emits_of_defines hd, definitionEmits, stripped_iff.mp hv, propertyRecords_iff.mp hes]

/-- The forms leave nothing out. -/
theorem extraction_definition {d : Expr} (hd : Defines s d) :
    Extraction s (definitionEmits d) := by
  have hstripped := stripped_unwrap d
  unfold definitionEmits
  split
  · rename_i t els hunwrap
    rw [hunwrap] at hstripped
    exact .array hd hstripped (elementRecords_iff.mpr rfl)
  · rename_i t ps hunwrap
    rw [hunwrap] at hstripped
    exact .object hd hstripped (propertyRecords_iff.mpr rfl)
  · rename_i harray hobject
    refine .unreadable hd hstripped fun hcollection => ?_
    cases hunwrap : d.unwrap with
    | array t els => exact harray t els hunwrap
    | object t ps => exact hobject t ps hunwrap
    | _ =>
        rw [hunwrap] at hcollection
        exact hcollection

theorem isBare_of_extraction {es : List Emit} (h : Extraction s es) (hr : r ∈ es)
    (hv : r.value = some v) : v.IsBare := by
  cases h with
  | array hd hlayers hes =>
      rw [elementRecords_iff.mp hes] at hr
      obtain ⟨a, -, ha⟩ := List.mem_filterMap.mp hr
      rw [(elementRecord_of_emit ha).value] at hv
      cases hv
  | object hd hlayers hes =>
      rw [propertyRecords_iff.mp hes] at hr
      obtain ⟨p, -, rfl⟩ := List.mem_map.mp hr
      obtain ⟨t, key, value, -, hvalue⟩ := ((propertyRecord_propertyEmit p).value v).mp hv
      exact hvalue.isBare
  | _ => cases hr

theorem extraction_emits (s : Site) : Extraction s s.emits := by
  cases hd : s.definition? with
  | some d =>
      rw [emits_of_defines (defines_iff.mpr hd)]
      exact extraction_definition (defines_iff.mpr hd)
  | none =>
      have hnil : s.emits = [] := by rw [Site.emits, hd]
      rw [hnil]
      cases s with
      | options t ps =>
          refine .noProperty fun p hp => ?_
          exact emitsValue?_eq_none_iff.mp (List.findSome?_eq_none_iff.mp hd p hp)
      | emitsCall t o args =>
          cases o with
          | true => exact .typeOnly
          | false =>
              refine .noArgument fun e he => ?_
              obtain ⟨rest, rfl⟩ := List.head?_eq_some_iff.mp he
              cases hd

end

/-- The emits of a site are what its form declares, and nothing else is.  The value of an emit has
no wrappers around it, and two sites with one definition declare the same emits, whatever else
they hold. -/
theorem emits_eq_iff_extraction (s : Site) :
    (∀ es, s.emits = es ↔ Extraction s es) ∧
    (∀ r ∈ s.emits, ∀ v, r.value = some v → v.IsBare) ∧
    ∀ s' d, Defines s d → Defines s' d → s.emits = s'.emits := by
  refine ⟨fun es => ⟨?_, emits_of_extraction⟩, ?_, ?_⟩
  · rintro rfl
    exact extraction_emits s
  · intro r hr v hv
    exact isBare_of_extraction (extraction_emits s) hr hv
  · intro s' d hd hd'
    rw [emits_of_defines hd, emits_of_defines hd']

end EmitLint.Component
