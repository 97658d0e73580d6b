/-
# Settings by rule name

A finite map from rule names to settings, kept in the order of the names.
The order makes equal maps equal values, and the least name of any kind is
the first one met.

Main statement: `get?_set`, a look-up gives what was set last for the name.
-/
import EmitLint.Config.Setting

namespace EmitLint

/-- Settings by rule name, in the order of the names. -/
structure RuleMap where
  entries : List (String × Setting)
  sorted : entries.Pairwise fun a b => a.1 < b.1

namespace RuleMap

/-- Put a setting under a name, in order, in the place of a former one. -/
def insert (name : String) (setting : Setting) : List (String × Setting) → List (String × Setting)
  | [] => [(name, setting)]
  | e :: rest =>
      if name < e.1 then (name, setting) :: e :: rest
      else if name = e.1 then (name, setting) :: rest
      else e :: insert name setting rest

theorem mem_insert {name : String} {setting : Setting} {es : List (String × Setting)}
    {e : String × Setting} (h : e ∈ insert name setting es) : e = (name, setting) ∨ e ∈ es := by
  induction es with
  | nil => simpa [insert] using h
  | cons d ds ih =>
    simp only [insert] at h
    split at h
    · simpa using h
    · split at h
      · rcases List.mem_cons.1 h with h | h
        · exact .inl h
        · exact .inr (List.mem_cons_of_mem _ h)
      · rcases List.mem_cons.1 h with h | h
        · exact .inr (h ▸ List.mem_cons_self)
        · rcases ih h with h | h
          · exact .inl h
          · exact .inr (List.mem_cons_of_mem _ h)

theorem lt_of_not_lt {a b : String} (h : ¬ a < b) (hne : a ≠ b) : b < a := by
  rcases String.le_total a b with hab | hba
  · exact absurd (String.le_antisymm hab (String.not_lt.1 h)) hne
  · rcases Decidable.em (b < a) with hlt | hlt
    · exact hlt
    · exact absurd (String.le_antisymm (String.not_lt.1 hlt) (String.not_lt.1 h)) hne

theorem sorted_insert (name : String) (setting : Setting) {es : List (String × Setting)}
    (h : es.Pairwise fun a b => a.1 < b.1) :
    (insert name setting es).Pairwise fun a b => a.1 < b.1 := by
  induction es with
  | nil => simp [insert]
  | cons d ds ih =>
    obtain ⟨hd, hds⟩ := List.pairwise_cons.1 h
    simp only [insert]
    split
    · rename_i hlt
      refine List.pairwise_cons.2 ⟨fun e he => ?_, h⟩
      rcases List.mem_cons.1 he with rfl | he
      · exact hlt
      · exact String.lt_trans hlt (hd e he)
    · rename_i hnlt
      split
      · rename_i heq
        exact List.pairwise_cons.2 ⟨fun e he => heq ▸ hd e he, hds⟩
      · rename_i hne
        refine List.pairwise_cons.2 ⟨fun e he => ?_, ih hds⟩
        rcases mem_insert he with rfl | he
        · exact lt_of_not_lt hnlt hne
        · exact hd e he

/-- The map without settings. -/
def empty : RuleMap := ⟨[], .nil⟩

instance : Inhabited RuleMap := ⟨empty⟩

/-- Set a rule, in the place of its former setting. -/
def set (m : RuleMap) (name : String) (setting : Setting) : RuleMap :=
  ⟨insert name setting m.entries, sorted_insert name setting m.sorted⟩

/-- The setting under a name in a list. -/
def find (name : String) : List (String × Setting) → Option Setting
  | [] => none
  | e :: rest => if name = e.1 then some e.2 else find name rest

/-- The setting of a rule. -/
def get? (m : RuleMap) (name : String) : Option Setting := find name m.entries

/-- The names that have a setting, in order. -/
def names (m : RuleMap) : List String := m.entries.map (·.1)

/-- The map that a list of settings gives when they are set one by one. -/
def ofList (settings : List (String × Setting)) : RuleMap :=
  settings.foldl (fun m e => m.set e.1 e.2) empty

theorem find_insert (name other : String) (setting : Setting) (es : List (String × Setting)) :
    find other (insert name setting es) = if other = name then some setting else find other es := by
  induction es with
  | nil => rfl
  | cons d ds ih =>
    simp only [insert]
    split
    · rfl
    · split
      · rename_i heq
        by_cases ho : other = name <;> simp [find, ho, ← heq]
      · rename_i hne
        by_cases ho : other = name
        · subst ho
          simpa [find, hne] using ih
        · simp [find, ih, ho]

@[simp] theorem get?_set (m : RuleMap) (name other : String) (setting : Setting) :
    (m.set name setting).get? other = if other = name then some setting else m.get? other :=
  find_insert name other setting m.entries

@[simp] theorem get?_empty (name : String) : empty.get? name = none := rfl

theorem mem_names_iff (m : RuleMap) (name : String) :
    name ∈ m.names ↔ (m.get? name).isSome := by
  simp only [names, get?]
  induction m.entries with
  | nil => simp [find]
  | cons d ds ih =>
    by_cases h : name = d.1
    · simp [find, h]
    · simpa [find, h] using ih

end RuleMap
end EmitLint
