/-
# What a map of settings holds

The setting of a rule is the one that was given last for its name, in whatever
way the map came about.  Main statements: `get?_foldl_set`, what a run of
settings leaves under a name, and `RuleMap.ext_get?`, a map is no more than its
answers.  From the two it follows that the order in which different rules are
set makes no difference.
-/
import EmitLint.Config.RuleMap

namespace EmitLint

/-- The setting that is given last for a name. -/
def lastSetting (name : String) (settings : List (String × Setting)) : Option Setting :=
  settings.reverse.lookup name

section

variable {name : String} {e : String × Setting} {es ds : List (String × Setting)} {s : Setting}

theorem lookup_cons (name : String) (e : String × Setting) (es : List (String × Setting)) :
    (e :: es).lookup name = if name = e.1 then some e.2 else es.lookup name := by
  rw [List.lookup_cons]
  split
  · rename_i h
    rw [if_pos (beq_iff_eq.mp h)]
  · rename_i h
    rw [if_neg (beq_eq_false_iff_ne.mp h)]

theorem lastSetting_cons (name : String) (e : String × Setting) (es : List (String × Setting)) :
    lastSetting name (e :: es) =
      (lastSetting name es).or (if name = e.1 then some e.2 else none) := by
  rw [lastSetting, List.reverse_cons, List.lookup_append, lookup_cons, List.lookup_nil, lastSetting]

theorem lastSetting_isSome_iff : (lastSetting name es).isSome ↔ name ∈ es.map (·.1) := by
  induction es with
  | nil => simp [lastSetting]
  | cons e es ih =>
      rw [lastSetting_cons, List.map_cons, List.mem_cons, ← ih]
      by_cases h : name = e.1 <;> cases lastSetting name es <;> simp [h]

/-- Where no name comes twice, a look-up finds just what is there. -/
theorem lookup_eq_some_iff (h : (es.map (·.1)).Nodup) :
    es.lookup name = some s ↔ (name, s) ∈ es := by
  induction es with
  | nil => simp
  | cons e es ih =>
      obtain ⟨hnew, hrest⟩ := List.nodup_cons.mp (List.map_cons ▸ h)
      by_cases heq : name = e.1
      · subst heq
        have hnot : (e.1, s) ∉ es := fun hmem => hnew (List.mem_map.mpr ⟨_, hmem, rfl⟩)
        rw [lookup_cons, if_pos rfl]
        simp [hnot, Prod.ext_iff, eq_comm]
      · rw [lookup_cons, if_neg heq, ih hrest]
        simp [Prod.ext_iff, heq]

/-- Settings for different rules can be given in any order. -/
theorem lastSetting_of_perm (h : (es.map (·.1)).Nodup) (hperm : ds.Perm es) (name : String) :
    lastSetting name ds = es.lookup name := by
  have hreverse : ds.reverse.Perm es := (List.reverse_perm ds).trans hperm
  have hnodup : (ds.reverse.map (·.1)).Nodup := (hreverse.map _).nodup_iff.mpr h
  refine Option.ext fun s => ?_
  rw [lastSetting, lookup_eq_some_iff hnodup, lookup_eq_some_iff h, hreverse.mem_iff]

end

namespace RuleMap

variable {a b : RuleMap} {name : String}

theorem find_eq_lookup (name : String) (es : List (String × Setting)) :
    find name es = es.lookup name := by
  induction es with
  | nil => rfl
  | cons e es ih => rw [find, ih, lookup_cons]

theorem get?_eq_lookup (m : RuleMap) (name : String) : m.get? name = m.entries.lookup name :=
  find_eq_lookup name m.entries

theorem nodup_names (m : RuleMap) : (m.entries.map (·.1)).Nodup :=
  List.pairwise_map.mpr (m.sorted.imp fun h => String.ne_of_lt h)

theorem pairwise_names (m : RuleMap) : m.names.Pairwise fun a b => ¬ b < a :=
  List.pairwise_map.mpr (m.sorted.imp String.lt_asymm)

theorem nodup_entries (m : RuleMap) : m.entries.Nodup :=
  List.Pairwise.imp (fun h heq => String.ne_of_lt h (congrArg Prod.fst heq)) m.sorted

theorem mem_entries_iff (m : RuleMap) {s : Setting} :
    (name, s) ∈ m.entries ↔ m.get? name = some s := by
  rw [get?_eq_lookup, lookup_eq_some_iff m.nodup_names]

/-- Two maps that answer alike are the same. -/
theorem ext_get? (h : ∀ name, a.get? name = b.get? name) : a = b := by
  have hmem : ∀ e, e ∈ a.entries ↔ e ∈ b.entries := by
    intro e
    rw [mem_entries_iff, mem_entries_iff, h]
  have hperm : a.entries.Perm b.entries :=
    (List.perm_ext_iff_of_nodup a.nodup_entries b.nodup_entries).mpr hmem
  -- Lists with the same entries are equal where both are sorted.
  have hentries : a.entries = b.entries :=
    hperm.eq_of_pairwise (fun _ _ _ _ hab hba => absurd (String.lt_trans hab hba)
      (String.lt_irrefl _)) a.sorted b.sorted
  cases a
  cases b
  cases hentries
  rfl

/-- Behind a run of settings, the last one for a name counts, or else the former one. -/
theorem get?_foldl_set (m : RuleMap) (es : List (String × Setting)) (name : String) :
    (es.foldl (fun m e => m.set e.1 e.2) m).get? name =
      (lastSetting name es).or (m.get? name) := by
  induction es generalizing m with
  | nil => rfl
  | cons e es ih =>
      rw [List.foldl_cons, ih, get?_set, lastSetting_cons, Option.or_assoc]
      congr 1
      split <;> rfl

theorem get?_ofList (es : List (String × Setting)) (name : String) :
    (ofList es).get? name = lastSetting name es := by
  rw [ofList, get?_foldl_set, get?_empty, Option.or_none]

theorem lastSetting_entries (m : RuleMap) {es : List (String × Setting)}
    (h : es.Perm m.entries) (name : String) : lastSetting name es = m.get? name := by
  rw [lastSetting_of_perm m.nodup_names h, get?_eq_lookup]

end RuleMap

end EmitLint
