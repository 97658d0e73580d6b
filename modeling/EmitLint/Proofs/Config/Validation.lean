/-
# Which name is reported

A configuration is valid exactly if each name that it has a setting for is the
name of a registered rule, and otherwise the first of the other names is
reported.  Main statement: `setAll_answers`, on a configuration behind any run
of settings and a registry behind any run of registrations.

* Only the sets of names count: `Unregistered` does not tell in which order the
  settings were given, how often, or which they are.
* First is meant in the order of the bytes.  The answer can be had from the
  names in any order by sorting them (`validate_eq_validateListing`), although
  here they are kept sorted and searched.
-/
import Mathlib.Tactic.Tauto
import EmitLint.Config.File
import EmitLint.Proofs.Config.RuleMap
import EmitLint.Proofs.Text.ByteOrder

namespace EmitLint

/-! ## The first name -/

/-- The name is the first, by the bytes, of those that are meant. -/
def FirstByBytes (meant : String → Prop) (name : String) : Prop :=
  meant name ∧ ∀ other, meant other → other ≠ name → Text.bytes name < Text.bytes other

section

variable {meant meant' : String → Prop} {names : List String} {name : String}

theorem FirstByBytes.congr (h : ∀ name, meant name ↔ meant' name) :
    FirstByBytes meant name ↔ FirstByBytes meant' name := by
  rw [funext fun name => propext (h name)]

/-- A sorted list begins with the first of its names. -/
theorem head?_eq_some_iff_first (h : names.Pairwise fun a b => ¬ b < a) :
    names.head? = some name ↔ FirstByBytes (· ∈ names) name := by
  cases names with
  | nil => simp [FirstByBytes]
  | cons first names =>
      have hfirst : ∀ other ∈ names, ¬ other < first := (List.pairwise_cons.mp h).1
      rw [List.head?_cons, Option.some.injEq]
      constructor
      · rintro rfl
        refine ⟨List.mem_cons_self, fun other hother hne => Text.bytes_lt_bytes_iff.mpr ?_⟩
        exact RuleMap.lt_of_not_lt (hfirst other ((List.mem_cons.mp hother).resolve_left hne)) hne
      · rintro ⟨hname, hleast⟩
        refine Decidable.byContradiction fun hne => ?_
        exact hfirst name ((List.mem_cons.mp hname).resolve_left (Ne.symm hne))
          (Text.bytes_lt_bytes_iff.mp (hleast first List.mem_cons_self hne))

end

/-! ## Runs -/

namespace Registry

/-- The registry that a run of registrations gives. -/
def ofRules (rules : List Rule) : Registry := rules.foldl register []

theorem foldl_register (rules : List Rule) (r : Registry) :
    rules.foldl register r = r ++ rules := by
  induction rules generalizing r with
  | nil => rw [List.foldl_nil, List.append_nil]
  | cons rule rules ih =>
      rw [List.foldl_cons, ih, register, List.append_assoc, List.singleton_append]

/-- One of the rules has the name. -/
def Registers (rules : List Rule) (name : String) : Prop := ∃ rule ∈ rules, rule.info.name = name

instance (rules : List Rule) (name : String) : Decidable (Registers rules name) :=
  inferInstanceAs (Decidable (∃ rule ∈ rules, rule.info.name = name))

theorem get?_ofRules_isNone_iff {rules : List Rule} {name : String} :
    ((ofRules rules).get? name).isNone ↔ ¬ Registers rules name := by
  rw [ofRules, foldl_register, List.nil_append]
  simp [get?, Registers]

end Registry

namespace Config

/-- The configuration behind a run of settings. -/
def setAll (c : Config) (given : List (String × Setting)) : Config :=
  given.foldl (fun c e => c.set e.1 e.2) c

/-- There is a setting for the name, in the configuration or in the run behind it. -/
def Configures (c : Config) (given : List (String × Setting)) (name : String) : Prop :=
  (c.rules.get? name).isSome ∨ name ∈ given.map (·.1)

/-- There is a setting for the name, but no rule of it was registered. -/
def Unregistered (c : Config) (given : List (String × Setting)) (rules : List Rule)
    (name : String) : Prop :=
  c.Configures given name ∧ ¬ Registry.Registers rules name

section

variable {c : Config} {given : List (String × Setting)} {rules : List Rule} {name : String}

theorem rules_setAll (c : Config) (given : List (String × Setting)) :
    (c.setAll given).rules = given.foldl (fun m e => m.set e.1 e.2) c.rules := by
  induction given generalizing c with
  | nil => rfl
  | cons e given ih => exact ih (c.set e.1 e.2)

theorem get?_setAll (c : Config) (given : List (String × Setting)) (name : String) :
    (c.setAll given).rules.get? name = (lastSetting name given).or (c.rules.get? name) := by
  rw [rules_setAll, RuleMap.get?_foldl_set]

theorem mem_names_setAll_iff : name ∈ (c.setAll given).rules.names ↔ c.Configures given name := by
  rw [RuleMap.mem_names_iff, get?_setAll, Configures, ← lastSetting_isSome_iff, Option.isSome_or,
    Bool.or_eq_true, or_comm]

/-- What is looked for along the sorted names is the first unregistered one. -/
theorem unknownRule?_eq_some_iff :
    (c.setAll given).unknownRule? (.ofRules rules) = some name ↔
      FirstByBytes (c.Unregistered given rules) name := by
  rw [unknownRule?, ← List.head?_filter,
    head?_eq_some_iff_first ((c.setAll given).rules.pairwise_names.filter _)]
  refine FirstByBytes.congr fun other => ?_
  rw [List.mem_filter, mem_names_setAll_iff, Registry.get?_ofRules_isNone_iff, Unregistered]

theorem unknownRule?_eq_none_iff :
    (c.setAll given).unknownRule? (.ofRules rules) = none ↔
      ∀ name, c.Configures given name → Registry.Registers rules name := by
  rw [unknownRule?, List.find?_eq_none]
  refine forall_congr' fun name => ?_
  rw [mem_names_setAll_iff, Registry.get?_ofRules_isNone_iff, Decidable.not_not]

/-- Where the same names are configured and the same names are registered, the same is found. -/
theorem unknownRule?_congr {c' : Config} {given' : List (String × Setting)} {rules' : List Rule}
    (hnames : ∀ name, c'.Configures given' name ↔ c.Configures given name)
    (hrules : ∀ name, Registry.Registers rules' name ↔ Registry.Registers rules name) :
    (c'.setAll given').unknownRule? (.ofRules rules') =
      (c.setAll given).unknownRule? (.ofRules rules) := by
  refine Option.ext fun name => ?_
  rw [unknownRule?_eq_some_iff, unknownRule?_eq_some_iff]
  refine FirstByBytes.congr fun other => ?_
  rw [Unregistered, Unregistered, hnames, hrules]

theorem validate_eq_ok_iff {registry : Registry} :
    c.validate registry = .ok () ↔ c.unknownRule? registry = none := by
  rw [validate]
  cases c.unknownRule? registry <;> simp

theorem validate_eq_error_iff {registry : Registry} {e : ConfigError} :
    c.validate registry = .error e ↔
      ∃ name, e = .unknownRule name ∧ c.unknownRule? registry = some name := by
  rw [validate]
  cases c.unknownRule? registry <;> simp [eq_comm]

theorem severityFor_setAll (c : Config) (given : List (String × Setting)) (info : RuleMeta) :
    (c.setAll given).severityFor info =
      match (lastSetting info.name given).or (c.rules.get? info.name) with
      | some setting => setting.severity?
      | none => some info.defaultSeverity := by
  rw [← get?_setAll]
  rfl

/-! ## Names in any order -/

/-- The names as they are listed, without those of rules, put in the order of their bytes. -/
def unknownListing (names : List String) (registry : Registry) : List String :=
  (names.filter fun name => (registry.get? name).isNone).mergeSort
    fun a b => !decide (Text.bytes b < Text.bytes a)

/-- The answer of a configuration whose names are listed so. -/
def validateListing (names : List String) (registry : Registry) : Except ConfigError Unit :=
  match (unknownListing names registry).head? with
  | some name => .error (.unknownRule name)
  | none => .ok ()

theorem pairwise_unknownListing (names : List String) (registry : Registry) :
    (unknownListing names registry).Pairwise fun a b => ¬ b < a := by
  have htrans : ∀ a b c : String, !decide (Text.bytes b < Text.bytes a) →
      !decide (Text.bytes c < Text.bytes b) → !decide (Text.bytes c < Text.bytes a) := by
    simp only [Text.bytes_lt_bytes_iff, Bool.not_eq_true', decide_eq_false_iff_not, String.not_lt]
    exact fun a b c => String.le_trans
  have htotal : ∀ a b : String, !decide (Text.bytes b < Text.bytes a) ||
      !decide (Text.bytes a < Text.bytes b) := by
    simp only [Text.bytes_lt_bytes_iff, Bool.or_eq_true, Bool.not_eq_true',
      decide_eq_false_iff_not, String.not_lt]
    exact fun a b => String.le_total a b
  refine (List.pairwise_mergeSort htrans htotal _).imp fun h => ?_
  simpa only [Text.bytes_lt_bytes_iff, Bool.not_eq_true', decide_eq_false_iff_not] using h

/-- The first name of the listing is what a search along the sorted names finds. -/
theorem head?_unknownListing {registry : Registry} {names : List String}
    (h : names.Perm c.rules.names) :
    (unknownListing names registry).head? = c.unknownRule? registry := by
  refine Option.ext fun name => ?_
  rw [unknownRule?, ← List.head?_filter, head?_eq_some_iff_first (pairwise_unknownListing _ _),
    head?_eq_some_iff_first (c.rules.pairwise_names.filter _)]
  refine FirstByBytes.congr fun other => ?_
  rw [unknownListing, List.mem_mergeSort, List.mem_filter, List.mem_filter, h.mem_iff]

theorem validate_eq_validateListing {registry : Registry} {names : List String}
    (h : names.Perm c.rules.names) : c.validate registry = validateListing names registry := by
  rw [validateListing, head?_unknownListing h]
  rfl

/-- What a configuration behind a run of settings answers.  It is valid exactly if each name with a
setting is that of a rule, or else the first of the other names is reported; the names may be listed
in any order, and another run or registry with the same names has the same answer.  The severity of
a rule is that of the last setting for its name, or the default one. -/
theorem setAll_answers (c : Config) (given : List (String × Setting)) (rules : List Rule) :
    ((c.setAll given).validate (.ofRules rules) = .ok () ↔
        ∀ name, c.Configures given name → Registry.Registers rules name) ∧
      (∀ e, (c.setAll given).validate (.ofRules rules) = .error e ↔
        ∃ name, e = .unknownRule name ∧ FirstByBytes (c.Unregistered given rules) name) ∧
      (∀ names, names.Perm (c.setAll given).rules.names →
        (c.setAll given).validate (.ofRules rules) = validateListing names (.ofRules rules)) ∧
      (∀ (c' : Config) given' rules',
        (∀ name, c'.Configures given' name ↔ c.Configures given name) →
        (∀ name, Registry.Registers rules' name ↔ Registry.Registers rules name) →
          (c'.setAll given').validate (.ofRules rules') =
            (c.setAll given).validate (.ofRules rules)) ∧
      ∀ info, (c.setAll given).severityFor info =
        match (lastSetting info.name given).or (c.rules.get? info.name) with
        | some setting => setting.severity?
        | none => some info.defaultSeverity := by
  refine ⟨validate_eq_ok_iff.trans unknownRule?_eq_none_iff, fun e => ?_,
    fun _ => validate_eq_validateListing, fun c' given' rules' hnames hrules => ?_,
    severityFor_setAll c given⟩
  · rw [validate_eq_error_iff]
    simp only [unknownRule?_eq_some_iff]
  · rw [validate, validate, unknownRule?_congr hnames hrules]

/-- Two runs give settings for the same names, in another order, and two registries hold the same
rule. -/
theorem setAll_answers_two_runs :
    let rule : Rule := ⟨⟨"b", "", .uncategorized, false, false, .warning⟩, fun context _ => context⟩
    let run := empty.setAll [("c", .warn), ("a", .off), ("b", .error), ("b", .off)]
    let other := empty.setAll [("a", .error), ("b", .off), ("c", .off), ("a", .warn)]
    other.validate (.ofRules [rule, rule]) = run.validate (.ofRules [rule]) ∧
      run.validate (.ofRules [rule]) = .error (.unknownRule "a") ∧
      run.severityFor rule.info = none := by
  intro rule run other
  obtain ⟨-, herror, -, hsame, hseverity⟩ :=
    setAll_answers empty [("c", .warn), ("a", .off), ("b", .error), ("b", .off)] [rule]
  refine ⟨hsame empty _ _ (fun name => ?_) fun name => ?_, (herror _).mpr ⟨"a", rfl, ?_, ?_⟩,
    hseverity rule.info⟩
  · simp only [Configures, List.map_cons, List.map_nil, List.mem_cons, List.not_mem_nil]
    tauto
  · simp [Registry.Registers]
  · exact ⟨.inr (by decide), by decide⟩
  · rintro name ⟨hset | hset, hrule⟩ hne
    · exact nomatch hset
    · simp only [List.map_cons, List.map_nil, List.mem_cons, List.not_mem_nil, or_false] at hset
      rcases hset with rfl | rfl | rfl | rfl
      · decide
      · exact absurd rfl hne
      all_goals exact absurd (by decide) hrule

end

end Config

end EmitLint
