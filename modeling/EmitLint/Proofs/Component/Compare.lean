/-
# Comparing what two trees declare

A change to a script is a relation between the trees before and after it.
`Likeness` collects what such a relation has to give for the sites of the two
trees to be compared one by one: the change is made to expressions, it keeps
the names of keys, and below the wrappers around a changed expression no array
and no object comes or goes.

Compared are the sites that two nodes of one head are (`Likeness.ownSites`),
the nodes where the walk goes next (`rel_walked`), and the declarations that a
site holds (`Likeness.siteEmits`).  A call is judged by three words of its callee,
and a chain by what it is around; so these have to be `Steady`.
-/
import EmitLint.Component.Emit
import EmitLint.Proofs.Component.Walk
import EmitLint.Proofs.Syntax.Rewriting

namespace EmitLint.Component

open Syntax

/-! ## Lists and options -/

section Relators
variable {α β : Type} {R : α → α → Prop} {as bs : List α}

theorem rel_head? (h : List.Forall₂ R as bs) : Option.Rel R as.head? bs.head? := by
  cases h with
  | nil => exact .none
  | cons hab _ => exact .some hab

theorem rel_getLast? (h : List.Forall₂ R as bs) : Option.Rel R as.getLast? bs.getLast? := by
  rw [← List.head?_reverse, ← List.head?_reverse]
  exact rel_head? (List.rel_reverse h)

theorem rel_findSome? {S : β → β → Prop} {f : α → Option β} (h : List.Forall₂ R as bs)
    (hf : ∀ a b, R a b → Option.Rel S (f a) (f b)) :
    Option.Rel S (as.findSome? f) (bs.findSome? f) := by
  induction h with
  | nil => exact .none
  | @cons a b as bs hab _ ih =>
      rw [List.findSome?_cons, List.findSome?_cons]
      have hfab := hf a b hab
      cases ha : f a with
      | none =>
          rw [ha] at hfab
          cases hb : f b with
          | none => exact ih
          | some d => rw [hb] at hfab; cases hfab
      | some c =>
          rw [ha] at hfab
          cases hb : f b with
          | none => rw [hb] at hfab; cases hfab
          | some d => rw [hb] at hfab; exact hfab

end Relators

/-! ## The words of a callee -/

/-- The text of a name. -/
def name? : Expr → Option String
  | .name _ text => some text
  | _ => none

/-- The property that a member names. -/
def member? : Expr → Option String
  | .member _ _ _ property => some property
  | _ => none

/-- The name of which the expression is a member. -/
def receiver? : Expr → Option String
  | .member _ _ object _ => name? object.unwrap
  | _ => none

theorem receiver?_eq_none {e : Expr} (h : member? e = none) : receiver? e = none := by
  cases e <;> first | rfl | cases h

/-- What a call is judged by is the same for both callees. -/
structure SameWords (e e' : Expr) : Prop where
  name : name? e = name? e'
  receiver : receiver? e = receiver? e'
  member : member? e = member? e'

theorem callSite_eq (m : Mode) (s : Span) (callee : Expr) (o : Bool) (args : List Element) :
    callSite m s callee o args =
      match name? callee, receiver? callee, member? callee with
      | some f, _, _ =>
          if f = "defineEmits" then
            if m.kind.isSetup then [.emitsCall s (args.isEmpty && o) args] else []
          else if f ∈ definers then argumentSite args.head?
          else []
      | none, some receiver, some method =>
          if isRegistration receiver method then argumentSite args.getLast? else []
      | none, _, _ => [] := by
  cases callee with
  | member f p object method =>
      simp only [callSite, name?, receiver?, member?]
      cases object.unwrap <;> rfl
  | _ => rfl

theorem newSite_eq (callee : Expr) (args : List Element) :
    newSite callee args = if name? callee = some "Vue" then argumentSite args.head? else [] := by
  cases callee with
  | name s f =>
      by_cases hf : f = "Vue"
      · subst hf
        rfl
      · have hname : name? (.name s f) ≠ some "Vue" := fun h => hf (Option.some.inj h)
        rw [if_neg hname]
        unfold newSite
        split
        · rename_i heq
          exact absurd (Expr.name.inj heq).2 hf
        · rfl
  | _ => rfl

/-! ## What a head tells -/

/-- The private name that a member names. -/
def field? : Expr → Option String
  | .privateMember _ _ _ field => some field
  | _ => none

/-- The name that an array element declares. -/
def declaredName? : Expr → Option String
  | .string _ value => some value
  | .template _ head [] => head
  | _ => none

theorem elementEmit?_item (e : Expr) :
    elementEmit? (.item e) = some ⟨declaredName? e, name? e, none, e.span⟩ := by
  cases e with
  | template s head parts => cases parts <;> rfl
  | _ => rfl

theorem name?_exprHead (e : Expr) : name? (exprHead e) = name? e := by
  cases e <;> rfl

theorem member?_exprHead (e : Expr) : member? (exprHead e) = member? e := by
  cases e <;> rfl

theorem field?_exprHead (e : Expr) : field? (exprHead e) = field? e := by
  cases e <;> rfl

theorem literalText?_exprHead (e : Expr) : literalText? (exprHead e) = literalText? e := by
  cases e with
  | template s head parts => cases parts <;> rfl
  | _ => rfl

theorem declaredName?_exprHead (e : Expr) : declaredName? (exprHead e) = declaredName? e := by
  cases e with
  | template s head parts => cases parts <;> rfl
  | _ => rfl

/-! ## Nodes that can be sites -/

/-- Both nodes are a call, a `new` or an export, or none of the two can be a site. -/
inductive SameForm : Node → Node → Prop
  | call {c c' : Span} {o o' t : Bool} {callee callee' : Expr} {args args' : List Element} :
      SameForm (.expr (.call c o callee t args)) (.expr (.call c' o' callee' t args'))
  | new {c c' : Span} {callee callee' : Expr} {args args' : List Element} :
      SameForm (.expr (.new c callee args)) (.expr (.new c' callee' args'))
  | exported {c c' : Span} {value value' : Expr} :
      SameForm (.stmt (.exportDefault c value)) (.stmt (.exportDefault c' value'))
  | other {n n' : Node} : (∀ m, n.ownSites m = []) → (∀ m, n'.ownSites m = []) → SameForm n n'

/-- The node is of a form that can be a site. -/
def canDeclare : Node → Bool
  | .expr (.call ..) | .expr (.new ..) | .stmt (.exportDefault ..) => true
  | _ => false

theorem canDeclare_head (n : Node) : canDeclare n.head = canDeclare n := by
  cases n with
  | expr e => cases e <;> rfl
  | stmt s => cases s <;> rfl
  | function fn | declarator fn | case fn => cases fn; rfl
  | _ => rfl

theorem ownSites_of_not_canDeclare (m : Mode) {n : Node} (h : canDeclare n = false) :
    n.ownSites m = [] := by
  cases n with
  | expr e => cases e <;> first | rfl | cases h
  | stmt s => cases s <;> first | rfl | cases h
  | _ => rfl

theorem sameForm_of_head {n n' : Node} (h : n.head = n'.head) : SameForm n n' := by
  cases hform : canDeclare n with
  | false =>
      have hform' : canDeclare n' = false := by
        rw [← canDeclare_head, ← h, canDeclare_head, hform]
      exact .other (fun m => ownSites_of_not_canDeclare m hform) fun m =>
        ownSites_of_not_canDeclare m hform'
  | true =>
      cases n with
      | expr e =>
          obtain ⟨e', rfl, hhead⟩ := expr_of_head h
          cases e with
          | call c o callee t args =>
              cases e' with
              | call c' o' callee' t' args' =>
                  obtain rfl : t = t' := (Expr.call.inj hhead).2.2.2.1
                  exact .call
              | _ => cases hhead
          | new c callee args =>
              cases e' with
              | new c' callee' args' => exact .new
              | _ => cases hhead
          | _ => cases hform
      | stmt t =>
          obtain ⟨t', rfl, hhead⟩ := stmt_of_head h
          cases t with
          | exportDefault c value =>
              cases t' with
              | exportDefault c' value' => exact .exported
              | _ => cases hhead
          | _ => cases hform
      | _ => cases hform

/-! ## Likenesses -/

/-- An array or an object. -/
def IsCollection : Expr → Prop
  | .array .. | .object .. => True
  | _ => False

/-- What a relation between the nodes before and after a change has to give. -/
structure Likeness (R : Node → Node → Prop) : Prop where
  /-- What is no expression differs in its parts. -/
  other : ∀ {n n'}, R n n' → (∀ e, n ≠ .expr e) → Agree R n n'
  key : ∀ {k k'}, R (.key k) (.key k') → keyName? k = keyName? k'
  /-- Wrappers aside, arrays and objects differ in their parts. -/
  value : ∀ {e e'}, R (.expr e) (.expr e') →
    Agree R (.expr e.unwrap) (.expr e'.unwrap) ∨
      ¬ IsCollection e.unwrap ∧ ¬ IsCollection e'.unwrap

section
variable {R : Node → Node → Prop} {n n' : Node} {e e' : Expr}

/-- What related elements are. -/
inductive ElementRel (R : Node → Node → Prop) : Element → Element → Prop
  | item {e e' : Expr} : R (.expr e) (.expr e') → ElementRel R (.item e) (.item e')
  | spread {s s' : Span} {e e' : Expr} : ElementRel R (.spread s e) (.spread s' e')
  | hole {s s' : Span} : ElementRel R (.hole s) (.hole s')

/-- What related properties are. -/
inductive PropertyRel (R : Node → Node → Prop) : Property → Property → Prop
  | entry {s s' : Span} {k k' : Key} {e e' : Expr} : keyName? k = keyName? k' →
      R (.expr e) (.expr e') → PropertyRel R (.entry s k e) (.entry s' k' e')
  | spread {s s' : Span} {e e' : Expr} : PropertyRel R (.spread s e) (.spread s' e')

/-- The sites differ in their parts. -/
inductive SiteRel (R : Node → Node → Prop) : Site → Site → Prop
  | options {s s' : Span} {ps ps' : List Property} :
      List.Forall₂ (fun p p' => R (.property p) (.property p')) ps ps' →
      SiteRel R (.options s ps) (.options s' ps')
  | emitsCall {s s' : Span} {o : Bool} {args args' : List Element} :
      List.Forall₂ (fun a a' => R (.element a) (.element a')) args args' →
      SiteRel R (.emitsCall s o args) (.emitsCall s' o args')

/-- Either none of the two expressions is a private member, or both are. -/
def PrivateLike (R : Node → Node → Prop) (e e' : Expr) : Prop :=
  field? e = none ∧ field? e' = none ∨ Agree R (.expr e) (.expr e')

/-- What is asked about a child from above stays the same: the words of a
callee, and whether a chain is around a private member. -/
structure Steady (R : Node → Node → Prop) (c c' : Position × Node) : Prop where
  callee : ∀ {f f'}, c = (.callee, .expr f) → c' = (.callee, .expr f') → SameWords f f'
  chained : ∀ {b b'}, c = (.chained, .expr b) → c' = (.chained, .expr b') → PrivateLike R b b'

/-! ## What parts are related to -/

theorem elementRel_of_agree {a a' : Element} (h : Agree R (.element a) (.element a')) :
    ElementRel R a a' := by
  obtain ⟨hhead, hparts⟩ := h
  cases a <;> cases a' <;> try cases hhead
  case item.item e e' => exact .item (List.forall₂_cons.mp hparts).1
  case spread.spread => exact .spread
  case hole.hole => exact .hole

theorem propertyRel_of_agree {p p' : Property}
    (hkey : ∀ {k k'}, R (.key k) (.key k') → keyName? k = keyName? k')
    (h : Agree R (.property p) (.property p')) : PropertyRel R p p' := by
  obtain ⟨hhead, hparts⟩ := h
  cases p <;> cases p' <;> try cases hhead
  case entry.entry s k e s' k' e' =>
      obtain ⟨hk, hvalue⟩ := List.forall₂_cons.mp hparts
      exact .entry (hkey hk) (List.forall₂_cons.mp hvalue).1
  case spread.spread => exact .spread

theorem rel_emitsValue? {p p' : Property} (h : PropertyRel R p p') :
    Option.Rel (fun v v' => R (.expr v) (.expr v')) (emitsValue? p) (emitsValue? p') := by
  cases h with
  | entry hkey hvalue =>
      rw [emitsValue?, emitsValue?, hkey]
      split
      · exact .some hvalue
      · exact .none
  | spread => exact .none

/-- Sites that differ in their parts hold definitions that are related. -/
theorem rel_definition? {s s' : Site} (h : SiteRel R s s')
    (hproperty : ∀ p p', R (.property p) (.property p') → PropertyRel R p p')
    (helement : ∀ a a', R (.element a) (.element a') → ElementRel R a a') :
    Option.Rel (fun v v' => R (.expr v) (.expr v')) s.definition? s'.definition? := by
  cases h with
  | options hps => exact rel_findSome? hps fun p p' hp => rel_emitsValue? (hproperty p p' hp)
  | @emitsCall s s' o args args' hargs =>
      cases o with
      | true => exact .none
      | false =>
          cases hargs with
          | nil => exact .none
          | cons ha _ =>
              cases helement _ _ ha with
              | item he => exact .some he
              | spread => exact .none
              | hole => exact .none

/-- The arguments among the parts of a call. -/
theorem rel_args {args args' : List Element}
    (h : List.Forall₂ R ((partsAt .part .element args).map (·.2))
      ((partsAt .part .element args').map (·.2))) :
    List.Forall₂ (fun a a' => R (.element a) (.element a')) args args' := by
  rwa [Node.map_snd_partsAt, Node.map_snd_partsAt, List.forall₂_map_left_iff,
    List.forall₂_map_right_iff] at h

/-- Two callees of the same words. -/
theorem sameWords_of_head (hhead : exprHead e = exprHead e')
    (hobject : ∀ {s s' : Span} {o o' : Bool} {object object' : Expr} {property property' : String},
      e = .member s o object property → e' = .member s' o' object' property' →
      exprHead object.unwrap = exprHead object'.unwrap) : SameWords e e' := by
  have hname : name? e = name? e' := by
    rw [← name?_exprHead, hhead, name?_exprHead]
  have hmember : member? e = member? e' := by
    rw [← member?_exprHead, hhead, member?_exprHead]
  refine ⟨hname, ?_, hmember⟩
  cases e with
  | member s o object property =>
      cases e' with
      | member s' o' object' property' =>
          rw [receiver?, receiver?, ← name?_exprHead, hobject rfl rfl, name?_exprHead]
      | _ => cases hhead
  | _ => exact (receiver?_eq_none hmember.symm).symm

/-- Calls of the same words are the same sites, if the arguments that they take are. -/
theorem rel_callSite {S : Site → Site → Prop} {m : Mode} {s s' : Span} {o : Bool}
    {args args' : List Element} (hwords : SameWords e e') (hempty : args.isEmpty = args'.isEmpty)
    (hcall : ∀ u, S (.emitsCall s u args) (.emitsCall s' u args'))
    (hfirst : ∀ f, name? e = some f → f ≠ "defineEmits" →
      List.Forall₂ S (argumentSite args.head?) (argumentSite args'.head?))
    (hlast : name? e = none →
      List.Forall₂ S (argumentSite args.getLast?) (argumentSite args'.getLast?)) :
    List.Forall₂ S (callSite m s e o args) (callSite m s' e' o args') := by
  rw [callSite_eq, callSite_eq, ← hwords.name, ← hwords.receiver, ← hwords.member, ← hempty]
  split
  · rename_i f hname
    split
    · split
      · exact .cons (hcall _) .nil
      · exact .nil
    · rename_i hf
      split
      · exact hfirst f hname hf
      · exact .nil
  · rename_i hname _ _
    split
    · exact hlast hname
    · exact .nil
  · exact .nil

namespace Likeness

theorem element (hR : Likeness R) {a a' : Element} (h : R (.element a) (.element a')) :
    ElementRel R a a' :=
  elementRel_of_agree (hR.other h fun _ => Node.noConfusion)

theorem property (hR : Likeness R) {p p' : Property} (h : R (.property p) (.property p')) :
    PropertyRel R p p' :=
  propertyRel_of_agree hR.key (hR.other h fun _ => Node.noConfusion)

theorem object (hR : Likeness R) {s : Span} {ps : List Property} (h : R (.expr e) (.expr e'))
    (he : e.unwrap = .object s ps) : ∃ s' ps', e'.unwrap = .object s' ps' ∧
      List.Forall₂ (fun p p' => R (.property p) (.property p')) ps ps' := by
  rcases hR.value h with hagree | ⟨hnot, -⟩
  · rw [he] at hagree
    exact hagree.object
  · rw [he] at hnot
    exact absurd trivial hnot

theorem array (hR : Likeness R) {s : Span} {els : List Element} (h : R (.expr e) (.expr e'))
    (he : e.unwrap = .array s els) : ∃ s' els', e'.unwrap = .array s' els' ∧
      List.Forall₂ (fun a a' => R (.element a) (.element a')) els els' := by
  rcases hR.value h with hagree | ⟨hnot, -⟩
  · rw [he] at hagree
    exact hagree.array
  · rw [he] at hnot
    exact absurd trivial hnot

/-- No object comes. -/
theorem object_of (hR : Likeness R) {s : Span} {ps : List Property} (h : R (.expr e) (.expr e'))
    (he' : e'.unwrap = .object s ps) : ∃ s' ps', e.unwrap = .object s' ps' := by
  rcases hR.value h with hagree | ⟨-, hnot⟩
  · rw [he'] at hagree
    obtain ⟨s', ps', he, -⟩ := hagree.converse.object
    exact ⟨s', ps', he⟩
  · rw [he'] at hnot
    exact absurd trivial hnot

/-- No array comes. -/
theorem array_of (hR : Likeness R) {s : Span} {els : List Element} (h : R (.expr e) (.expr e'))
    (he' : e'.unwrap = .array s els) : ∃ s' els', e.unwrap = .array s' els' := by
  rcases hR.value h with hagree | ⟨-, hnot⟩
  · rw [he'] at hagree
    obtain ⟨s', els', he, -⟩ := hagree.converse.array
    exact ⟨s', els', he⟩
  · rw [he'] at hnot
    exact absurd trivial hnot

/-! ## The site that a node is -/

theorem objectSite (hR : Likeness R) (h : R (.expr e) (.expr e')) :
    List.Forall₂ (SiteRel R) (objectSite e) (objectSite e') := by
  unfold Component.objectSite
  split
  · rename_i s ps hobject
    obtain ⟨s', ps', hobject', hps⟩ := hR.object h hobject
    rw [hobject']
    exact .cons (.options hps) .nil
  · rename_i hnot
    split
    · rename_i s' ps' hobject'
      obtain ⟨s, ps, hobject⟩ := hR.object_of h hobject'
      exact absurd hobject (hnot s ps)
    · exact .nil

theorem argumentSite (hR : Likeness R) {a a' : Option Element}
    (h : Option.Rel (fun a a' => R (.element a) (.element a')) a a') :
    List.Forall₂ (SiteRel R) (argumentSite a) (argumentSite a') := by
  cases h with
  | none => exact .nil
  | some ha =>
      cases hR.element ha with
      | item he => exact hR.objectSite he
      | spread => exact .nil
      | hole => exact .nil

theorem callSite (hR : Likeness R) {m : Mode} {s s' : Span} {o : Bool} {args args' : List Element}
    (hwords : SameWords e e')
    (hargs : List.Forall₂ (fun a a' => R (.element a) (.element a')) args args') :
    List.Forall₂ (SiteRel R) (callSite m s e o args) (callSite m s' e' o args') := by
  have hempty : args.isEmpty = args'.isEmpty := by
    cases hargs <;> rfl
  refine rel_callSite hwords hempty (fun _ => .emitsCall hargs) (fun _ _ _ => ?_) fun _ => ?_
  · exact hR.argumentSite (rel_head? hargs)
  · exact hR.argumentSite (rel_getLast? hargs)

theorem newSite (hR : Likeness R) {args args' : List Element} (hname : name? e = name? e')
    (hargs : List.Forall₂ (fun a a' => R (.element a) (.element a')) args args') :
    List.Forall₂ (SiteRel R) (newSite e args) (newSite e' args') := by
  rw [newSite_eq, newSite_eq, ← hname]
  split
  · exact hR.argumentSite (rel_head? hargs)
  · exact .nil

/-- Two nodes of one head are the same sites. -/
theorem ownSites (hR : Likeness R) (m : Mode) (h : Agree R n n')
    (hsteady : List.Forall₂ (Steady R) n.children n'.children) :
    List.Forall₂ (SiteRel R) (n.ownSites m) (n'.ownSites m) := by
  cases sameForm_of_head h.head with
  | call =>
      exact hR.callSite ((List.forall₂_cons.mp hsteady).1.callee rfl rfl)
        (rel_args (List.forall₂_cons.mp h.parts).2)
  | new =>
      exact hR.newSite ((List.forall₂_cons.mp hsteady).1.callee rfl rfl).name
        (rel_args (List.forall₂_cons.mp h.parts).2)
  | exported =>
      have hsites := hR.objectSite (List.forall₂_cons.mp h.parts).1
      show List.Forall₂ _ (if m.componentFile then _ else _) (if m.componentFile then _ else _)
      split
      · exact hsites
      · exact .nil
  | other hn hn' =>
      rw [hn, hn']
      exact .nil

/-! ## The declarations of a site -/

theorem definition? (hR : Likeness R) {s s' : Site} (h : SiteRel R s s') :
    Option.Rel (fun v v' => R (.expr v) (.expr v')) s.definition? s'.definition? :=
  rel_definition? h (fun _ _ => hR.property) fun _ _ => hR.element

variable {E : Emit → Emit → Prop}

/-- Definitions are compared entry by entry. -/
theorem definitionEmits (hR : Likeness R) (h : R (.expr e) (.expr e'))
    (helement : ∀ s els, e.unwrap = .array s els → ∀ a a', a ∈ els ∧ R (.element a) (.element a') →
      Option.Rel E (elementEmit? a) (elementEmit? a'))
    (hproperty : ∀ p p', R (.property p) (.property p') → E (propertyEmit p) (propertyEmit p')) :
    List.Forall₂ E (definitionEmits e) (definitionEmits e') := by
  unfold Component.definitionEmits
  split
  · rename_i s els harray
    obtain ⟨s', els', harray', hels⟩ := hR.array h harray
    rw [harray']
    have hmem : List.Forall₂ (fun a a' => a ∈ els ∧ R (.element a) (.element a')) els els' :=
      (List.forall₂_and_left _ _).mpr ⟨fun _ => id, hels⟩
    exact List.rel_filterMap (fun a a' ha => helement s els harray a a' ha) hmem
  · rename_i s ps hobject
    obtain ⟨s', ps', hobject', hps⟩ := hR.object h hobject
    rw [hobject']
    exact List.rel_map (fun p p' hp => hproperty p p' hp) hps
  · rename_i hnoarray hnoobject
    split
    · rename_i s' els' harray'
      obtain ⟨s, els, harray⟩ := hR.array_of h harray'
      exact absurd harray (hnoarray s els)
    · rename_i s' ps' hobject'
      obtain ⟨s, ps, hobject⟩ := hR.object_of h hobject'
      exact absurd hobject (hnoobject s ps)
    · exact .nil

theorem siteEmits (hR : Likeness R) {s s' : Site} (h : SiteRel R s s')
    (hdefinition : ∀ v v', s.definition? = some v → R (.expr v) (.expr v') →
      List.Forall₂ E (Component.definitionEmits v) (Component.definitionEmits v')) :
    List.Forall₂ E s.emits s'.emits := by
  have hrel := hR.definition? h
  unfold Site.emits
  cases hv : s.definition? with
  | none =>
      rw [hv] at hrel
      cases hv' : s'.definition? with
      | none => exact .nil
      | some v' => rw [hv'] at hrel; cases hrel
  | some v =>
      rw [hv] at hrel
      cases hv' : s'.definition? with
      | none => rw [hv'] at hrel; cases hrel
      | some v' =>
          rw [hv'] at hrel
          cases hrel with
          | some h => exact hdefinition v v' hv h

end Likeness

/-! ## Where the walk goes next -/

theorem passed_chain_of_field? {s : Span} (h : field? e = none) :
    (Node.expr (.chain s e)).passed = [] := by
  cases e <;> first | rfl | cases h

theorem passed_of_not_chain (h : ∀ s b, n ≠ .expr (.chain s b)) : n.passed = [] := by
  unfold Node.passed
  split
  · exact absurd rfl (h _ _)
  · rfl

theorem rel_passed_chain {s s' : Span} (h : PrivateLike R e e') :
    List.Forall₂ R (Node.expr (.chain s e)).passed (Node.expr (.chain s' e')).passed := by
  cases hfield : field? e with
  | none =>
      have hfield' : field? e' = none := by
        rcases h with ⟨-, hnone'⟩ | ⟨hhead, -⟩
        · exact hnone'
        · rw [← field?_exprHead, ← Node.expr.inj hhead, field?_exprHead, hfield]
      rw [passed_chain_of_field? hfield, passed_chain_of_field? hfield']
      exact .nil
  | some field =>
      rcases h with ⟨hnone, -⟩ | ⟨hhead, hparts⟩
      · rw [hnone] at hfield
        cases hfield
      · cases e with
        | privateMember u o object field =>
            cases e' with
            | privateMember u' o' object' field' => exact hparts
            | _ => cases hhead
        | _ => cases hfield

theorem rel_passed (h : Agree R n n') (hsteady : List.Forall₂ (Steady R) n.children n'.children) :
    List.Forall₂ R n.passed n'.passed := by
  by_cases hchain : ∃ s b, n = .expr (.chain s b)
  · obtain ⟨s, body, rfl⟩ := hchain
    obtain ⟨e', rfl, hhead⟩ := expr_of_head h.head
    cases e' with
    | chain s' body' => exact rel_passed_chain ((List.forall₂_cons.mp hsteady).1.chained rfl rfl)
    | _ => cases hhead
  · have hchain' : ∀ s b, n' ≠ .expr (.chain s b) := by
      rintro s b rfl
      obtain ⟨e, rfl, hhead⟩ := expr_of_head h.head.symm
      cases e with
      | chain u body => exact hchain ⟨u, body, rfl⟩
      | _ => cases hhead
    rw [passed_of_not_chain fun s b heq => hchain ⟨s, b, heq⟩, passed_of_not_chain hchain']
    exact .nil

/-- From two nodes of one head the walk goes to the same parts. -/
theorem rel_walked (h : Agree R n n') (hsteady : List.Forall₂ (Steady R) n.children n'.children) :
    List.Forall₂ R n.walked n'.walked := by
  rw [Node.walked_eq, Node.walked_eq]
  refine List.rel_append ?_ (rel_passed h hsteady)
  refine List.rel_filterMap (fun c c' hc => ?_) h.children
  obtain ⟨hposition, hpart⟩ := hc
  rw [← hposition]
  cases c.1.isWalked with
  | true => exact .some hpart
  | false => exact .none

end
end EmitLint.Component
