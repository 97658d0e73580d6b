/-
# In what order the edits of a fix are listed

Edits with one start are made in the order of the list.  An insertion and an edit
that replaces the text behind it may have one start, and then the order can show:
made first, the insertion stands where the other expects the text that it is to
take out (`overwritten`).

Main statement: `listing_matters_iff`.  The order of the list does not matter
exactly if it does not matter for any two edits with one start, made alone; and
where each insertion is listed behind the other, all edits are made at once.
-/
import EmitLint.Proofs.Report.AtOnce
import Mathlib.Data.List.Pairwise

namespace EmitLint.Fix

open Text

/-! ## An insertion and what stands behind it -/

/-- What comes of `put`, inserted in front of `old`, when as many bytes as `old`
has are replaced by `new` afterwards. -/
def overwritten (put old new : List Char) : Option (List Char) :=
  (splitAt? (put ++ old) (byteLength old)).map fun halves => new ++ halves.2

/-- The insertion `i` and the edit `r` begin at one place. -/
structure Meets (i r : TextEdit) : Prop where
  insertion : i.IsInsertion
  replacement : ¬ r.IsInsertion
  start : i.span.start = r.span.start

section
variable {i r : TextEdit} {u old v : List Char}

theorem replaceIn_insertion (hi : i.IsInsertion) (hstart : i.span.start = byteLength u)
    (v : List Char) : i.replaceIn (u ++ v) = some (u ++ (i.newText.toList ++ v)) := by
  have hmade := i.replaceIn_append u [] v hstart (hi.symm.trans hstart)
  rw [List.append_nil, List.append_assoc] at hmade
  exact hmade

/-- The insertion comes last: both texts are there. -/
theorem replaceAll_insertion_last (h : Meets i r) (hstart : r.span.start = byteLength u)
    (hstop : r.span.stop = byteLength u + byteLength old) :
    replaceAll (u ++ old ++ v) [r, i] =
      some (u ++ (i.newText.toList ++ r.newText.toList ++ v)) := by
  rw [replaceAll_cons, r.replaceIn_append u old v hstart hstop, Option.bind_some, replaceAll_cons,
    List.append_assoc, replaceIn_insertion h.insertion (h.start.trans hstart), Option.bind_some,
    replaceAll_nil, List.append_assoc i.newText.toList]

/-- The insertion comes first: the other edit takes its bytes out of what was put in. -/
theorem replaceAll_insertion_first (h : Meets i r) (hstart : r.span.start = byteLength u)
    (hstop : r.span.stop = byteLength u + byteLength old) :
    replaceAll (u ++ old ++ v) [i, r] =
      (overwritten i.newText.toList old r.newText.toList).map fun w => u ++ (w ++ v) := by
  have hfits : r.Fits (u ++ (i.newText.toList ++ (old ++ v))) := by
    rw [TextEdit.Fits]
    simp only [byteLength_append]
    omega
  have hinside : r.span.stop - r.span.start = byteLength old := by omega
  have hsplit : splitAt? (i.newText.toList ++ (old ++ v)) (byteLength old) =
      (splitAt? (i.newText.toList ++ old) (byteLength old)).map
        fun halves => (halves.1, halves.2 ++ v) := by
    rw [← List.append_assoc]
    refine splitAt?_append_of_le ?_
    rw [byteLength_append]
    exact Nat.le_add_left _ _
  rw [replaceAll_cons, List.append_assoc, replaceIn_insertion h.insertion (h.start.trans hstart),
    Option.bind_some, replaceAll_cons, TextEdit.replaceIn, if_pos hfits, hinside, hstart,
    splitAt?_append]
  simp only [Option.bind_eq_bind, Option.bind_some, hsplit, overwritten]
  cases splitAt? (i.newText.toList ++ old) (byteLength old) with
  | none => rfl
  | some halves => simp [replaceAll_nil]

/-- Which of the two is made first can be told by these texts alone. -/
theorem replaceAll_swap_iff (h : Meets i r) (hstart : r.span.start = byteLength u)
    (hstop : r.span.stop = byteLength u + byteLength old) :
    replaceAll (u ++ old ++ v) [i, r] = replaceAll (u ++ old ++ v) [r, i] ↔
      overwritten i.newText.toList old r.newText.toList =
        some (i.newText.toList ++ r.newText.toList) := by
  rw [replaceAll_insertion_first h hstart hstop, replaceAll_insertion_last h hstart hstop,
    Option.map_eq_some_iff]
  constructor
  · rintro ⟨w, hw, hsame⟩
    rw [hw, List.append_cancel_right (List.append_cancel_left hsame)]
  · intro hw
    exact ⟨_, hw, rfl⟩

end

/-! ## Lists from the back -/

/-- A list from the back, in which an insertion stands on either side of the edit
that replaces the text behind it. -/
inductive Stacked : List TextEdit → Prop
  | nil : Stacked []
  | cons {e : TextEdit} {edits : List TextEdit} :
      (∀ x ∈ edits, x.Precedes e) → Stacked edits → Stacked (e :: edits)
  | insertionFirst {i r : TextEdit} {edits : List TextEdit} :
      Meets i r → (∀ x ∈ edits, x.Precedes i) → Stacked edits → Stacked (i :: r :: edits)

section
variable {edits : List TextEdit} {text u : List Char} {a b e i r x : TextEdit}

/-- Of two edits with one start, one is an insertion and the other is not. -/
theorem Compatible.meets (h : Compatible a b) (ha : a.span.start ≤ a.span.stop)
    (hb : b.span.start ≤ b.span.stop) (hstart : a.span.start = b.span.start) :
    Meets a b ∨ Meets b a := by
  have hapart := h.1
  have hinsertions := h.2
  simp only [TextEdit.Apart, TextEdit.IsInsertion] at hapart hinsertions
  by_cases hi : a.IsInsertion
  · refine .inl ⟨hi, ?_, hstart⟩
    simp only [TextEdit.IsInsertion] at hi ⊢
    omega
  · refine .inr ⟨?_, hi, hstart.symm⟩
    simp only [TextEdit.IsInsertion] at hi ⊢
    omega

theorem Compatible.precedes (h : Compatible e x) (he : e.span.start ≤ e.span.stop)
    (hlt : x.span.start < e.span.start) : x.Precedes e := by
  refine ⟨?_, fun _ => Nat.ne_of_lt hlt⟩
  rcases h.1 with h | h <;> omega

theorem Meets.precedes (h : Meets i r) : i.Precedes r :=
  ⟨h.insertion ▸ Nat.le_of_eq h.start, fun hr => absurd hr h.replacement⟩

theorem Meets.precedes_of_precedes (h : Meets i r) (hx : x.Precedes i) : x.Precedes r :=
  ⟨h.start ▸ hx.1, fun hr => absurd hr h.replacement⟩

/-- No third edit begins where two begin. -/
theorem start_ne_of_meets (h : Meets i r) (hi : Compatible i x) (hr : Compatible r x)
    (hx : x.span.start ≤ x.span.stop) (hr' : r.span.start ≤ r.span.stop) :
    x.span.start ≠ i.span.start := by
  intro hstart
  have hinsertion := h.insertion
  have hreplacement := h.replacement
  have hsame := h.start
  have hapart := hr.1
  have hinsertions := hi.2
  simp only [TextEdit.Apart, TextEdit.IsInsertion] at *
  omega

theorem stacked_of_descends : ∀ {edits : List TextEdit}, Descends edits →
    edits.Pairwise Compatible → (∀ e ∈ edits, e.span.start ≤ e.span.stop) → Stacked edits
  | [], _, _, _ => .nil
  | [e], _, _, _ => .cons (fun x hx => absurd hx List.not_mem_nil) .nil
  | e :: y :: edits, hdescends, hpairs, hstart => by
      obtain ⟨hbelow, hdescends⟩ := List.pairwise_cons.mp hdescends
      obtain ⟨hcompatible, hpairs⟩ := List.pairwise_cons.mp hpairs
      obtain ⟨he, hstart⟩ := List.forall_mem_cons.mp hstart
      obtain ⟨hbelow', hdescends'⟩ := List.pairwise_cons.mp hdescends
      obtain ⟨hcompatible', hpairs'⟩ := List.pairwise_cons.mp hpairs
      obtain ⟨hy, hstart'⟩ := List.forall_mem_cons.mp hstart
      have hey := hcompatible y List.mem_cons_self
      have hrest := stacked_of_descends hdescends hpairs hstart
      have hrest' := stacked_of_descends hdescends' hpairs' hstart'
      rcases Nat.lt_or_eq_of_le (hbelow y List.mem_cons_self) with hlt | heq
      · -- All others begin in front of `e`.
        refine .cons (fun x hx => (hcompatible x hx).precedes he ?_) hrest
        rcases List.mem_cons.mp hx with rfl | hx
        · exact hlt
        · exact Nat.lt_of_le_of_lt (hbelow' x hx) hlt
      · have hlt : Meets e y ∨ Meets y e → ∀ x ∈ edits, x.span.start < e.span.start := by
          intro hmeets x hx
          have hex := hcompatible x (List.mem_cons_of_mem _ hx)
          have hyx := hcompatible' x hx
          have hle : x.span.start ≤ e.span.start := heq ▸ hbelow' x hx
          refine Nat.lt_of_le_of_ne hle ?_
          rcases hmeets with h | h
          · exact start_ne_of_meets h hex hyx (hstart' x hx) hy
          · exact heq ▸ start_ne_of_meets h hyx hex (hstart' x hx) he
        have hmeets := hey.meets he hy heq.symm
        have hprecedes : ∀ x ∈ edits, x.Precedes e := fun x hx =>
          (hcompatible x (List.mem_cons_of_mem _ hx)).precedes he (hlt hmeets x hx)
        rcases hmeets with h | h
        · exact .insertionFirst h hprecedes hrest'
        · exact .cons (List.forall_mem_cons.mpr ⟨h.precedes, hprecedes⟩) hrest

/-- In some order of the edits every insertion comes last. -/
theorem exists_precedes_of_stacked (h : Stacked edits) :
    ∃ made : List TextEdit, made.Perm edits ∧ made.Pairwise fun e x => x.Precedes e := by
  induction h with
  | nil => exact ⟨[], .nil, .nil⟩
  | @cons e edits hfirst _ ih =>
      obtain ⟨made, hperm, hmade⟩ := ih
      exact ⟨e :: made, hperm.cons e, .cons (fun x hx => hfirst x (hperm.mem_iff.mp hx)) hmade⟩
  | @insertionFirst i r edits hmeets hfirst _ ih =>
      obtain ⟨made, hperm, hmade⟩ := ih
      have hfirst' : ∀ x ∈ made, x.Precedes i := fun x hx => hfirst x (hperm.mem_iff.mp hx)
      refine ⟨r :: i :: made, ((hperm.cons i).cons r).trans (.swap i r edits), ?_⟩
      refine .cons (List.forall_mem_cons.mpr ⟨hmeets.precedes, fun x hx => ?_⟩)
        (.cons hfirst' hmade)
      exact hmeets.precedes_of_precedes (hfirst' x hx)

/-! ## Where no order shows -/

/-- The two edits leave the same text in either order. -/
def Indifferent (text : List Char) (i r : TextEdit) : Prop :=
  ∀ old, slice? text r.span.start r.span.stop = some old →
    overwritten i.newText.toList old r.newText.toList =
      some (i.newText.toList ++ r.newText.toList)

theorem Indifferent.of_append {v : List Char} (h : Indifferent (u ++ v) i r)
    (hstop : r.span.stop ≤ byteLength u) : Indifferent u i r := by
  rw [Indifferent, slice?_append_left v hstop] at h
  exact h

/-- What edits read in the front of a text, and which of them are indifferent there,
depends on that front alone. -/
theorem readsIn_and_indifferent_of_append {w : List Char}
    (hreads : ∀ x ∈ edits, x.ReadsIn (u ++ w))
    (hindifferent : ∀ i ∈ edits, ∀ r ∈ edits, Meets i r → Indifferent (u ++ w) i r)
    (hstops : ∀ x ∈ edits, x.span.stop ≤ byteLength u) :
    (∀ x ∈ edits, x.ReadsIn u) ∧ ∀ i ∈ edits, ∀ r ∈ edits, Meets i r → Indifferent u i r := by
  constructor
  · intro x hx
    exact (hreads x hx).of_append (hstops x hx)
  · intro i hi r hr hmeets
    exact (hindifferent i hi r hr hmeets).of_append (hstops r hr)

theorem indifferent_iff (h : Meets i r) (hr : r.ReadsIn text) :
    Indifferent text i r ↔ replaceAll text [i, r] = replaceAll text [r, i] := by
  obtain ⟨old, hold⟩ := Option.isSome_iff_exists.mp hr
  obtain ⟨u, v, rfl, hstart, hstop⟩ := slice?_eq_some hold
  rw [replaceAll_swap_iff h hstart.symm hstop.symm, Indifferent, hold]
  exact ⟨fun hall => hall old rfl, fun hsame old' hold' => Option.some.inj hold' ▸ hsame⟩

theorem rewritten_insertion_first {old v : List Char} (h : Meets i r)
    (hpairs : (i :: r :: edits).Pairwise Compatible)
    (hforwards : ∀ x ∈ i :: r :: edits, x.span.start ≤ x.span.stop)
    (hfirst : ∀ x ∈ edits, x.Precedes i) (hstart : r.span.start = byteLength u)
    (hstop : r.span.stop = byteLength u + byteLength old) :
    rewritten (i :: r :: edits) (u ++ old ++ v) =
      rewritten edits u ++ (i.newText.toList ++ (r.newText.toList ++ v)) := by
  obtain ⟨hi, -, hedits⟩ : i.span.start ≤ i.span.stop ∧ r.span.start ≤ r.span.stop ∧
      ∀ x ∈ edits, x.span.start ≤ x.span.stop := by
    simpa only [List.forall_mem_cons] using hforwards
  have hothers : ∀ x ∈ i :: edits, x.Precedes r := List.forall_mem_cons.mpr
    ⟨h.precedes, fun x hx => h.precedes_of_precedes (hfirst x hx)⟩
  have hlast : rewritten (i :: edits) u = rewritten edits u ++ i.newText.toList := by
    have hplace : i.span.start = byteLength u := h.start.trans hstart
    have hmade := rewritten_cons u [] [] hedits hfirst hplace
      (h.insertion.symm.trans hplace)
    rwa [List.append_nil, List.append_nil, List.append_nil] at hmade
  rw [rewritten_perm (.swap r i edits) hforwards hpairs,
    rewritten_cons u old v (List.forall_mem_cons.mpr ⟨hi, hedits⟩) hothers hstart hstop, hlast,
    List.append_assoc]

/-- If no order shows for two edits with one start, no order shows at all. -/
theorem replaceAll_of_stacked (tail : List Char) (h : Stacked edits)
    (hpairs : edits.Pairwise Compatible) (hreads : ∀ e ∈ edits, e.ReadsIn text)
    (hindifferent : ∀ i ∈ edits, ∀ r ∈ edits, Meets i r → Indifferent text i r) :
    replaceAll (text ++ tail) edits = some (rewritten edits text ++ tail) := by
  induction h generalizing text tail with
  | nil => rw [replaceAll_nil, rewritten_nil]
  | @cons e edits hfirst _ ih =>
      obtain ⟨he, hreads⟩ := List.forall_mem_cons.mp hreads
      have hstart : ∀ x ∈ edits, x.span.start ≤ x.span.stop := fun x hx =>
        (hreads x hx).start_le_stop
      obtain ⟨u, w, v, rfl, hstops, hmade, hrewritten⟩ :=
        replaceAll_cons_of_precedes tail he hstart hfirst
      obtain ⟨hu, hinner⟩ := readsIn_and_indifferent_of_append hreads (fun i hi r hr =>
        hindifferent i (List.mem_cons_of_mem _ hi) r (List.mem_cons_of_mem _ hr)) hstops
      rw [hmade, ih _ (List.pairwise_cons.mp hpairs).2 hu hinner, hrewritten]
      simp only [List.append_assoc]
  | @insertionFirst i r edits hmeets hfirst _ ih =>
      have hstart : ∀ x ∈ i :: r :: edits, x.span.start ≤ x.span.stop := fun x hx =>
        (hreads x hx).start_le_stop
      obtain ⟨hi, hr, hreads⟩ : i.ReadsIn text ∧ r.ReadsIn text ∧ ∀ x ∈ edits, x.ReadsIn text := by
        simpa only [List.forall_mem_cons] using hreads
      obtain ⟨old, hold⟩ := Option.isSome_iff_exists.mp hr
      have hsame := hindifferent i List.mem_cons_self r (List.mem_cons_of_mem _ List.mem_cons_self)
        hmeets old hold
      obtain ⟨u, v, rfl, hplace, hstop⟩ := slice?_eq_some hold
      have hstops : ∀ x ∈ edits, x.span.stop ≤ byteLength u := fun x hx => by
        have hbefore := (hfirst x hx).1
        rw [hmeets.start] at hbefore
        omega
      rw [List.append_assoc u] at hreads hindifferent
      obtain ⟨hu, hinner⟩ := readsIn_and_indifferent_of_append hreads (fun j hj q hq =>
        hindifferent j (List.mem_cons_of_mem _ (List.mem_cons_of_mem _ hj)) q
          (List.mem_cons_of_mem _ (List.mem_cons_of_mem _ hq))) hstops
      have htwo := replaceAll_insertion_first (v := v ++ tail) hmeets hplace.symm hstop.symm
      rw [hsame, Option.map_some] at htwo
      have hsplit : i :: r :: edits = [i, r] ++ edits := rfl
      have hpairs' : edits.Pairwise Compatible :=
        (List.pairwise_cons.mp (List.pairwise_cons.mp hpairs).2).2
      rw [rewritten_insertion_first hmeets hpairs hstart hfirst hplace.symm hstop.symm, hsplit,
        replaceAll_append, List.append_assoc (u ++ old), htwo, Option.bind_some,
        ih _ hpairs' hu hinner]
      simp only [List.append_assoc]

/-! ## Where an order shows -/

/-- In front of all edits the text stays. -/
theorem rewritten_of_le {v : List Char} (h : ∀ e ∈ edits, byteLength u ≤ e.span.start) :
    ∃ w, rewritten edits (u ++ v) = u ++ w := by
  have hfront : ∀ (front : List Char) (pos : Nat),
      (∀ e ∈ edits, pos + byteLength front ≤ e.span.start) →
      newTextAt edits pos ++ rewrittenFrom edits pos front =
        front ++ newTextAt edits (pos + byteLength front) := by
    intro front
    induction front with
    | nil => exact fun pos _ => List.append_nil _
    | cons c cs ih =>
        intro pos hpos
        have hc : 0 < c.utf8Size := c.utf8Size_pos
        rw [byteLength_cons, ← Nat.add_assoc] at hpos ⊢
        have hcovers : ¬ ∃ e ∈ edits, e.Covers pos := by
          rintro ⟨e, he, hstart, -⟩
          have hbehind := hpos e he
          omega
        have hnone : newTextAt edits pos = [] := newTextAt_eq_nil fun e he => by
          have hbehind := hpos e he
          omega
        rw [hnone, rewrittenFrom, if_neg hcovers, List.nil_append, List.append_assoc, ih _ hpos]
        rfl
  refine ⟨newTextAt edits (byteLength u) ++ rewrittenFrom edits (byteLength u) v, ?_⟩
  have hu := hfront u 0 fun e he => by
    rw [Nat.zero_add]
    exact h e he
  rw [rewritten_append, rewritten, hu, Nat.zero_add, List.append_assoc]

/-- If the two give the same among the others, in either order, they do so alone. -/
theorem indifferent_of_replaceAll_eq {first last : List TextEdit} (hmeets : Meets i r)
    (hpairs : (first ++ r :: i :: last).Pairwise fun e x => x.Precedes e)
    (hreads : ∀ e ∈ first ++ r :: i :: last, e.ReadsIn text)
    (hsame : replaceAll text (first ++ i :: r :: last) =
      replaceAll text (first ++ r :: i :: last)) : Indifferent text i r := by
  intro old hold
  obtain ⟨u, v, rfl, hstart, hstop⟩ := slice?_eq_some hold
  obtain ⟨hfirst, hrest, hbehind⟩ := List.pairwise_append.mp hpairs
  obtain ⟨-, hrest⟩ := List.pairwise_cons.mp hrest
  obtain ⟨hlast, hrest⟩ := List.pairwise_cons.mp hrest
  obtain ⟨hreadsFirst, hreadsRest⟩ := List.forall_mem_append.mp hreads
  -- The first edits leave all that stands up to the end of `r`.
  obtain ⟨w, hw⟩ : ∃ w, rewritten first (u ++ old ++ v) = u ++ old ++ w := by
    refine rewritten_of_le fun e he => ?_
    rw [byteLength_append, hstop]
    exact (hbehind e he r List.mem_cons_self).1
  have hmade := replaceAll_eq_rewritten [] hfirst hreadsFirst
  rw [List.append_nil, List.append_nil, hw] at hmade
  have hu : ∀ x ∈ last, x.ReadsIn u := fun x hx => by
    have hx' := hreadsRest x (List.mem_cons_of_mem _ (List.mem_cons_of_mem _ hx))
    rw [List.append_assoc] at hx'
    refine hx'.of_append ?_
    have hbefore := (hlast x hx).1
    rwa [hmeets.start, ← hstart] at hbefore
  have hrun : ∀ tail, replaceAll (u ++ tail) last = some (rewritten last u ++ tail) :=
    fun tail => replaceAll_eq_rewritten tail hrest hu
  have hir : i :: r :: last = [i, r] ++ last := rfl
  have hri : r :: i :: last = [r, i] ++ last := rfl
  rw [hir, hri, replaceAll_append, replaceAll_append _ first, hmade, Option.bind_some,
    Option.bind_some, replaceAll_append, replaceAll_append _ [r, i],
    replaceAll_insertion_first hmeets hstart.symm hstop.symm,
    replaceAll_insertion_last hmeets hstart.symm hstop.symm, Option.bind_some, hrun] at hsame
  cases hover : overwritten i.newText.toList old r.newText.toList with
  | none =>
      rw [hover] at hsame
      cases hsame
  | some new =>
      rw [hover, Option.map_some, Option.bind_some, hrun] at hsame
      have hend := List.append_cancel_left (Option.some.inj hsame)
      rw [List.append_cancel_right hend]

/-! ## The order of the list -/

/-- Where each insertion is listed behind the edit that it meets, the edits are made
from the back. -/
theorem precedes_fromBack_of_listed (hpairs : edits.Pairwise Compatible)
    (hstart : ∀ e ∈ edits, e.span.start ≤ e.span.stop)
    (hlisted : edits.Pairwise fun a b => ¬ Meets a b) :
    (fromBack edits).Pairwise fun e x => x.Precedes e := by
  have hperm := fromBack_perm edits
  have hpairs' := (hperm.pairwise_iff Compatible.symm).mpr hpairs
  refine List.pairwise_iff_forall_sublist.mpr fun {e x} hsub => ?_
  have hdescends := List.pairwise_iff_forall_sublist.mp (descends_fromBack edits) hsub
  have hcompatible := List.pairwise_iff_forall_sublist.mp hpairs' hsub
  have he := hstart e (mem_fromBack.mp (hsub.mem List.mem_cons_self))
  have hx := hstart x (mem_fromBack.mp (hsub.mem (List.mem_cons_of_mem _ List.mem_cons_self)))
  rcases Nat.lt_or_eq_of_le hdescends with hlt | heq
  · exact hcompatible.precedes he hlt
  · -- Edits with one start are made in the order of the list.
    have hhere : [e, x].Sublist (startingAt e.span.start (fromBack edits)) := by
      have hboth := hsub.filter fun y => decide (y.span.start = e.span.start)
      rwa [List.filter_eq_self.mpr] at hboth
      simp [heq]
    rw [startingAt_fromBack] at hhere
    have hnot := List.pairwise_iff_forall_sublist.mp hlisted (hhere.trans List.filter_sublist)
    rcases hcompatible.meets he hx heq.symm with h | h
    · exact absurd h hnot
    · exact h.precedes

theorem apply_of_precedes {f : Fix} {source : String}
    (hreads : ∀ e ∈ f.edits, e.ReadsIn source.toList) (hpairs : f.edits.Pairwise Compatible)
    (hmade : (fromBack f.edits).Pairwise fun e x => x.Precedes e) :
    f.apply source = some (String.ofList (rewritten f.edits source.toList)) := by
  refine apply_of_made (fun e he => (hreads e he).start_le_stop) hpairs ?_
  intro tail
  exact replaceAll_eq_rewritten tail hmade fun e he => hreads e (mem_fromBack.mp he)

/-- If no order shows for two edits with one start, the fix makes its edits all at
once, in whatever order it lists them. -/
theorem apply_of_indifferent {f : Fix} {source : String}
    (hreads : ∀ e ∈ f.edits, e.ReadsIn source.toList) (hpairs : f.edits.Pairwise Compatible)
    (hindifferent : ∀ i ∈ f.edits, ∀ r ∈ f.edits, Meets i r → Indifferent source.toList i r) :
    f.apply source = some (String.ofList (rewritten f.edits source.toList)) := by
  have hstart : ∀ e ∈ f.edits, e.span.start ≤ e.span.stop := fun e he =>
    (hreads e he).start_le_stop
  have hpairs' := ((fromBack_perm f.edits).pairwise_iff Compatible.symm).mpr hpairs
  have hstacked : Stacked (fromBack f.edits) :=
    stacked_of_descends (descends_fromBack _) hpairs' fun e he => hstart e (mem_fromBack.mp he)
  refine apply_of_made hstart hpairs ?_
  intro tail
  exact replaceAll_of_stacked tail hstacked hpairs'
    (fun e he => hreads e (mem_fromBack.mp he))
    (fun i hi r hr => hindifferent i (mem_fromBack.mp hi) r (mem_fromBack.mp hr))

/-- In an order in which all insertions come last, two edits that meet are neighbours. -/
theorem exists_neighbours {made : List TextEdit} (hmeets : Meets i r) (hi : i ∈ made)
    (hr : r ∈ made) (hforwards : ∀ x ∈ made, x.span.start ≤ x.span.stop)
    (hmade : made.Pairwise fun e x => x.Precedes e) :
    ∃ first last, made = first ++ r :: i :: last := by
  obtain ⟨first, rest, rfl⟩ := List.append_of_mem hr
  obtain ⟨-, hrest, hbehind⟩ := List.pairwise_append.mp hmade
  obtain ⟨hfirst, hrest⟩ := List.pairwise_cons.mp hrest
  have hforwards' := hforwards r hr
  have hlong := hmeets.replacement
  rw [TextEdit.IsInsertion] at hlong
  have hmem : i ∈ rest := by
    rcases List.mem_append.mp hi with hi | hi
    · -- An edit in front of the insertion would end where it begins.
      have hstop := (hbehind i hi r List.mem_cons_self).1
      rw [hmeets.start] at hstop
      omega
    · rcases List.mem_cons.mp hi with rfl | hi
      · exact absurd hmeets.insertion hmeets.replacement
      · exact hi
  obtain ⟨between, last, rfl⟩ := List.append_of_mem hmem
  cases between with
  | nil => exact ⟨first, last, rfl⟩
  | cons c between =>
      have hcr := hfirst c List.mem_cons_self
      have hic := (List.pairwise_cons.mp hrest).1 i (by simp)
      have hc := hforwards c (by simp)
      have hinsertion := hmeets.insertion
      have hstart := hmeets.start
      rw [TextEdit.IsInsertion] at hinsertion
      -- Only an insertion fits between the two, and it would be at the place of the other.
      have hstarts : i.span.start = c.span.start := by
        have hbefore := hcr.1
        have hbefore' := hic.1
        omega
      refine absurd hstarts (hic.2 ?_)
      have hbefore := hcr.1
      rw [TextEdit.IsInsertion]
      omega

theorem indifferent_of_apply_eq {f : Fix} {source : String}
    (hreads : ∀ e ∈ f.edits, e.ReadsIn source.toList) (hpairs : f.edits.Pairwise Compatible)
    (hsame : ∀ g : Fix, g.edits.Perm f.edits → g.apply source = f.apply source)
    (hi : i ∈ f.edits) (hr : r ∈ f.edits) (hmeets : Meets i r) :
    Indifferent source.toList i r := by
  have hstart : ∀ e ∈ f.edits, e.span.start ≤ e.span.stop := fun e he =>
    (hreads e he).start_le_stop
  have hperm := fromBack_perm f.edits
  obtain ⟨made, hmade, hpreceded⟩ := exists_precedes_of_stacked
    (stacked_of_descends (descends_fromBack _) ((hperm.pairwise_iff Compatible.symm).mpr hpairs)
      fun e he => hstart e (hperm.mem_iff.mp he))
  have hlisted : made.Perm f.edits := hmade.trans hperm
  have hstart' : ∀ x ∈ made, x.span.start ≤ x.span.stop := fun x hx =>
    hstart x (hlisted.mem_iff.mp hx)
  obtain ⟨first, last, rfl⟩ := exists_neighbours hmeets (hlisted.mem_iff.mpr hi)
    (hlisted.mem_iff.mpr hr) hstart' hpreceded
  have hdescends : Descends (first ++ r :: i :: last) := hpreceded.imp_of_mem
    fun {e x} _ hx h => Nat.le_trans (hstart' x hx) h.1
  have hdescends' : Descends (first ++ i :: r :: last) := by
    have hswapped := hdescends
    simp only [Descends, List.pairwise_append, List.pairwise_cons, List.forall_mem_cons] at hswapped ⊢
    obtain ⟨hfirst, ⟨⟨-, hrlast⟩, hilast, hlast⟩, hbehind⟩ := hswapped
    refine ⟨hfirst, ⟨⟨Nat.le_of_eq hmeets.start.symm, hilast⟩, hrlast, hlast⟩, fun a ha => ?_⟩
    exact ⟨(hbehind a ha).2.1, (hbehind a ha).1, (hbehind a ha).2.2⟩
  have hswap : (first ++ i :: r :: last).Perm f.edits :=
    ((List.Perm.swap r i last).append_left first).trans hlisted
  have hboth := (hsame ⟨"", first ++ i :: r :: last⟩ hswap).trans
    (hsame ⟨"", first ++ r :: i :: last⟩ hlisted).symm
  rw [apply, apply, fromBack_of_descends hdescends, fromBack_of_descends hdescends'] at hboth
  refine indifferent_of_replaceAll_eq hmeets hpreceded (fun e he => hreads e (hlisted.mem_iff.mp he)) ?_
  exact Option.map_injective (fun _ _ => String.ofList_inj.mp) hboth

/-- Where the edits of a fix read in the source, lie apart, and no two insertions are
at one place: if each insertion is listed behind the edit that replaces the text
behind it, all edits are made at once; and the order of the list does not matter
exactly if it does not matter for any two edits with one start, made alone. -/
theorem listing_matters_iff {f : Fix} {source : String}
    (hreads : ∀ e ∈ f.edits, e.ReadsIn source.toList) (hpairs : f.edits.Pairwise Compatible) :
    (f.edits.Pairwise (fun a b => a.IsInsertion → a.span.start ≠ b.span.start) →
      f.apply source = some (String.ofList (rewritten f.edits source.toList))) ∧
    ((∀ g : Fix, g.edits.Perm f.edits → g.apply source = f.apply source) ↔
      ∀ a ∈ f.edits, ∀ b ∈ f.edits, a.span.start = b.span.start →
        replaceAll source.toList [a, b] = replaceAll source.toList [b, a]) := by
  have hstart : ∀ e ∈ f.edits, e.span.start ≤ e.span.stop := fun e he =>
    (hreads e he).start_le_stop
  refine ⟨fun hlisted => apply_of_precedes hreads hpairs ?_, fun hsame a ha b hb hab => ?_,
    fun hcommute g hg => ?_⟩
  · refine precedes_fromBack_of_listed hpairs hstart (hlisted.imp fun h hmeets => ?_)
    exact h hmeets.insertion hmeets.start
  · by_cases hne : a = b
    · rw [hne]
    · have hcompatible := hpairs.forall ha hb hne
      rcases hcompatible.meets (hstart a ha) (hstart b hb) hab with h | h
      · exact (indifferent_iff h (hreads b hb)).mp (indifferent_of_apply_eq hreads hpairs hsame ha hb h)
      · exact ((indifferent_iff h (hreads a ha)).mp
          (indifferent_of_apply_eq hreads hpairs hsame hb ha h)).symm
  · have hindifferent : ∀ i ∈ f.edits, ∀ r ∈ f.edits, Meets i r → Indifferent source.toList i r :=
      fun i hi r hr hmeets =>
        (indifferent_iff hmeets (hreads r hr)).mpr (hcommute i hi r hr hmeets.start)
    have hg' : g.apply source = some (String.ofList (rewritten g.edits source.toList)) :=
      apply_of_indifferent (fun e he => hreads e (hg.mem_iff.mp he))
        ((hg.pairwise_iff Compatible.symm).mpr hpairs)
        fun i hi r hr => hindifferent i (hg.mem_iff.mp hi) r (hg.mem_iff.mp hr)
    rw [hg', apply_of_indifferent hreads hpairs hindifferent,
      rewritten_perm hg.symm hstart hpairs]

end

/-- Put in first, the sign is taken out again in place of the letter behind it. -/
theorem lost_insertion :
    (∀ e ∈ [⟨⟨0, 0⟩, "X"⟩, ⟨⟨0, 1⟩, "Y"⟩], TextEdit.ReadsIn e "ab".toList) ∧
      Compatible ⟨⟨0, 0⟩, "X"⟩ ⟨⟨0, 1⟩, "Y"⟩ ∧
      (Fix.mk "" [⟨⟨0, 1⟩, "Y"⟩, ⟨⟨0, 0⟩, "X"⟩]).apply "ab" = some "XYb" ∧
      (Fix.mk "" [⟨⟨0, 0⟩, "X"⟩, ⟨⟨0, 1⟩, "Y"⟩]).apply "ab" = some "Yab" := by
  refine ⟨by decide, by decide, ?_, ?_⟩
  · rw [apply, fromBack_of_descends (by decide)]
    decide
  · rw [apply, fromBack_of_descends (by decide)]
    decide

/-- So it is lost in one order of the list and not in the other. -/
theorem listing_matters_iff_lost :
    (Fix.mk "" [⟨⟨0, 1⟩, "Y"⟩, ⟨⟨0, 0⟩, "X"⟩]).apply "ab" = some "XYb" ∧
      ¬ ∀ g : Fix, g.edits.Perm [⟨⟨0, 1⟩, "Y"⟩, ⟨⟨0, 0⟩, "X"⟩] → g.apply "ab" = some "XYb" := by
  let f : Fix := ⟨"", [⟨⟨0, 1⟩, "Y"⟩, ⟨⟨0, 0⟩, "X"⟩]⟩
  have hreads : ∀ e ∈ f.edits, e.ReadsIn "ab".toList := by decide
  obtain ⟨hlisted, hsame⟩ := listing_matters_iff hreads (by decide)
  have hmade : f.apply "ab" = some "XYb" := hlisted (by decide)
  refine ⟨hmade, fun hall => ?_⟩
  have hcommute := hsame.mp fun g hg => (hall g hg).trans hmade.symm
  exact absurd (hcommute ⟨⟨0, 1⟩, "Y"⟩ (by decide) ⟨⟨0, 0⟩, "X"⟩ (by decide) rfl) (by decide)

end EmitLint.Fix
