/-
# Edits made one after the other, and all at once

`rewritten` goes through a text once, from its front to its back, with all the
edits at hand: it leaves out what lies in a range, copies the rest, and puts the
new texts in where the ranges begin.  No order of the edits comes into it.  Main
statement: `apply_eq_rewritten`.  A fix whose edits lie apart and begin at
different places gives that text, in whatever order it lists them.

The edits are made from the back (`replaceAll_eq_rewritten`).  What stands behind
an edit that was made is not read again: those still to come lie in the part in
front of it, and that part is still what it was in the source.
-/
import EmitLint.Proofs.Report.FromBack
import EmitLint.Proofs.Text.Boundary

namespace EmitLint

open Text

namespace TextEdit

/-- The edit is about a piece of the text. -/
def ReadsIn (e : TextEdit) (text : List Char) : Prop :=
  (slice? text e.span.start e.span.stop).isSome = true

/-- One of the two edits ends at or before the start of the other. -/
def Apart (a b : TextEdit) : Prop :=
  a.span.stop ≤ b.span.start ∨ b.span.stop ≤ a.span.start

/-- The edit takes nothing out. -/
def IsInsertion (e : TextEdit) : Prop := e.span.start = e.span.stop

/-- The edit takes out what stands at `pos`. -/
def Covers (e : TextEdit) (pos : Nat) : Prop := e.span.start ≤ pos ∧ pos < e.span.stop

/-- `x` is about what stands in front of `e`: it ends where `e` begins, or before.
Of two insertions at one place neither is in front. -/
def Precedes (x e : TextEdit) : Prop :=
  x.span.stop ≤ e.span.start ∧ (e.IsInsertion → x.span.start ≠ e.span.start)

instance (e : TextEdit) (text : List Char) : Decidable (e.ReadsIn text) :=
  inferInstanceAs (Decidable (_ = _))

instance (a b : TextEdit) : Decidable (a.Apart b) :=
  inferInstanceAs (Decidable (_ ∨ _))

instance (e : TextEdit) : Decidable e.IsInsertion :=
  inferInstanceAs (Decidable (_ = _))

instance (e : TextEdit) (pos : Nat) : Decidable (e.Covers pos) :=
  inferInstanceAs (Decidable (_ ∧ _))

theorem Apart.symm {a b : TextEdit} (h : a.Apart b) : b.Apart a := Or.symm h

theorem ReadsIn.start_le_stop {e : TextEdit} {text : List Char} (h : e.ReadsIn text) :
    e.span.start ≤ e.span.stop := by
  obtain ⟨inside, hinside⟩ := Option.isSome_iff_exists.mp h
  obtain ⟨before, after, -, hstart, hstop⟩ := slice?_eq_some hinside
  omega

/-- What an edit reads in the front of a text it reads there alone. -/
theorem ReadsIn.of_append {e : TextEdit} {u v : List Char} (h : e.ReadsIn (u ++ v))
    (hstop : e.span.stop ≤ byteLength u) : e.ReadsIn u := by
  rw [ReadsIn, slice?_append_left v hstop] at h
  exact h

end TextEdit

namespace Fix

/-! ## All at once -/

/-- What is put in at `pos`: what is inserted there comes in front of what
replaces the text behind `pos`. -/
def newTextAt (edits : List TextEdit) (pos : Nat) : List Char :=
  let here := startingAt pos edits
  (here.filter (·.IsInsertion) ++ here.filter (¬ ·.IsInsertion)).flatMap (·.newText.toList)

/-- What the text from `pos` on becomes, with what is put in behind each character. -/
def rewrittenFrom (edits : List TextEdit) : Nat → List Char → List Char
  | _, [] => []
  | pos, c :: cs =>
      (if ∃ e ∈ edits, e.Covers pos then [] else [c]) ++ newTextAt edits (pos + c.utf8Size) ++
        rewrittenFrom edits (pos + c.utf8Size) cs

/-- The text with all the edits made, read once from its front to its back. -/
def rewritten (edits : List TextEdit) (text : List Char) : List Char :=
  newTextAt edits 0 ++ rewrittenFrom edits 0 text

section
variable {edits : List TextEdit} {e : TextEdit} {pos : Nat} {text u v : List Char}

theorem newTextAt_eq_nil (h : ∀ e ∈ edits, e.span.start ≠ pos) : newTextAt edits pos = [] := by
  have hnone : startingAt pos edits = [] :=
    List.filter_eq_nil_iff.mpr fun e he hpos => h e he (of_decide_eq_true hpos)
  rw [newTextAt, hnone]
  rfl

theorem newTextAt_cons_of_ne (h : e.span.start ≠ pos) :
    newTextAt (e :: edits) pos = newTextAt edits pos := by
  rw [newTextAt, newTextAt, startingAt_cons_of_ne h]

/-- What is put in last at the start of `e` is the text of `e`. -/
theorem newTextAt_cons_of_precedes (hstart : ∀ x ∈ edits, x.span.start ≤ x.span.stop)
    (h : ∀ x ∈ edits, x.Precedes e) :
    newTextAt (e :: edits) e.span.start = newTextAt edits e.span.start ++ e.newText.toList := by
  have hothers : ∀ x ∈ startingAt e.span.start edits, x.IsInsertion ∧ ¬ e.IsInsertion := by
    intro x hx
    obtain ⟨hx, hxe⟩ := mem_startingAt.mp hx
    obtain ⟨hbefore, hnot⟩ := h x hx
    exact ⟨Nat.le_antisymm (hstart x hx) (hxe ▸ hbefore), fun he => hnot he hxe⟩
  rw [newTextAt, newTextAt, startingAt_cons_of_eq rfl]
  generalize startingAt e.span.start edits = here at hothers
  have hinsertions : here.filter (·.IsInsertion) = here :=
    List.filter_eq_self.mpr fun x hx => decide_eq_true (hothers x hx).1
  have hrest : here.filter (fun x => !decide x.IsInsertion) = [] :=
    List.filter_eq_nil_iff.mpr fun x hx hnot => by simp [(hothers x hx).1] at hnot
  by_cases he : e.IsInsertion
  · obtain rfl : here = [] :=
      List.eq_nil_iff_forall_not_mem.mpr fun x hx => (hothers x hx).2 he
    simp [he]
  · simp [he, hinsertions, hrest]

theorem rewrittenFrom_append (edits : List TextEdit) (pos : Nat) (u v : List Char) :
    rewrittenFrom edits pos (u ++ v) =
      rewrittenFrom edits pos u ++ rewrittenFrom edits (pos + byteLength u) v := by
  induction u generalizing pos with
  | nil => rfl
  | cons c u ih =>
      rw [List.cons_append, rewrittenFrom, rewrittenFrom, ih, byteLength_cons, Nat.add_assoc]
      simp only [List.append_assoc]

theorem rewritten_append (edits : List TextEdit) (u v : List Char) :
    rewritten edits (u ++ v) = rewritten edits u ++ rewrittenFrom edits (byteLength u) v := by
  rw [rewritten, rewritten, rewrittenFrom_append, Nat.zero_add, List.append_assoc]

/-- Behind the last edit all is copied. -/
theorem rewrittenFrom_eq_self (h : ∀ e ∈ edits, e.span.stop ≤ pos)
    (hstart : ∀ e ∈ edits, e.span.start ≤ pos) : rewrittenFrom edits pos text = text := by
  induction text generalizing pos with
  | nil => rfl
  | cons c cs ih =>
      have hc : 0 < c.utf8Size := c.utf8Size_pos
      have hcovers : ¬ ∃ e ∈ edits, e.Covers pos := by
        rintro ⟨e, he, -, hpos⟩
        exact absurd hpos (Nat.not_lt.mpr (h e he))
      have hnew : newTextAt edits (pos + c.utf8Size) = [] :=
        newTextAt_eq_nil fun e he => by
          have hpos := hstart e he
          omega
      rw [rewrittenFrom, if_neg hcovers, hnew, ih]
      · rfl
      · exact fun e he => Nat.le_trans (h e he) (Nat.le_add_right _ _)
      · exact fun e he => Nat.le_trans (hstart e he) (Nat.le_add_right _ _)

theorem rewritten_nil (text : List Char) : rewritten [] text = text := by
  rw [rewritten, rewrittenFrom_eq_self (fun e he => absurd he List.not_mem_nil)
    (fun e he => absurd he List.not_mem_nil)]
  rfl

/-- In a range that is replaced nothing is copied, and no other edit begins. -/
theorem rewrittenFrom_eq_nil (he : e ∈ edits) (hlast : ∀ x ∈ edits, x.span.start ≤ e.span.start)
    (hstart : e.span.start ≤ pos) (hstop : pos + byteLength text ≤ e.span.stop) :
    rewrittenFrom edits pos text = [] := by
  induction text generalizing pos with
  | nil => rfl
  | cons c cs ih =>
      have hc : 0 < c.utf8Size := c.utf8Size_pos
      rw [byteLength_cons] at hstop
      have hcovers : ∃ e ∈ edits, e.Covers pos := ⟨e, he, hstart, by omega⟩
      have hnew : newTextAt edits (pos + c.utf8Size) = [] :=
        newTextAt_eq_nil fun x hx => by
          have hx := hlast x hx
          omega
      rw [rewrittenFrom, if_pos hcovers, hnew, ih (by omega) (by omega)]
      rfl

/-- Up to the start of an edit the text is rewritten as without it, and then
comes what the edit puts in. -/
theorem rewrittenFrom_cons (hstart : ∀ x ∈ edits, x.span.start ≤ x.span.stop)
    (h : ∀ x ∈ edits, x.Precedes e) (he : e.span.start = pos + byteLength u) :
    newTextAt (e :: edits) pos ++ rewrittenFrom (e :: edits) pos u =
      newTextAt edits pos ++ rewrittenFrom edits pos u ++ e.newText.toList := by
  induction u generalizing pos with
  | nil =>
      obtain rfl : e.span.start = pos := he
      rw [newTextAt_cons_of_precedes hstart h]
      simp [rewrittenFrom]
  | cons c u ih =>
      have hc : 0 < c.utf8Size := c.utf8Size_pos
      rw [byteLength_cons, ← Nat.add_assoc] at he
      have hcovers : (∃ x ∈ e :: edits, x.Covers pos) ↔ ∃ x ∈ edits, x.Covers pos := by
        have hnot : ¬ e.Covers pos := fun hcover => by
          have hpos := hcover.1
          omega
        simp [hnot]
      have hrest := ih he
      rw [newTextAt_cons_of_ne (by omega), rewrittenFrom, rewrittenFrom]
      simp only [hcovers, List.append_assoc] at hrest ⊢
      rw [hrest]

/-- All but the last edit are about the text in front of that one. -/
theorem rewritten_cons (u inside v : List Char) (hstart : ∀ x ∈ edits, x.span.start ≤ x.span.stop)
    (h : ∀ x ∈ edits, x.Precedes e) (he : e.span.start = byteLength u)
    (hstop : e.span.stop = byteLength u + byteLength inside) :
    rewritten (e :: edits) (u ++ inside ++ v) =
      rewritten edits u ++ (e.newText.toList ++ v) := by
  have hlast : ∀ x ∈ e :: edits, x.span.start ≤ e.span.start := by
    refine List.forall_mem_cons.mpr ⟨Nat.le_refl _, fun x hx => ?_⟩
    exact Nat.le_trans (hstart x hx) (h x hx).1
  have hstops : ∀ x ∈ e :: edits, x.span.stop ≤ byteLength (u ++ inside) := by
    rw [byteLength_append]
    refine List.forall_mem_cons.mpr ⟨Nat.le_of_eq hstop, fun x hx => ?_⟩
    have hbefore := (h x hx).1
    omega
  have hfront : rewritten (e :: edits) u = rewritten edits u ++ e.newText.toList :=
    rewrittenFrom_cons hstart h (by rw [he, Nat.zero_add])
  have hinside : rewrittenFrom (e :: edits) (byteLength u) inside = [] :=
    rewrittenFrom_eq_nil List.mem_cons_self hlast (Nat.le_of_eq he) (Nat.le_of_eq hstop.symm)
  have hbehind : rewrittenFrom (e :: edits) (byteLength (u ++ inside)) v = v := by
    refine rewrittenFrom_eq_self hstops fun x hx => ?_
    have hx := hlast x hx
    rw [byteLength_append]
    omega
  rw [rewritten_append, rewritten_append, hfront, hinside, hbehind, List.append_nil,
    List.append_assoc]

/-! ## One after the other -/

/-- The edit of greatest start is made, and the others are still to be made in
front of it; whatever stands behind the text stays. -/
theorem replaceAll_cons_of_precedes (tail : List Char) (he : e.ReadsIn text)
    (hstart : ∀ x ∈ edits, x.span.start ≤ x.span.stop) (h : ∀ x ∈ edits, x.Precedes e) :
    ∃ u w v, text = u ++ w ∧ (∀ x ∈ edits, x.span.stop ≤ byteLength u) ∧
      replaceAll (text ++ tail) (e :: edits) =
        replaceAll (u ++ (e.newText.toList ++ (v ++ tail))) edits ∧
      rewritten (e :: edits) text = rewritten edits u ++ (e.newText.toList ++ v) := by
  obtain ⟨inside, hinside⟩ := Option.isSome_iff_exists.mp he
  obtain ⟨u, v, rfl, hfirst, hlast⟩ := slice?_eq_some hinside
  refine ⟨u, inside ++ v, v, List.append_assoc .., fun x hx => hfirst ▸ (h x hx).1, ?_, ?_⟩
  · rw [replaceAll_cons, List.append_assoc (u ++ inside),
      TextEdit.replaceIn_append e u inside (v ++ tail) hfirst.symm hlast.symm, Option.bind_some,
      List.append_assoc]
  · exact rewritten_cons u inside v hstart h hfirst.symm hlast.symm

/-- Edits that are made from the back give the text with all of them made. -/
theorem replaceAll_eq_rewritten (tail : List Char)
    (hpairs : edits.Pairwise fun e x => x.Precedes e) (hreads : ∀ e ∈ edits, e.ReadsIn text) :
    replaceAll (text ++ tail) edits = some (rewritten edits text ++ tail) := by
  induction edits generalizing text tail with
  | nil => rw [replaceAll_nil, rewritten_nil]
  | cons e edits ih =>
      obtain ⟨h, hpairs⟩ := List.pairwise_cons.mp hpairs
      obtain ⟨he, hreads⟩ := List.forall_mem_cons.mp hreads
      have hstart : ∀ x ∈ edits, x.span.start ≤ x.span.stop := fun x hx =>
        (hreads x hx).start_le_stop
      obtain ⟨u, w, v, rfl, hstops, hmade, hrewritten⟩ :=
        replaceAll_cons_of_precedes tail he hstart h
      rw [hmade, ih _ hpairs fun x hx => (hreads x hx).of_append (hstops x hx), hrewritten]
      simp only [List.append_assoc]

end

/-! ## In any order -/

/-- The edits lie apart, and no two of them are insertions at one place. -/
def Compatible (a b : TextEdit) : Prop :=
  a.Apart b ∧ ¬ (a.IsInsertion ∧ b.IsInsertion ∧ a.span.start = b.span.start)

theorem Compatible.symm {a b : TextEdit} (h : Compatible a b) : Compatible b a :=
  ⟨h.1.symm, fun ⟨hb, ha, hab⟩ => h.2 ⟨ha, hb, hab.symm⟩⟩

instance (a b : TextEdit) : Decidable (Compatible a b) :=
  inferInstanceAs (Decidable (_ ∧ ¬ (_ ∧ _ ∧ _)))

instance : Std.Symm Compatible := ⟨fun _ _ => Compatible.symm⟩

section
variable {edits edits' : List TextEdit} {text : List Char}

/-- Where at most one element is taken, the order of the list does not matter. -/
theorem filter_eq_of_perm {p : TextEdit → Bool} (h : edits.Perm edits')
    (hp : edits.Pairwise fun a b => ¬ (p a = true ∧ p b = true)) :
    edits.filter p = edits'.filter p := by
  have hperm := h.filter p
  have hpairs := hp.filter p
  have hall : ∀ a ∈ edits.filter p, p a = true := fun a ha => (List.mem_filter.mp ha).2
  generalize edits.filter p = taken at hperm hpairs hall
  match taken with
  | [] => exact (List.nil_perm.mp hperm).symm
  | [a] => exact List.singleton_perm.mp hperm
  | a :: b :: _ =>
      have hpair := (List.pairwise_cons.mp hpairs).1 b List.mem_cons_self
      exact absurd ⟨hall a List.mem_cons_self, hall b (List.mem_cons_of_mem _ List.mem_cons_self)⟩
        hpair

theorem newTextAt_perm (h : edits.Perm edits')
    (hstart : ∀ e ∈ edits, e.span.start ≤ e.span.stop)
    (hpairs : edits.Pairwise Compatible) (pos : Nat) :
    newTextAt edits pos = newTextAt edits' pos := by
  have hhere : (startingAt pos edits).Pairwise fun a b => a.IsInsertion ↔ ¬ b.IsInsertion := by
    refine (hpairs.filter _).imp_of_mem fun {a b} ha hb hab => ?_
    obtain ⟨ha, hapos⟩ := mem_startingAt.mp ha
    obtain ⟨hb, hbpos⟩ := mem_startingAt.mp hb
    have hforwards := hstart a ha
    have hforwards' := hstart b hb
    have hapart := hab.1
    have hinsertions := hab.2
    simp only [TextEdit.Apart, TextEdit.IsInsertion] at hapart hinsertions ⊢
    omega
  have hperm : (startingAt pos edits).Perm (startingAt pos edits') := h.filter _
  rw [newTextAt, newTextAt, filter_eq_of_perm hperm, filter_eq_of_perm hperm]
  · refine hhere.imp fun {a b} hab hboth => ?_
    exact of_decide_eq_true hboth.1 (hab.mpr (of_decide_eq_true hboth.2))
  · refine hhere.imp fun {a b} hab hboth => ?_
    exact hab.mp (of_decide_eq_true hboth.1) (of_decide_eq_true hboth.2)

theorem rewrittenFrom_perm (h : edits.Perm edits')
    (hstart : ∀ e ∈ edits, e.span.start ≤ e.span.stop)
    (hpairs : edits.Pairwise Compatible) (pos : Nat) (text : List Char) :
    rewrittenFrom edits pos text = rewrittenFrom edits' pos text := by
  induction text generalizing pos with
  | nil => rfl
  | cons c cs ih =>
      have hcovers : (∃ e ∈ edits, e.Covers pos) ↔ ∃ e ∈ edits', e.Covers pos := by
        simp only [h.mem_iff]
      rw [rewrittenFrom, rewrittenFrom, newTextAt_perm h hstart hpairs, ih]
      simp only [hcovers]

theorem rewritten_perm (h : edits.Perm edits')
    (hstart : ∀ e ∈ edits, e.span.start ≤ e.span.stop)
    (hpairs : edits.Pairwise Compatible) (text : List Char) :
    rewritten edits text = rewritten edits' text := by
  rw [rewritten, rewritten, newTextAt_perm h hstart hpairs, rewrittenFrom_perm h hstart hpairs]

/-- Where no two edits begin at one place, they are made from the back. -/
theorem precedes_fromBack (hstart : ∀ e ∈ edits, e.span.start ≤ e.span.stop)
    (hstarts : edits.Pairwise fun a b => a.span.start ≠ b.span.start)
    (hapart : edits.Pairwise TextEdit.Apart) :
    (fromBack edits).Pairwise fun e x => x.Precedes e := by
  have hperm := fromBack_perm edits
  have hstarts' := (hperm.pairwise_iff Ne.symm).mpr hstarts
  have hapart' := (hperm.pairwise_iff TextEdit.Apart.symm).mpr hapart
  refine ((descends_fromBack edits).and (hstarts'.and hapart')).imp_of_mem ?_
  rintro e x he hx ⟨hdescends, hne, hpair⟩
  have hforwards := hstart e (hperm.mem_iff.mp he)
  refine ⟨?_, fun _ => Ne.symm hne⟩
  rcases hpair with h | h <;> omega

/-- A fix that makes its edits from the back as if all at once gives the text with all
of them made. -/
theorem apply_of_made {f : Fix} {source : String}
    (hstart : ∀ e ∈ f.edits, e.span.start ≤ e.span.stop) (hpairs : f.edits.Pairwise Compatible)
    (hmade : ∀ tail, replaceAll (source.toList ++ tail) (fromBack f.edits) =
      some (rewritten (fromBack f.edits) source.toList ++ tail)) :
    f.apply source = some (String.ofList (rewritten f.edits source.toList)) := by
  have hall := hmade []
  rw [List.append_nil, List.append_nil] at hall
  rw [apply, hall, ← rewritten_perm (fromBack_perm f.edits).symm hstart hpairs]
  rfl

/-- A fix makes its edits all at once.  Where the edits read in the source, lie
apart and begin at different places, the text after the fix is the source with
each edit's new text in place of its range and all else copied, in whatever order
the edits are listed. -/
theorem apply_eq_rewritten {f : Fix} {source : String}
    (hreads : ∀ e ∈ f.edits, e.ReadsIn source.toList)
    (hstarts : f.edits.Pairwise fun a b => a.span.start ≠ b.span.start)
    (hapart : f.edits.Pairwise TextEdit.Apart) :
    f.apply source = some (String.ofList (rewritten f.edits source.toList)) ∧
      ∀ g : Fix, g.edits.Perm f.edits → g.apply source = f.apply source := by
  have hstart : ∀ e ∈ f.edits, e.span.start ≤ e.span.stop := fun e he =>
    (hreads e he).start_le_stop
  have hcompatible : f.edits.Pairwise Compatible :=
    hapart.imp₂ (fun _ _ hab hne => ⟨hab, fun h => hne h.2.2⟩) hstarts
  have happly : ∀ g : Fix, g.edits.Perm f.edits →
      g.apply source = some (String.ofList (rewritten f.edits source.toList)) := by
    intro g hg
    have hstart' : ∀ e ∈ g.edits, e.span.start ≤ e.span.stop := fun e he =>
      hstart e (hg.mem_iff.mp he)
    have hpairs := precedes_fromBack hstart' ((hg.pairwise_iff Ne.symm).mpr hstarts)
      ((hg.pairwise_iff TextEdit.Apart.symm).mpr hapart)
    have hmade := fun tail => replaceAll_eq_rewritten tail hpairs fun e he =>
      hreads e (hg.mem_iff.mp (mem_fromBack.mp he))
    rw [apply_of_made hstart' ((hg.pairwise_iff Compatible.symm).mpr hcompatible) hmade,
      rewritten_perm hg.symm hstart hcompatible]
  exact ⟨happly f (List.Perm.refl _), fun g hg => (happly g hg).trans
    (happly f (List.Perm.refl _)).symm⟩

/-- An accent is taken away, a sign comes in behind it, and the first letter
goes, listed in any order. -/
theorem apply_eq_rewritten_accent :
    (Fix.mk "" [⟨⟨1, 3⟩, "e"⟩, ⟨⟨3, 3⟩, "+"⟩, ⟨⟨0, 1⟩, ""⟩]).apply "aéb" = some "e+b" ∧
      (Fix.mk "" [⟨⟨0, 1⟩, ""⟩, ⟨⟨3, 3⟩, "+"⟩, ⟨⟨1, 3⟩, "e"⟩]).apply "aéb" = some "e+b" := by
  let f : Fix := ⟨"", [⟨⟨1, 3⟩, "e"⟩, ⟨⟨3, 3⟩, "+"⟩, ⟨⟨0, 1⟩, ""⟩]⟩
  have hreads : ∀ e ∈ f.edits, e.ReadsIn "aéb".toList := by decide
  have hfix := apply_eq_rewritten hreads (by decide) (by decide)
  have htext : rewritten f.edits "aéb".toList = "e+b".toList := by decide
  rw [htext, String.ofList_toList] at hfix
  exact ⟨hfix.1, (hfix.2 _ (by decide)).trans hfix.1⟩

end
end Fix
end EmitLint
