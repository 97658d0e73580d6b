/-
# Edits that do not fit

An edit that runs backwards or beyond the end of the text is passed over.  The
text is here the one that the edits made before it leave, which may be longer or
shorter than the source.  Main statement: `passed_over_iff`.  In ASCII, where
every offset is a place between characters, an edit has no effect whatever it
puts in exactly if it does not fit that text; and if none of the edits made
before it puts in more than it takes out, an edit that does not fit the source
does not fit that text either.
-/
import EmitLint.Proofs.Report.FromBack
import EmitLint.Proofs.Text.Ascii

namespace EmitLint

open Text

/-! ## Places in ASCII -/

namespace Text

variable {cs u v : List Char} {n : Nat}

theorem isAscii_append : IsAscii (u ++ v) ↔ IsAscii u ∧ IsAscii v := List.forall_mem_append

theorem byteLength_of_ascii (h : IsAscii cs) : byteLength cs = cs.length := by
  rw [← length_encode, encode_of_ascii h, List.length_map]

/-- A text in ASCII can be cut everywhere. -/
theorem exists_append_of_ascii (h : IsAscii cs) (hn : n ≤ byteLength cs) :
    ∃ u v, cs = u ++ v ∧ byteLength u = n := by
  refine ⟨cs.take n, cs.drop n, (List.take_append_drop n cs).symm, ?_⟩
  have htake : IsAscii (cs.take n) := fun c hc => h c (List.mem_of_mem_take hc)
  rw [byteLength_of_ascii h] at hn
  rw [byteLength_of_ascii htake, List.length_take, Nat.min_eq_left hn]

end Text

namespace Fix

/-! ## What edits put in and take out -/

/-- The bytes that the edits put in. -/
def putIn : List TextEdit → Nat
  | [] => 0
  | e :: edits => byteLength e.newText.toList + putIn edits

/-- The bytes that the edits take out. -/
def takenOut : List TextEdit → Nat
  | [] => 0
  | e :: edits => e.span.stop - e.span.start + takenOut edits

/-- The edit puts in no more than it takes out. -/
def Shortens (e : TextEdit) : Prop := byteLength e.newText.toList ≤ e.span.stop - e.span.start

section
variable {e : TextEdit} {edits : List TextEdit} {text t : List Char}

/-- An edit that fits is made. -/
theorem replaceIn_of_fits (htext : IsAscii text) (h : e.Fits text) :
    ∃ u inside v, text = u ++ inside ++ v ∧ byteLength u + byteLength inside = e.span.stop ∧
      e.span.start = byteLength u ∧
      e.replaceIn text = some (u ++ e.newText.toList ++ v) := by
  obtain ⟨front, v, rfl, hfront⟩ := exists_append_of_ascii htext h.2
  have hstart : e.span.start ≤ byteLength front := by
    rw [hfront]
    exact h.1
  obtain ⟨u, inside, rfl, hu⟩ := exists_append_of_ascii (isAscii_append.mp htext).1 hstart
  rw [byteLength_append] at hfront
  exact ⟨u, inside, v, rfl, hfront, hu.symm,
    e.replaceIn_append u inside v hu.symm hfront.symm⟩

/-- In ASCII an edit leaves a text, and how long it is depends on the edit alone. -/
structure Leaves (text : List Char) (edits : List TextEdit) (t : List Char) : Prop where
  made : replaceAll text edits = some t
  ascii : IsAscii t
  le : byteLength t ≤ byteLength text + putIn edits
  ge : byteLength text ≤ byteLength t + takenOut edits
  shortened : (∀ e ∈ edits, Shortens e) → byteLength t ≤ byteLength text

theorem exists_leaves (htext : IsAscii text) (hedits : ∀ e ∈ edits, IsAscii e.newText.toList) :
    ∃ t, Leaves text edits t := by
  induction edits generalizing text with
  | nil => exact ⟨text, rfl, htext, Nat.le_refl _, Nat.le_refl _, fun _ => Nat.le_refl _⟩
  | cons e edits ih =>
      obtain ⟨hnew, hedits⟩ := List.forall_mem_cons.mp hedits
      have hputIn : putIn (e :: edits) = byteLength e.newText.toList + putIn edits := rfl
      have htakenOut : takenOut (e :: edits) = e.span.stop - e.span.start + takenOut edits := rfl
      by_cases hfits : e.Fits text
      · obtain ⟨u, inside, v, rfl, hstop, hstart, hmade⟩ := replaceIn_of_fits htext hfits
        obtain ⟨hfront, hv⟩ := isAscii_append.mp htext
        have hu := (isAscii_append.mp hfront).1
        obtain ⟨t, ht⟩ := ih (isAscii_append.mpr ⟨isAscii_append.mpr ⟨hu, hnew⟩, hv⟩) hedits
        have hle := ht.le
        have hge := ht.ge
        simp only [byteLength_append] at hle hge
        refine ⟨t, by rw [replaceAll_cons, hmade, Option.bind_some, ht.made], ht.ascii, ?_, ?_, ?_⟩
        · simp only [byteLength_append]
          omega
        · simp only [byteLength_append]
          omega
        · intro hshort
          obtain ⟨he, hshort⟩ := List.forall_mem_cons.mp hshort
          have hrest := ht.shortened hshort
          simp only [Shortens, byteLength_append] at he hrest ⊢
          omega
      · obtain ⟨t, ht⟩ := ih htext hedits
        have hle := ht.le
        have hge := ht.ge
        refine ⟨t, ?_, ht.ascii, by omega, by omega, ?_⟩
        · rw [replaceAll_cons, TextEdit.replaceIn_of_not_fits hfits, Option.bind_some, ht.made]
        · exact fun hshort => ht.shortened (List.forall_mem_cons.mp hshort).2

end

/-! ## An edit among others -/

section
variable {source : String} {front back : List TextEdit} {s : Span} {t : List Char}

theorem apply_middle (message new : String)
    (ht : replaceAll source.toList (madeBefore front back s) = some t) :
    (Fix.mk message (front ++ ⟨s, new⟩ :: back)).apply source =
      ((TextEdit.replaceIn ⟨s, new⟩ t).bind (replaceAll · (madeAfter front back s))).map
        String.ofList := by
  rw [apply, fromBack_middle, replaceAll_append, ht, Option.bind_some, replaceAll_cons]

theorem apply_append (message : String)
    (ht : replaceAll source.toList (madeBefore front back s) = some t) :
    (Fix.mk message (front ++ back)).apply source =
      (replaceAll t (madeAfter front back s)).map String.ofList := by
  rw [apply, fromBack_append front back s, replaceAll_append, ht, Option.bind_some]

/-- An edit that fits shows, if what it puts in is long enough. -/
theorem exists_new_of_fits (ht : IsAscii t)
    (hafter : ∀ e ∈ madeAfter front back s, IsAscii e.newText.toList)
    (hfits : s.start ≤ s.stop ∧ s.stop ≤ byteLength t) :
    ∃ new : String, IsAscii new.toList ∧
      (TextEdit.replaceIn ⟨s, new⟩ t).bind (replaceAll · (madeAfter front back s)) ≠
        replaceAll t (madeAfter front back s) := by
  let after := madeAfter front back s
  let size := byteLength t + putIn after + takenOut after + 1
  let new := String.ofList (List.replicate size 'x')
  have hnew : IsAscii new.toList := by
    rw [String.toList_ofList]
    exact fun c hc => (List.mem_replicate.mp hc).2 ▸ by decide
  have hsize : byteLength new.toList = size := by
    rw [byteLength_of_ascii hnew, String.toList_ofList, List.length_replicate]
  refine ⟨new, hnew, fun hsame => ?_⟩
  obtain ⟨u, inside, v, rfl, -, -, hmade⟩ := replaceIn_of_fits (e := ⟨s, new⟩) ht hfits
  obtain ⟨hfront, hv⟩ := isAscii_append.mp ht
  have hu := (isAscii_append.mp hfront).1
  obtain ⟨y, hy⟩ := exists_leaves
    (isAscii_append.mpr ⟨isAscii_append.mpr ⟨hu, hnew⟩, hv⟩) hafter
  obtain ⟨z, hz⟩ := exists_leaves ht hafter
  rw [hmade, Option.bind_some, hy.made, hz.made] at hsame
  obtain rfl := Option.some.inj hsame
  have hlong := hy.ge
  have hshort := hz.le
  simp only [byteLength_append, hsize] at hlong hshort
  simp only [size, after, byteLength_append] at hlong
  omega

/-- An edit with the span `s` among others, in ASCII.  It has no effect, whatever it
puts in, exactly if it runs backwards or ends beyond the text `t` that the edits
made before it leave; and `t` is no longer than the source if none of those puts in
more than it takes out. -/
theorem passed_over_iff (front back : List TextEdit) (s : Span)
    (hsource : IsAscii source.toList)
    (htexts : ∀ e ∈ front ++ back, IsAscii e.newText.toList) :
    ∃ t, replaceAll source.toList (madeBefore front back s) = some t ∧
      (∀ message, ((Fix.mk message (front ++ back)).apply source).isSome = true) ∧
      ((∀ message new, IsAscii new.toList →
        (Fix.mk message (front ++ ⟨s, new⟩ :: back)).apply source =
          (Fix.mk message (front ++ back)).apply source) ↔
        s.stop < s.start ∨ byteLength t < s.stop) ∧
      ((∀ e ∈ madeBefore front back s, Shortens e) →
        byteLength t ≤ byteLength source.toList) := by
  have hbefore : ∀ e ∈ madeBefore front back s, IsAscii e.newText.toList := fun e he =>
    htexts e (List.mem_append.mpr ((mem_madeBefore.mp he).imp And.left And.left))
  have hafter : ∀ e ∈ madeAfter front back s, IsAscii e.newText.toList := fun e he =>
    htexts e (List.mem_append.mpr ((mem_madeAfter.mp he).imp And.left And.left))
  obtain ⟨t, ht⟩ := exists_leaves hsource hbefore
  refine ⟨t, ht.made, fun message => ?_, ⟨fun hsame => ?_, fun hnot message new _ => ?_⟩,
    ht.shortened⟩
  · obtain ⟨z, hz⟩ := exists_leaves ht.ascii hafter
    rw [apply_append message ht.made, hz.made]
    rfl
  · refine Decidable.byContradiction fun hfits => ?_
    rw [not_or, Nat.not_lt, Nat.not_lt] at hfits
    obtain ⟨new, hnew, hne⟩ := exists_new_of_fits ht.ascii hafter hfits
    have hboth := hsame "" new hnew
    rw [apply_middle "" new ht.made, apply_append "" ht.made] at hboth
    exact hne (Option.map_injective (fun _ _ => String.ofList_inj.mp) hboth)
  · have hfits : ¬ TextEdit.Fits ⟨s, new⟩ t := by
      rintro ⟨hstart, hstop⟩
      rcases hnot with h | h
      · exact absurd hstart (Nat.not_le.mpr h)
      · exact absurd hstop (Nat.not_le.mpr h)
    rw [apply_middle message new ht.made, apply_append message ht.made,
      TextEdit.replaceIn_of_not_fits hfits, Option.bind_some]

end

/-- Behind an edit that makes the text longer, one that ends beyond the source is made. -/
theorem overrunning_edit :
    ¬ TextEdit.Fits ⟨⟨1, 4⟩, "Q"⟩ "ab".toList ∧
      (Fix.mk "" [⟨⟨2, 2⟩, "xyz"⟩]).apply "ab" = some "abxyz" ∧
      (Fix.mk "" [⟨⟨2, 2⟩, "xyz"⟩, ⟨⟨1, 4⟩, "Q"⟩]).apply "ab" = some "aQz" := by
  refine ⟨by decide, ?_, ?_⟩
  · rw [apply, fromBack_of_descends (by decide)]
    decide
  · rw [apply, fromBack_of_descends (by decide)]
    decide

/-- Up to the end of the longer text an edit shows; beyond it, it does not. -/
theorem passed_over_iff_longer :
    (¬ ∀ message new, IsAscii new.toList →
      (Fix.mk message [⟨⟨2, 2⟩, "xyz"⟩, ⟨⟨1, 4⟩, new⟩]).apply "ab" =
        (Fix.mk message [⟨⟨2, 2⟩, "xyz"⟩]).apply "ab") ∧
    ∀ message new, IsAscii new.toList →
      (Fix.mk message [⟨⟨2, 2⟩, "xyz"⟩, ⟨⟨1, 6⟩, new⟩]).apply "ab" =
        (Fix.mk message [⟨⟨2, 2⟩, "xyz"⟩]).apply "ab" := by
  let front : List TextEdit := [⟨⟨2, 2⟩, "xyz"⟩]
  have hsource : IsAscii "ab".toList := by decide
  have htexts : ∀ e ∈ front ++ [], IsAscii e.newText.toList := by decide
  have hbefore : ∀ s : Span, s.start = 1 →
      replaceAll "ab".toList (madeBefore front [] s) = some "abxyz".toList := by
    intro s hs
    rw [madeBefore, hs, fromBack_of_descends (by decide)]
    decide
  refine ⟨?_, ?_⟩
  · obtain ⟨t, ht, -, hshows, -⟩ := passed_over_iff front [] ⟨1, 4⟩ hsource htexts
    obtain rfl := Option.some.inj ((hbefore ⟨1, 4⟩ rfl).symm.trans ht)
    exact mt hshows.mp (by decide)
  · obtain ⟨t, ht, -, hshows, -⟩ := passed_over_iff front [] ⟨1, 6⟩ hsource htexts
    obtain rfl := Option.some.inj ((hbefore ⟨1, 6⟩ rfl).symm.trans ht)
    exact hshows.mpr (by decide)

end Fix
end EmitLint
