/-
# Texts before and after an edit

`apply_suggestion` says what a text is after a suggestion is taken.  Main
statement: `mentionsEmits_of_leavesWords`, a word that a declaration cannot do
without is still there after the edit of a `null`, because no occurrence of such
a word reaches into it.
-/
import EmitLint.Proofs.Text.Boundary
import EmitLint.Rule.EmitValidator

namespace EmitLint.Text

/-! ## Words around a letter -/

variable {word before after : List Char}

theorem occursIn_append_left (h : occursIn word before = true) :
    occursIn word (before ++ after) = true := by
  obtain ⟨a, b, rfl⟩ := occursIn_iff.mp h
  exact occursIn_iff.mpr ⟨a, b ++ after, by simp⟩

theorem occursIn_append_right (h : occursIn word after = true) :
    occursIn word (before ++ after) = true := by
  obtain ⟨a, b, rfl⟩ := occursIn_iff.mp h
  exact occursIn_iff.mpr ⟨before ++ a, b, by simp⟩

/-- A letter that is not in the word parts the places where it can occur. -/
theorem occursIn_append_cons {y : Char} (hy : y ∉ word)
    (h : occursIn word (before ++ y :: after) = true) :
    occursIn word before = true ∨ occursIn word after = true := by
  obtain ⟨a, b, hab⟩ := occursIn_iff.mp h
  rcases List.append_eq_append_iff.mp hab with ⟨c, hbefore, -⟩ | ⟨c, hbefore, hafter⟩
  · exact .inl (occursIn_iff.mpr ⟨a, c, hbefore.symm⟩)
  · cases c with
    | nil =>
        refine .inl (occursIn_iff.mpr ⟨a, [], ?_⟩)
        rw [List.append_nil, hbefore, List.append_nil]
    | cons z c =>
        obtain ⟨rfl, rfl⟩ := List.cons.inj hafter
        -- The word ends behind the letter, so it begins behind it as well.
        rcases List.append_eq_append_iff.mp hbefore with ⟨d, -, hd⟩ | ⟨d, -, hd⟩
        · exact absurd (hd ▸ List.mem_append_right d List.mem_cons_self) hy
        · cases d with
          | nil => exact absurd (hd ▸ List.mem_cons_self : y ∈ [] ++ word) hy
          | cons z d =>
              obtain ⟨-, rfl⟩ := List.cons.inj hd
              exact .inr (occursIn_iff.mpr ⟨d, b, by simp⟩)

/-- Nor can the word reach into text that does not hold its last letter. -/
theorem occursIn_of_append {y : Char} {inside : List Char} (hlast : word.getLast? = some y)
    (hy : y ∉ inside) (h : occursIn word (before ++ inside) = true) :
    occursIn word before = true := by
  obtain ⟨a, b, hab⟩ := occursIn_iff.mp h
  rcases List.append_eq_append_iff.mp hab with ⟨c, hbefore, -⟩ | ⟨c, hbefore, hinside⟩
  · exact occursIn_iff.mpr ⟨a, c, hbefore.symm⟩
  · cases hc : c.getLast? with
    | none =>
        rw [List.getLast?_eq_none_iff.mp hc, List.append_nil] at hbefore
        exact occursIn_iff.mpr ⟨a, [], by rw [List.append_nil, hbefore]⟩
    | some z =>
        -- The word ends inside, with a letter that is not there.
        have hz : some z = some y := by
          rw [← hlast, ← hc]
          have hboth := congrArg List.getLast? hbefore
          rw [List.getLast?_append, List.getLast?_append, hlast, hc] at hboth
          rw [hlast, hc]
          exact hboth.symm
        obtain rfl := Option.some.inj hz
        exact absurd (hinside ▸ List.mem_append_left b (List.mem_of_getLast? hc)) hy

end EmitLint.Text

namespace EmitLint.EmitValidator

open Text

/-! ## Around a `null` -/

/-- Around such a piece of text the words stay as they are: it ends with none of
their letters, and does not hold the letter that they end with.  So it is with
`null`, also if some of its letters are escaped. -/
structure LeavesWords (piece : List Char) : Prop where
  ends : ∃ front y, piece = front ++ [y] ∧ y ∉ "emits".toList ∧ y ∉ "defineEmits".toList
  inside : 's' ∉ piece

theorem leavesWords_null : LeavesWords "null".toList :=
  ⟨⟨"nul".toList, 'l', by decide, by decide, by decide⟩, by decide⟩

theorem occursIn_around {word front before after : List Char} {y : Char} (hy : y ∉ word)
    (hlast : word.getLast? = some 's') (hs : 's' ∉ front ++ [y])
    (h : occursIn word (before ++ (front ++ [y]) ++ after) = true) :
    occursIn word before = true ∨ occursIn word after = true := by
  have htext : before ++ (front ++ [y]) ++ after = (before ++ front) ++ y :: after := by
    simp
  rw [htext] at h
  rcases occursIn_append_cons hy h with h | h
  · exact .inl (occursIn_of_append hlast (fun hmem => hs (List.mem_append_left _ hmem)) h)
  · exact .inr h

/-- Whatever comes in place of such a piece, the words stay. -/
theorem mentionsEmits_of_leavesWords {source edited : String} {piece before after new : List Char}
    (hpiece : LeavesWords piece) (hsource : source.toList = before ++ piece ++ after)
    (hedited : edited.toList = before ++ new ++ after) (h : mentionsEmits source = true) :
    mentionsEmits edited = true := by
  obtain ⟨⟨front, y, rfl, hemits, hdefine⟩, hs⟩ := hpiece
  have haround : ∀ word : List Char,
      occursIn word before = true ∨ occursIn word after = true →
      occursIn word edited.toList = true := by
    rintro word (h | h)
    · rw [hedited, List.append_assoc]
      exact occursIn_append_left h
    · rw [hedited]
      exact occursIn_append_right h
  rw [mentionsEmits, Bool.or_eq_true, hsource] at h
  rw [mentionsEmits, Bool.or_eq_true]
  refine h.imp (fun h => haround _ ?_) (fun h => haround _ ?_)
  · exact occursIn_around hemits (by decide) hs h
  · exact occursIn_around hdefine (by decide) hs h

theorem apply_suggestion_append {source : String} {t : Span} {before inside after : List Char}
    (hsource : source.toList = before ++ inside ++ after) (hstart : byteLength before = t.start)
    (hstop : byteLength before + byteLength inside = t.stop) :
    (suggestion t).apply source = some (String.ofList (before ++ replacement.toList ++ after)) := by
  have hreplace := TextEdit.replaceIn_append ⟨t, replacement⟩ before inside after hstart.symm
    hstop.symm
  rw [suggestion, Fix.single, Fix.apply, Fix.fromBack, List.mergeSort_singleton,
    Fix.replaceAll_cons, hsource, hreplace]
  rfl

/-- The text after a suggestion is taken. -/
theorem apply_suggestion {source : String} {t : Span} {inside : List Char}
    (h : slice? source.toList t.start t.stop = some inside) :
    ∃ before after, source.toList = before ++ inside ++ after ∧
      (suggestion t).apply source =
        some (String.ofList (before ++ replacement.toList ++ after)) := by
  obtain ⟨before, after, hsource, hstart, hstop⟩ := slice?_eq_some h
  exact ⟨before, after, hsource, apply_suggestion_append hsource hstart hstop⟩

end EmitLint.EmitValidator
