/-
# Words in a text

Whether a word stands somewhere in a text.

Main statement: `occursIn_iff`, it does exactly if the text is the word with
something before and after it.
-/

namespace EmitLint.Text

/-- The word stands somewhere in the text. -/
def occursIn (word : List Char) : List Char → Bool
  | [] => word.isEmpty
  | c :: cs => word.isPrefixOf (c :: cs) || occursIn word cs

theorem occursIn_iff {word text : List Char} :
    occursIn word text = true ↔ ∃ before after, before ++ word ++ after = text := by
  induction text with
  | nil =>
    rw [occursIn, List.isEmpty_iff]
    constructor
    · rintro rfl
      exact ⟨[], [], rfl⟩
    · rintro ⟨before, after, h⟩
      rw [List.append_eq_nil_iff, List.append_eq_nil_iff] at h
      exact h.1.2
  | cons c cs ih =>
    rw [occursIn, Bool.or_eq_true, ih, List.isPrefixOf_iff_prefix]
    constructor
    · rintro (⟨after, h⟩ | ⟨before, after, h⟩)
      · exact ⟨[], after, h⟩
      · exact ⟨c :: before, after, by rw [← h]; rfl⟩
    · rintro ⟨_ | ⟨b, before⟩, after, h⟩
      · exact .inl ⟨after, h⟩
      · simp only [List.cons_append, List.cons.injEq] at h
        exact .inr ⟨before, after, h.2⟩

end EmitLint.Text
