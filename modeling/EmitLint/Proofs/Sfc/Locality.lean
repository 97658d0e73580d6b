/-
# How far a piece looks ahead

Main statement: `front_append`.  What the scan takes off the front of a text is
settled by the bytes that it takes, or by the first eight where it takes only
one.  Whatever stands behind these may be exchanged.

A comment and a script that are never closed are not settled in this way: for
them the whole rest of the text matters.
-/
import EmitLint.Proofs.Sfc.Parts

namespace EmitLint.Sfc

/-- Whether `P` holds of a text is settled by the first `k` bytes of it. -/
def SettledBy (k : Nat) (P : List UInt8 → Prop) : Prop :=
  ∀ bs rest rest' : List UInt8, k ≤ bs.length → P (bs ++ rest) → P (bs ++ rest')

section
variable {bs rest rest' word : List UInt8} {P : List UInt8 → Prop} {n k : Nat}

theorem settledBy_word (word : List UInt8) : SettledBy word.length (word <+: ·) := by
  intro bs rest rest' hlength h
  have hword : word <+: bs :=
    List.prefix_of_prefix_length_le h (List.prefix_append bs rest) hlength
  exact hword.trans (List.prefix_append bs rest')

theorem startsWith_append (h : word.length ≤ bs.length) :
    startsWith word (bs ++ rest) = startsWith word bs := by
  rw [startsWith, startsWith, List.take_append_of_le_length h]

theorem settledBy_closes : SettledBy Mark.scriptEnd.length Closes := by
  intro bs rest rest' hlength h
  rw [Closes, startsWith_append hlength] at h ⊢
  exact h

theorem isScriptOpen_append (h : Mark.script.length < bs.length) :
    isScriptOpen (bs ++ rest) = isScriptOpen bs := by
  rw [isScriptOpen, isScriptOpen, startsWith_append (Nat.le_of_lt h), List.getElem?_append_left h]

theorem firstAt_append (hP : SettledBy k P) (hlength : n + k ≤ bs.length)
    (h : FirstAt P (bs ++ rest) n) : FirstAt P (bs ++ rest') n := by
  have hdrop : ∀ i ≤ n, ∀ tail, (bs ++ tail).drop i = bs.drop i ++ tail := by
    intro i hi tail
    exact List.drop_append_of_le_length (by omega)
  have hreach : ∀ i ≤ n, k ≤ (bs.drop i).length := by
    intro i hi
    rw [List.length_drop]
    omega
  obtain ⟨hfound, hnone⟩ := h
  constructor
  · rw [hdrop n (Nat.le_refl n)] at hfound ⊢
    exact hP _ _ _ (hreach n (Nat.le_refl n)) hfound
  · intro i hi hother
    refine hnone i hi ?_
    rw [hdrop i (Nat.le_of_lt hi)] at hother ⊢
    exact hP _ _ _ (hreach i (Nat.le_of_lt hi)) hother

theorem lt_of_openingTag (h : OpeningTag bs n) : Mark.script.length < n := by
  obtain ⟨-, text, rest, -, -, rfl⟩ := h
  omega

theorem openingTag_append (hlength : n ≤ bs.length) (h : OpeningTag (bs ++ rest) n) :
    OpeningTag (bs ++ rest') n := by
  have hscript := lt_of_openingTag h
  have hopens : Mark.script.length < bs.length := Nat.lt_of_lt_of_le hscript hlength
  obtain ⟨hopen, text, behind, hbs, htext, rfl⟩ := h
  rw [isScriptOpen_append hopens] at hopen
  rw [List.drop_append_of_le_length (Nat.le_of_lt hopens)] at hbs
  have htag : text ++ [62] <+: bs.drop Mark.script.length := by
    refine List.prefix_of_prefix_length_le ⟨behind, ?_⟩ (List.prefix_append _ rest) ?_
    · rw [hbs, List.append_assoc]
      rfl
    · rw [List.length_append, List.length_drop, List.length_singleton]
      omega
  obtain ⟨tail, htail⟩ := htag
  refine ⟨?_, text, tail ++ rest', ?_, htext, rfl⟩
  · rw [isScriptOpen_append hopens]
    exact hopen
  · rw [List.drop_append_of_le_length (Nat.le_of_lt hopens), ← htail]
    simp

end

/-- The bytes that settle what a piece is. -/
def Piece.reach : Piece → Nat
  | .text => Mark.script.length + 1
  | piece => piece.length

/-- What is found at the front stays when what is behind it is exchanged. -/
theorem front_append {bs rest rest' : List UInt8} {p : Piece} (hp : ¬ p.Stops)
    (hlength : p.reach ≤ bs.length) (h : Piece.front (bs ++ rest) = p) :
    Piece.front (bs ++ rest') = p := by
  rw [Piece.front_eq_iff] at h ⊢
  cases h with
  | openComment => exact absurd (.inl rfl) hp
  | endless | unclosed => exact absurd (.inr rfl) hp
  | text hcomment hopen =>
      have hscript : Mark.script.length < bs.length := hlength
      refine .text ?_ ?_
      · intro hother
        refine hcomment (settledBy_word Mark.comment bs rest' rest ?_ hother)
        exact Nat.le_trans (by decide) hlength
      · rw [isScriptOpen_append hscript] at hopen ⊢
        exact hopen
  | @comment m hcomment hfirst =>
      have hreach : Mark.comment.length + m + Mark.commentEnd.length ≤ bs.length := hlength
      have hmark : Mark.comment.length ≤ bs.length := by omega
      rw [List.drop_append_of_le_length hmark] at hfirst
      refine .comment (settledBy_word Mark.comment bs rest rest' hmark hcomment) ?_
      rw [List.drop_append_of_le_length hmark]
      refine firstAt_append (settledBy_word Mark.commentEnd) ?_ hfirst
      rw [List.length_drop]
      omega
  | @external n htag hslash =>
      have hscript := lt_of_openingTag htag
      have hreach : n ≤ bs.length := hlength
      rw [List.getElem?_append_left (by omega)] at hslash
      refine .external (openingTag_append hreach htag) ?_
      rw [List.getElem?_append_left (by omega)]
      exact hslash
  | @element tag content htag hslash hfirst =>
      have hscript := lt_of_openingTag htag
      have hreach : tag + content + Mark.scriptEnd.length ≤ bs.length := hlength
      have htagLength : tag ≤ bs.length := by omega
      rw [List.getElem?_append_left (by omega)] at hslash
      rw [List.drop_append_of_le_length htagLength] at hfirst
      refine .element (openingTag_append htagLength htag) ?_ ?_
      · rw [List.getElem?_append_left (by omega)]
        exact hslash
      · rw [List.drop_append_of_le_length htagLength]
        refine firstAt_append settledBy_closes ?_ hfirst
        rw [List.length_drop]
        omega

end EmitLint.Sfc
