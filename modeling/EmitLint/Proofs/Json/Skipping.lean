/-
# A value that nobody asks for is passed over

Main statement: `run_skipValue`, any text of any value is taken off the front,
whatever follows it, and nothing else is.  What follows must not go on with a
number, for numbers have no end of their own.
-/
import EmitLint.Proofs.Json.Strings

namespace EmitLint.Json

/-- What may stand behind a value. -/
def Ends (rest : List Char) : Prop :=
  ∀ c ∈ rest.head?, c ∈ [' ', '\t', '\n', '\r', ',', ']', '}']

/-- The text does not start with a digit. -/
def NoDigit (cs : List Char) : Prop := ∀ c ∈ cs.head?, isDigit c = false

section

variable {c : Char} {cs front rest : List Char}

theorem ends_cons (h : c ∈ [' ', '\t', '\n', '\r', ',', ']', '}']) : Ends (c :: cs) := by
  intro d hd
  obtain rfl : c = d := by simpa using hd
  exact h

/-- White space may stand between a value and what ends it. -/
theorem ends_blanks (h : IsBlanks front) (hrest : Ends rest) : Ends (front ++ rest) := by
  cases front with
  | nil => exact hrest
  | cons c front =>
      refine ends_cons ?_
      have hc : c ∈ [' ', '\t', '\n', '\r'] := h c List.mem_cons_self
      exact List.mem_append_left [',', ']', '}'] hc

theorem Ends.noDigit (h : Ends rest) : NoDigit rest := by
  have hall : ∀ c ∈ [' ', '\t', '\n', '\r', ',', ']', '}'], isDigit c = false := by simp [isDigit]
  exact fun c hc => hall c (h c hc)

theorem noDigit_cons (h : isDigit c = false) : NoDigit (c :: cs) := by
  intro d hd
  obtain rfl : c = d := by simpa using hd
  exact h

end

/-! ## Numbers -/

theorem isDigit_digitChar (d : Fin 10) : isDigit (digitChar d) = true := by
  revert d
  decide

theorem isDigit_of_mem {d : Digits} {c : Char} (h : c ∈ d.text) : isDigit c = true := by
  rcases List.mem_cons.mp h with rfl | h
  · exact isDigit_digitChar d.first
  · obtain ⟨e, -, rfl⟩ := List.mem_map.mp h
    exact isDigit_digitChar e

section

variable {lax : Bool} {rest : List Char}

/-- Digits are read up to the first character that is none. -/
theorem run_takeDigits (d : Digits) (h : NoDigit rest) :
    takeDigits.run (d.text ++ rest) = .ok (d.text, rest) := by
  have htake : (d.text ++ rest).takeWhile isDigit = d.text := by
    rw [List.takeWhile_append_of_pos fun c => isDigit_of_mem]
    cases rest with
    | nil => simp
    | cons c rest => simp [h c rfl]
  have hdrop : (d.text ++ rest).dropWhile isDigit = rest := by
    rw [List.dropWhile_append_of_pos fun c => isDigit_of_mem]
    cases rest with
    | nil => rfl
    | cons c rest => simp [h c rfl]
  have hrun : takeDigits.run (d.text ++ rest) = .ok
      ((d.text ++ rest).takeWhile isDigit, (d.text ++ rest).dropWhile isDigit) := rfl
  rw [hrun, htake, hdrop]

theorem run_requireDigits (d : Digits) (h : NoDigit rest) :
    (requireDigits lax).run (d.text ++ rest) = .ok (d.text, rest) := by
  rw [requireDigits, run_bind_ok (run_get _)]
  show (if isDigit (digitChar d.first) then takeDigits else stop .malformed).run _ = _
  rw [if_pos (isDigit_digitChar d.first), run_takeDigits d h]

theorem run_readWhole (w : Whole) (h : NoDigit rest) :
    (readWhole lax).run (w.text ++ rest) = .ok (w.text, rest) := by
  rw [readWhole, Whole.text, run_bind_ok (run_requireDigits w.digits h)]
  cases w with
  | zero => rfl
  | positive before ds =>
      have hzero : digitChar before.succ ≠ '0' := by
        revert before
        decide
      split
      · rename_i heq
        exact absurd (List.cons.inj heq).1 hzero
      · rfl

theorem noDigit_exponentText (n : Numeral) (hrest : Ends rest) :
    NoDigit (n.exponentText ++ rest) := by
  unfold Numeral.exponentText
  split
  · rename_i e _
    have hletter : ∀ c ∈ ['e', 'E'], isDigit c = false := by simp [isDigit]
    exact noDigit_cons (hletter _ e.letter_mem)
  · exact hrest.noDigit

theorem noDigit_fractionText (n : Numeral) (hrest : Ends rest) :
    NoDigit (n.fractionText ++ (n.exponentText ++ rest)) := by
  unfold Numeral.fractionText
  split
  · exact noDigit_cons (by decide)
  · exact noDigit_exponentText n hrest

/-- Neither a point nor an `e` follows a number. -/
theorem not_point_of_ends (h : Ends rest) : rest.head? ≠ some '.' ∧
    ¬ (rest.head? = some 'e' ∨ rest.head? = some 'E') := by
  refine ⟨fun heq => ?_, fun heq => ?_⟩
  · exact absurd (h _ heq) (by decide)
  · rcases heq with heq | heq <;> exact absurd (h _ heq) (by decide)

theorem exponentText_not_point (n : Numeral) (hrest : Ends rest) :
    (n.exponentText ++ rest).head? ≠ some '.' := by
  unfold Numeral.exponentText
  split
  · rename_i e _
    intro heq
    have hletter : e.letter = '.' := by simpa [Exponent.text] using heq
    exact absurd (hletter ▸ e.letter_mem) (by decide)
  · exact (not_point_of_ends hrest).1

theorem run_readFraction (lax : Bool) (n : Numeral) (s : Scaled) (hrest : Ends rest) :
    ∃ s', (readFraction lax s).run (n.fractionText ++ (n.exponentText ++ rest)) =
      .ok (s', n.exponentText ++ rest) := by
  unfold readFraction
  rw [run_bind_ok (run_get _)]
  unfold Numeral.fractionText
  split
  · rename_i digits _
    rw [List.cons_append, List.head?_cons, if_pos rfl, run_bind_ok (run_advance _ _),
      run_bind_ok (run_requireDigits digits (noDigit_exponentText n hrest))]
    split <;> exact ⟨_, rfl⟩
  · rw [List.nil_append, if_neg (exponentText_not_point n hrest)]
    exact ⟨s, rfl⟩

/-- No sign starts with a digit. -/
theorem digits_not_sign (d : Digits) :
    ¬ ((d.text ++ rest).head? = some '+' ∨ (d.text ++ rest).head? = some '-') := by
  have hdigit : ∀ d : Fin 10, ¬ (digitChar d = '+' ∨ digitChar d = '-') := by decide
  simpa [Digits.text] using hdigit d.first

theorem run_readPower (lax : Bool) (n : Numeral) (s : Scaled) (hrest : Ends rest) :
    ∃ s', (readPower lax s).run (n.exponentText ++ rest) = .ok (s', rest) := by
  unfold readPower
  rw [run_bind_ok (run_get _), run_bind_ok (run_get _)]
  unfold Numeral.exponentText
  split
  · rename_i e _
    have hletter : (e.text ++ rest).head? = some 'e' ∨ (e.text ++ rest).head? = some 'E' := by
      simpa [Exponent.text] using e.letter_mem
    rw [if_pos hletter]
    show ∃ s', (advance >>= _).run (e.letter :: (e.sign.toList ++ e.digits.text ++ rest)) = _
    rw [run_bind_ok (run_advance _ _), run_bind_ok (run_get _)]
    have hdigits : (requireDigits lax).run (e.digits.text ++ rest) = .ok (e.digits.text, rest) :=
      run_requireDigits e.digits hrest.noDigit
    cases hsign : e.sign with
    | none =>
        rw [Option.toList_none, List.nil_append, if_neg (digits_not_sign e.digits)]
        rw [run_bind_ok hdigits]
        exact ⟨_, rfl⟩
    | some c =>
        have hc : c = '+' ∨ c = '-' := by simpa [hsign] using e.sign_mem c hsign
        rw [Option.toList_some, List.singleton_append, List.cons_append, List.head?_cons,
          if_pos (hc.imp (congrArg some) (congrArg some)), run_bind_ok (run_advance _ _),
          run_bind_ok hdigits]
        exact ⟨_, rfl⟩
  · rw [List.nil_append, if_neg (not_point_of_ends hrest).2]
    exact ⟨s, rfl⟩

theorem run_skipNumber (n : Numeral) (hrest : Ends rest) :
    (readNumber true).run (n.unsignedText ++ rest) = .ok ((), rest) := by
  unfold readNumber
  rw [Numeral.unsignedText, List.append_assoc, List.append_assoc,
    run_bind_ok (run_readWhole n.whole (noDigit_fractionText n hrest))]
  obtain ⟨s, hs⟩ := run_readFraction true n
    ⟨(significand 0 n.whole.text).1, (significand 0 n.whole.text).2,
      (significand 0 n.whole.text).2 = 0⟩ hrest
  obtain ⟨t, ht⟩ := run_readPower true n s hrest
  rw [run_bind_ok hs, run_bind_ok ht]
  rfl

end

/-! ## Values -/

section

variable {front cs rest : List Char} {fuel : Nat}

theorem run_skip_blanks (h : IsBlanks front) (fuel : Nat) (cs : List Char) :
    (skip fuel).run (front ++ cs) = (skip fuel).run cs := by
  cases fuel with
  | zero => rfl
  | succ fuel =>
      rw [skip]
      exact run_bind_congr (run_peek_blanks h cs)

theorem run_skipElements_blanks (h : IsBlanks front) (fuel : Nat) (cs : List Char) :
    (skipElements fuel).run (front ++ cs) = (skipElements fuel).run cs := by
  cases fuel with
  | zero => rfl
  | succ fuel =>
      rw [skipElements]
      exact run_bind_congr (run_skip_blanks h fuel cs)

theorem run_skipMembers_blanks (h : IsBlanks front) (fuel : Nat) (cs : List Char) :
    (skipMembers fuel).run (front ++ cs) = (skipMembers fuel).run cs := by
  cases fuel with
  | zero => rfl
  | succ fuel =>
      rw [skipMembers]
      exact run_bind_congr (run_peek_blanks h cs)

/-- The first character of a value or a member. -/
def Opens (text : List Char) : Prop :=
  ∃ c tail, text = c :: tail ∧ isBlank c = false ∧ c ≠ ']' ∧ c ≠ '}'

theorem opens_cons {c : Char} (cs : List Char)
    (h : isBlank c = false ∧ c ≠ ']' ∧ c ≠ '}') : Opens (c :: cs) := ⟨c, cs, rfl, h⟩

theorem not_blank_of_isDigit (d : Fin 10) :
    isBlank (digitChar d) = false ∧ digitChar d ≠ ']' ∧ digitChar d ≠ '}' := by
  revert d
  decide

theorem opens_number (n : Numeral) : Opens n.text := by
  unfold Numeral.text
  split
  · exact opens_cons _ (by decide)
  · exact opens_cons _ (not_blank_of_isDigit n.whole.digits.first)

theorem opens_writing {v : Value} {cs : List Char} (h : Writing v cs) : Opens cs := by
  cases h with
  | number n => exact opens_number n
  | _ => exact opens_cons _ (by decide)

theorem opens_memberText {P : Value → List Char → Prop} {m : String × Value} {cs : List Char}
    (h : MemberText P m cs) : Opens cs := by
  cases h
  exact opens_cons _ (by decide)

/-- A listing of something is white space and then its first item. -/
theorem opens_listing {α : Type} {P : α → List Char → Prop} {a : α} {as : List α}
    (hP : ∀ {text}, P a text → Opens text) (h : Listing P (a :: as) cs) (rest : List Char) :
    ∃ front c tail, IsBlanks front ∧ cs ++ rest = front ++ c :: tail ∧ isBlank c = false ∧
      c ≠ ']' ∧ c ≠ '}' := by
  cases h with
  | last hfront h _ =>
      obtain ⟨c, tail, rfl, hc⟩ := hP h
      exact ⟨_, c, _, hfront, by rw [List.append_assoc]; rfl, hc⟩
  | more hfront h _ _ =>
      obtain ⟨c, tail, rfl, hc⟩ := hP h
      exact ⟨_, c, _, hfront, by rw [List.append_assoc]; rfl, hc⟩

/-- What starts with a digit is passed over as a number. -/
theorem run_skip_digit (d : Fin 10) (fuel : Nat) (cs : List Char) :
    (skip (fuel + 1)).run (digitChar d :: cs) = (readNumber true).run (digitChar d :: cs) := by
  have hdigit := isDigit_digitChar d
  rw [skip, run_bind_ok (run_peek_cons (not_blank_of_isDigit d).1 cs)]
  generalize digitChar d = c at hdigit ⊢
  dsimp only
  split
  case h_8 => rw [if_pos hdigit]
  all_goals exact absurd hdigit (by decide)

theorem run_skip_numeral (n : Numeral) (hrest : Ends rest) (fuel : Nat) :
    (skip (fuel + 1)).run (n.text ++ rest) = .ok ((), rest) := by
  unfold Numeral.text
  split
  · rw [List.cons_append, skip, run_bind_ok (run_peek_cons (by decide) _)]
    show (advance >>= fun _ => readNumber true).run _ = _
    rw [run_bind_ok (run_advance _ _), run_skipNumber n hrest]
  · exact (run_skip_digit n.whole.digits.first fuel _).trans (run_skipNumber n hrest)

/-! ### Brackets -/

theorem run_skip_bracket (fuel : Nat) (cs : List Char) :
    (skip (fuel + 1)).run ('[' :: cs) =
      (peek >>= fun next => if next = some ']' then advance else skipElements fuel).run cs := by
  rw [skip, run_bind_ok (run_peek_cons (by decide) _)]
  exact run_bind_ok (run_advance _ _)

theorem run_skip_brace (fuel : Nat) (cs : List Char) :
    (skip (fuel + 1)).run ('{' :: cs) =
      (peek >>= fun next => if next = some '}' then advance else skipMembers fuel).run cs := by
  rw [skip, run_bind_ok (run_peek_cons (by decide) _)]
  exact run_bind_ok (run_advance _ _)

theorem run_skip_emptyArray (h : IsBlanks front) :
    (skip (fuel + 1)).run ('[' :: (front ++ ']' :: rest)) = .ok ((), rest) := by
  rw [run_skip_bracket, run_bind_ok (run_peek h (by decide) _), if_pos rfl, run_advance]

theorem run_skip_emptyObject (h : IsBlanks front) :
    (skip (fuel + 1)).run ('{' :: (front ++ '}' :: rest)) = .ok ((), rest) := by
  rw [run_skip_brace, run_bind_ok (run_peek h (by decide) _), if_pos rfl, run_advance]

theorem run_skip_array {v : Value} {vs : List Value} (h : Listing Writing (v :: vs) cs)
    (helements : (skipElements fuel).run (cs ++ ']' :: rest) = .ok ((), rest)) :
    (skip (fuel + 1)).run ('[' :: (cs ++ ']' :: rest)) = .ok ((), rest) := by
  obtain ⟨front, c, tail, hfront, hsplit, hblank, hopen, -⟩ :=
    opens_listing opens_writing h (']' :: rest)
  rw [hsplit, run_skipElements_blanks hfront] at helements
  rw [hsplit, run_skip_bracket, run_bind_ok (run_peek hfront hblank _),
    if_neg (by simpa using hopen), helements]

theorem run_skip_object {m : String × Value} {ms : List (String × Value)}
    (h : Listing (MemberText Writing) (m :: ms) cs)
    (hmembers : (skipMembers fuel).run (cs ++ '}' :: rest) = .ok ((), rest)) :
    (skip (fuel + 1)).run ('{' :: (cs ++ '}' :: rest)) = .ok ((), rest) := by
  obtain ⟨front, c, tail, hfront, hsplit, hblank, -, hopen⟩ :=
    opens_listing opens_memberText h ('}' :: rest)
  rw [hsplit, run_skipMembers_blanks hfront] at hmembers
  rw [hsplit, run_skip_brace, run_bind_ok (run_peek hfront hblank _),
    if_neg (by simpa using hopen), hmembers]

/-! ### Items -/

theorem run_skipElements_last (hitem : (skip fuel).run cs = .ok ((), front ++ ']' :: rest))
    (h : IsBlanks front) : (skipElements (fuel + 1)).run cs = .ok ((), rest) := by
  rw [skipElements, run_bind_ok hitem, run_bind_ok (run_peek h (by decide) _)]
  rfl

theorem run_skipElements_more (hitem : (skip fuel).run cs = .ok ((), front ++ ',' :: rest))
    (h : IsBlanks front) : (skipElements (fuel + 1)).run cs = (skipElements fuel).run rest := by
  rw [skipElements, run_bind_ok hitem, run_bind_ok (run_peek h (by decide) _)]
  show (advance >>= fun _ => skipElements fuel).run _ = _
  rw [run_bind_ok (run_advance _ _)]

/-- The steps of a member up to its value. -/
theorem run_skipMembers_name {name : String} {lead word : List Char} (hlead : IsBlanks lead)
    (hname : Spells name.toList word) (hfront : IsBlanks front) :
    (skipMembers (fuel + 1)).run (lead ++ '"' :: (word ++ '"' :: (front ++ ':' :: cs))) =
      (do
        skip fuel
        match ← peek with
        | some ',' => do advance; skipMembers fuel
        | some '}' => advance
        | some _ => stop .malformed
        | none => stop .truncated : Reader Unit).run cs := by
  obtain ⟨read, hread⟩ := run_skipString hname (front ++ ':' :: cs)
  rw [skipMembers, run_bind_ok (run_peek hlead (by decide) _)]
  show (advance >>= fun _ => readString true >>= _).run _ = _
  rw [run_bind_ok (run_advance _ _), run_bind_ok hread, run_bind_ok (run_peek hfront (by decide) _)]
  rfl

end

/-! ### Any value -/

mutual

/-- A unit of fuel for each bracket and for each item is enough, and both take a character. -/
theorem run_skip (fuel : Nat) {v : Value} {cs : List Char} (h : Writing v cs) {rest : List Char}
    (hfuel : 2 * cs.length ≤ fuel) (hrest : Ends rest) :
    (skip fuel).run (cs ++ rest) = .ok ((), rest) := by
  cases fuel with
  | zero =>
      obtain ⟨c, tail, rfl, -⟩ := opens_writing h
      simp at hfuel
  | succ fuel =>
      cases h with
      | null | true | false =>
          show (skip (fuel + 1)).run (_ :: _) = _
          rw [skip, run_bind_ok (run_peek_cons (by decide) _)]
          rfl
      | number n => exact run_skip_numeral n hrest fuel
      | @string text word h =>
          obtain ⟨read, hread⟩ := run_skipString h rest
          rw [List.cons_append, List.append_assoc, List.singleton_append, skip,
            run_bind_ok (run_peek_cons (by decide) _)]
          show (advance >>= fun _ => readString true >>= fun _ => pure ()).run _ = _
          rw [run_bind_ok (run_advance _ _), run_bind_ok hread]
          rfl
      | @array vs cs h =>
          rw [List.cons_append, List.append_assoc, List.singleton_append]
          simp only [List.length_cons, List.length_append, List.length_nil] at hfuel
          cases vs with
          | nil =>
              obtain ⟨hblanks⟩ := h
              exact run_skip_emptyArray hblanks
          | cons v vs => exact run_skip_array h (run_skipElements fuel h (by omega))
      | @object ms cs h =>
          rw [List.cons_append, List.append_assoc, List.singleton_append]
          simp only [List.length_cons, List.length_append, List.length_nil] at hfuel
          cases ms with
          | nil =>
              obtain ⟨hblanks⟩ := h
              exact run_skip_emptyObject hblanks
          | cons m ms => exact run_skip_object h (run_skipMembers fuel h (by omega))

theorem run_skipElements (fuel : Nat) {v : Value} {vs : List Value} {cs : List Char}
    (h : Listing Writing (v :: vs) cs) {rest : List Char} (hfuel : 2 * cs.length + 1 ≤ fuel) :
    (skipElements fuel).run (cs ++ ']' :: rest) = .ok ((), rest) := by
  cases fuel with
  | zero => omega
  | succ fuel =>
      cases h with
      | @last _ front text back hfront h hback =>
          simp only [List.length_append] at hfuel
          have hitem : (skip fuel).run (front ++ (text ++ (back ++ ']' :: rest))) =
              .ok ((), back ++ ']' :: rest) := by
            rw [run_skip_blanks hfront]
            exact run_skip fuel h (by omega) (ends_blanks hback (ends_cons (by decide)))
          rw [List.append_assoc, List.append_assoc, run_skipElements_last hitem hback]
      | @more _ w _ front text back more hfront h hback hmore =>
          simp only [List.length_append, List.length_cons] at hfuel
          have hitem : (skip fuel).run (front ++ (text ++ (back ++ ',' :: (more ++ ']' :: rest)))) =
              .ok ((), back ++ ',' :: (more ++ ']' :: rest)) := by
            rw [run_skip_blanks hfront]
            exact run_skip fuel h (by omega) (ends_blanks hback (ends_cons (by decide)))
          rw [List.append_assoc, List.append_assoc, List.append_assoc, List.cons_append,
            run_skipElements_more hitem hback, run_skipElements fuel hmore (by omega)]

theorem run_skipMembers (fuel : Nat) {m : String × Value} {ms : List (String × Value)}
    {cs : List Char} (h : Listing (MemberText Writing) (m :: ms) cs) {rest : List Char}
    (hfuel : 2 * cs.length + 1 ≤ fuel) :
    (skipMembers fuel).run (cs ++ '}' :: rest) = .ok ((), rest) := by
  cases fuel with
  | zero => omega
  | succ fuel =>
      cases h with
      | @last _ lead _ after hlead h hafter =>
          obtain @⟨name, v, word, front, back, text, hname, hfront, hback, h⟩ := h
          simp only [List.length_append, List.length_cons] at hfuel
          have hvalue : (skip fuel).run (back ++ (text ++ (after ++ '}' :: rest))) =
              .ok ((), after ++ '}' :: rest) := by
            rw [run_skip_blanks hback]
            exact run_skip fuel h (by omega) (ends_blanks hafter (ends_cons (by decide)))
          simp only [List.append_assoc, List.cons_append]
          rw [run_skipMembers_name hlead hname hfront, run_bind_ok hvalue,
            run_bind_ok (run_peek hafter (by decide) _)]
          rfl
      | @more _ _ _ lead _ after more hlead h hafter hmore =>
          obtain @⟨name, v, word, front, back, text, hname, hfront, hback, h⟩ := h
          simp only [List.length_append, List.length_cons] at hfuel
          have hvalue : (skip fuel).run
              (back ++ (text ++ (after ++ ',' :: (more ++ '}' :: rest)))) =
              .ok ((), after ++ ',' :: (more ++ '}' :: rest)) := by
            rw [run_skip_blanks hback]
            exact run_skip fuel h (by omega) (ends_blanks hafter (ends_cons (by decide)))
          simp only [List.append_assoc, List.cons_append]
          rw [run_skipMembers_name hlead hname hfront, run_bind_ok hvalue,
            run_bind_ok (run_peek hafter (by decide) _)]
          show (advance >>= fun _ => skipMembers fuel).run _ = _
          rw [run_bind_ok (run_advance _ _), run_skipMembers fuel hmore (by omega)]

end

theorem run_skipValue {v : Value} {front cs rest : List Char} (hfront : IsBlanks front)
    (h : Writing v cs) (hrest : Ends rest) :
    skipValue.run (front ++ (cs ++ rest)) = .ok ((), rest) := by
  rw [skipValue, run_bind_ok (run_get _), run_skip_blanks hfront]
  refine run_skip _ h ?_ hrest
  simp only [List.length_append]
  omega

end EmitLint.Json
