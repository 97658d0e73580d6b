/-
# Strings are read as they are spelled

What the steps of a reader give on the texts of the grammar, up to strings.
Main statements: `run_readString`, a string is read back from any of its
spellings, and `run_skipString`, a lax reader takes the same text off.  A lax
reader may make other characters of it, for it does not put the halves of a
pair together.
-/
import EmitLint.Json.Reader
import EmitLint.Proofs.Json.Grammar

namespace EmitLint.Json

section

variable {α β : Type} {x : Reader α} {f : α → Reader β} {a : α} {c : Char}
  {cs front rest : List Char}

/-- Behind a step that succeeds, the next one goes on. -/
theorem run_bind_ok (h : x.run cs = .ok (a, rest)) : (x >>= f).run cs = (f a).run rest := by
  rw [StateT.run_bind, h]
  rfl

/-- What comes behind a step depends on what the step leaves. -/
theorem run_bind_congr {ds : List Char} (h : x.run cs = x.run ds) :
    (x >>= f).run cs = (x >>= f).run ds := by
  rw [StateT.run_bind, StateT.run_bind, h]

theorem run_advance (c : Char) (cs : List Char) : advance.run (c :: cs) = .ok ((), cs) := rfl

theorem run_get (cs : List Char) : (get : Reader (List Char)).run cs = .ok (cs, cs) := rfl

/-! ## Blanks -/

theorem isBlank_of_mem (h : c ∈ [' ', '\t', '\n', '\r']) : isBlank c = true := by
  simpa [isBlank, or_assoc] using h

theorem run_peek_eq (cs : List Char) :
    peek.run cs = .ok ((cs.dropWhile isBlank).head?, cs.dropWhile isBlank) := rfl

theorem run_peek_blanks (h : IsBlanks front) (cs : List Char) :
    peek.run (front ++ cs) = peek.run cs := by
  rw [run_peek_eq, run_peek_eq, List.dropWhile_append_of_pos fun d hd => isBlank_of_mem (h d hd)]

theorem run_peek_cons (hc : isBlank c = false) (cs : List Char) :
    peek.run (c :: cs) = .ok (some c, c :: cs) := by
  rw [run_peek_eq, List.dropWhile_cons_of_neg (by simp [hc]), List.head?_cons]

theorem run_peek (h : IsBlanks front) (hc : isBlank c = false) (cs : List Char) :
    peek.run (front ++ c :: cs) = .ok (some c, c :: cs) := by
  rw [run_peek_blanks h, run_peek_cons hc]

theorem run_colon (h : IsBlanks front) (cs : List Char) :
    colon.run (front ++ ':' :: cs) = .ok ((), cs) := by
  rw [colon, run_bind_ok (run_peek h (by decide) cs)]
  rfl

end

/-! ## Escapes -/

theorem hexDigit?_of_isHex {n : Fin 16} {c : Char} (h : IsHex n c) :
    Text.hexDigit? c = some n.val := by
  have hdigits : ∀ n : Fin 16, Text.hexDigit? (Nat.digitChar n) = some n.val ∧
      Text.hexDigit? (Nat.digitChar n).toUpper = some n.val := by
    decide
  rcases h with rfl | rfl
  · exact (hdigits n).1
  · exact (hdigits n).2

theorem readUnit_of_unitText {n : Nat} {digits : List Char} (h : UnitText n digits)
    (cs : List Char) : readUnit (digits ++ cs) = .ok (n, cs) := by
  cases h with
  | mk ha hb hc hd value =>
      show readUnit (_ :: _ :: _ :: _ :: cs) = _
      rw [readUnit]
      simp only [hexDigit?_of_isHex ha, hexDigit?_of_isHex hb, hexDigit?_of_isHex hc,
        hexDigit?_of_isHex hd, value]

theorem simpleEscape?_of_mem {c d : Char} (h : (d, c) ∈ letters) : simpleEscape? d = some c := by
  have hall : ∀ e ∈ letters, simpleEscape? e.1 = some e.2 := by decide
  exact hall _ h

theorem readEscape_letter {c d : Char} (h : (d, c) ∈ letters) (lax : Bool) (cs : List Char) :
    readEscape lax (d :: cs) = .ok (c, cs) := by
  have hu : d ≠ 'u' := by
    rintro rfl
    exact absurd (simpleEscape?_of_mem h) (by simp [simpleEscape?])
  rw [readEscape]
  · simp only [simpleEscape?_of_mem h]
  · exact hu

theorem readEscape_lax {n : Nat} {digits : List Char} (h : UnitText n digits) (cs : List Char) :
    readEscape true ('u' :: (digits ++ cs)) = .ok (Char.ofNat n, cs) := by
  rw [readEscape, if_pos rfl, readUnit_of_unitText h]
  rfl

/-- No character is a half of a pair. -/
theorem not_half (c : Char) : isTrailing c.toNat = false ∧ isLeading c.toNat = false := by
  have hc := c.valid
  simp only [UInt32.isValidChar, Nat.isValidChar] at hc
  simp only [isTrailing, isLeading, Bool.and_eq_false_iff, decide_eq_false_iff_not]
  have hnat : c.toNat = c.val.toNat := rfl
  omega

theorem readEscape_unit {c : Char} {digits : List Char} (h : UnitText c.toNat digits)
    (cs : List Char) : readEscape false ('u' :: (digits ++ cs)) = .ok (c, cs) := by
  obtain ⟨htrailing, hleading⟩ := not_half c
  rw [readEscape, if_neg Bool.false_ne_true, readUnicode, readUnit_of_unitText h]
  simp [bind, Except.bind, htrailing, hleading, Char.ofNat_toNat]

theorem readEscape_pair {c : Char} {high low : Nat} {front back : List Char}
    (leading : 0xD800 ≤ high ∧ high < 0xDC00) (trailing : 0xDC00 ≤ low ∧ low < 0xE000)
    (sum : c.toNat = 0x10000 + (high - 0xD800) * 0x400 + (low - 0xDC00))
    (hfront : UnitText high front) (hback : UnitText low back) (cs : List Char) :
    readEscape false ('u' :: (front ++ '\\' :: 'u' :: (back ++ cs))) = .ok (c, cs) := by
  have hhigh : isTrailing high = false ∧ isLeading high = true := by
    simp only [isTrailing, isLeading, Bool.and_eq_false_iff, Bool.and_eq_true,
      decide_eq_false_iff_not, decide_eq_true_iff]
    omega
  have hlow : isTrailing low = true := by
    simp only [isTrailing, Bool.and_eq_true, decide_eq_true_iff]
    omega
  rw [readEscape, if_neg Bool.false_ne_true, readUnicode, readUnit_of_unitText hfront]
  simp [bind, Except.bind, hhigh.1, hhigh.2, readUnit_of_unitText hback, hlow, ← sum,
    Char.ofNat_toNat]

/-! ## Strings -/

theorem stringBody_escape {lax : Bool} {cs rest : List Char} {c : Char}
    (h : readEscape lax cs = .ok (c, rest)) :
    stringBody lax ('\\' :: cs) = (stringBody lax rest).map fun r => (c :: r.1, r.2) := by
  rw [stringBody]
  split
  · rename_i hfault
    rw [h] at hfault
    cases hfault
  · rename_i hescape
    obtain ⟨rfl, rfl⟩ : c = _ ∧ rest = _ := by simpa [h] using hescape
    rfl

theorem stringBody_plain {lax : Bool} {c : Char} (visible : ' ' ≤ c) (quote : c ≠ '"')
    (backslash : c ≠ '\\') (cs : List Char) :
    stringBody lax (c :: cs) = (stringBody lax cs).map fun r => (c :: r.1, r.2) := by
  rw [stringBody]
  · rw [if_neg (Char.not_lt.mpr visible)]
  · exact quote
  · exact backslash

/-- A spelled character is taken off; unless the reader is lax, it is that character. -/
theorem stringBody_spelling {c : Char} {word : List Char} (h : Spelling c word) (lax : Bool)
    (cs : List Char) : ∃ read, (lax = false → read = [c]) ∧
      stringBody lax (word ++ cs) = (stringBody lax cs).map fun r => (read ++ r.1, r.2) := by
  cases h with
  | plain visible quote backslash =>
      exact ⟨[c], fun _ => rfl, stringBody_plain visible quote backslash cs⟩
  | letter h => exact ⟨[c], fun _ => rfl, stringBody_escape (readEscape_letter h lax cs)⟩
  | unit h =>
      cases lax with
      | false => exact ⟨[c], fun _ => rfl, stringBody_escape (readEscape_unit h cs)⟩
      | true => exact ⟨[_], nofun, stringBody_escape (readEscape_lax h cs)⟩
  | @pair high low front back leading trailing sum hfront hback =>
      have hassoc : '\\' :: 'u' :: (front ++ '\\' :: 'u' :: back) ++ cs =
          '\\' :: 'u' :: (front ++ '\\' :: 'u' :: (back ++ cs)) := by
        simp
      rw [hassoc]
      cases lax with
      | false =>
          exact ⟨[c], fun _ => rfl,
            stringBody_escape (readEscape_pair leading trailing sum hfront hback cs)⟩
      | true =>
          refine ⟨[Char.ofNat high, Char.ofNat low], nofun, ?_⟩
          rw [stringBody_escape (readEscape_lax hfront _),
            stringBody_escape (readEscape_lax hback cs)]
          cases stringBody true cs <;> rfl

theorem stringBody_spells {text words : List Char} (h : Spells text words) (lax : Bool)
    (rest : List Char) : ∃ read, (lax = false → read = text) ∧
      stringBody lax (words ++ '"' :: rest) = .ok (read, rest) := by
  induction h with
  | nil => exact ⟨[], fun _ => rfl, by rw [List.nil_append, stringBody]⟩
  | cons first _ ih =>
      obtain ⟨later, hlater, hrest⟩ := ih
      obtain ⟨read, hread, hfirst⟩ := stringBody_spelling first lax (_ ++ '"' :: rest)
      refine ⟨read ++ later, fun hlax => ?_, ?_⟩
      · rw [hread hlax, hlater hlax, List.singleton_append]
      · rw [List.append_assoc, hfirst, hrest]
        rfl

theorem run_readString_of_body {lax : Bool} {cs body rest : List Char}
    (h : stringBody lax cs = .ok (body, rest)) :
    (readString lax).run cs = .ok (String.ofList body, rest) := by
  rw [readString, run_bind_ok (run_get cs), h]
  rfl

theorem run_readString {text : String} {word : List Char} (h : Spells text.toList word)
    (rest : List Char) : (readString false).run (word ++ '"' :: rest) = .ok (text, rest) := by
  obtain ⟨read, hread, hbody⟩ := stringBody_spells h false rest
  rw [run_readString_of_body hbody, hread rfl, String.ofList_toList]

theorem run_skipString {text word : List Char} (h : Spells text word) (rest : List Char) :
    ∃ read, (readString true).run (word ++ '"' :: rest) = .ok (read, rest) := by
  obtain ⟨read, -, hbody⟩ := stringBody_spells h true rest
  exact ⟨_, run_readString_of_body hbody⟩

theorem run_string {text : String} {word : List Char} (h : Spells text.toList word)
    (rest : List Char) : string.run ('"' :: (word ++ '"' :: rest)) = .ok (text, rest) := by
  rw [string, run_bind_ok (run_peek_cons (by decide) _)]
  show (advance >>= fun _ => readString false).run _ = _
  rw [run_bind_ok (run_advance _ _), run_readString h]

end EmitLint.Json
