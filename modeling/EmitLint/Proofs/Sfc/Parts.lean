/-
# A file is read in parts

The scan goes through a file once.  Main statement: `reads_of_scan`.  When it
comes to an end the file falls into parts that follow one another (comments,
`<script … />` tags, elements, and perhaps a comment that is never closed), and
the ranges that were found are the elements among them.  Of the parts it is
said that each ends before the next begins (`pairwise_of_reads`), and that no
script opens outside of them (`exists_part_of_reads`).
-/
import EmitLint.Proofs.Sfc.Search

namespace EmitLint.Sfc

/-- A piece and where it begins. -/
structure Part where
  start : Nat
  piece : Piece
deriving DecidableEq, Repr

namespace Part

variable {all : List UInt8} {p : Part}

/-- Where a part of the text ends; a comment that is never closed goes on to the end. -/
def stop (all : List UInt8) (p : Part) : Nat :=
  match p.piece with
  | .openComment => all.length
  | piece => p.start + piece.length

/-- The part is what stands there, and it is neither a single byte nor without an end. -/
structure StandsIn (all : List UInt8) (p : Part) : Prop where
  stands : Stands (all.drop p.start) p.piece
  ne_text : p.piece ≠ .text
  ne_unclosed : p.piece ≠ .unclosed

/-- The part is a whole `<script …>…</script>`. -/
def isElement (p : Part) : Bool :=
  match p.piece with
  | .element .. => true
  | _ => false

/-- The range of an element. -/
def range? (all : List UInt8) (p : Part) : Option BlockRange :=
  match p.piece with
  | .element tag content =>
      some (BlockRange.ofElement (all.drop p.start) p.start tag content)
  | _ => none

end Part

/-! ## How far a piece goes -/

section
variable {bs : List UInt8} {P : List UInt8 → Prop} {n k : Nat}

theorem length_le_of_closes (h : Closes bs) : Mark.scriptEnd.length ≤ bs.length := by
  have htake : ((bs.take Mark.scriptEnd.length).map lower).length = Mark.scriptEnd.length :=
    congrArg List.length (beq_iff_eq.mp h)
  rw [List.length_map, List.length_take] at htake
  omega

theorem length_le_of_openingTag (h : OpeningTag bs n) : 0 < n ∧ n ≤ bs.length := by
  obtain ⟨-, text, rest, hbs, -, rfl⟩ := h
  have hlength := congrArg List.length hbs
  rw [List.length_drop, List.length_append, List.length_cons] at hlength
  omega

/-- What is found stands in the text. -/
theorem add_le_of_firstAt {cs : List UInt8} (hP : ∀ cs, P cs → k ≤ cs.length) (hk : 0 < k)
    (h : FirstAt P cs n) : n + k ≤ cs.length := by
  have hlength := hP _ h.1
  rw [List.length_drop] at hlength
  omega

theorem length_le_of_stands {p : Piece} (h : Stands bs p) : p.length ≤ bs.length ∨ p = .text := by
  cases h with
  | text => exact .inr rfl
  | openComment | endless | unclosed => exact .inl (Nat.zero_le _)
  | comment hcomment hfirst =>
      have hmark := hcomment.length_le
      have hbody := add_le_of_firstAt (k := Mark.commentEnd.length)
        (fun cs hcs => List.IsPrefix.length_le hcs) (by decide) hfirst
      rw [List.length_drop] at hbody
      refine .inl ?_
      rw [Piece.length]
      omega
  | external htag _ => exact .inl (length_le_of_openingTag htag).2
  | element htag _ hfirst =>
      have htagLength := (length_le_of_openingTag htag).2
      have hbody := add_le_of_firstAt (fun _ => length_le_of_closes) (by decide) hfirst
      rw [List.length_drop] at hbody
      refine .inl ?_
      rw [Piece.length]
      omega

end

namespace Part

variable {all : List UInt8} {p : Part}

theorem start_le_length (h : Stands (all.drop p.start) p.piece) (hne : p.piece ≠ .text) :
    p.start ≤ all.length := by
  by_contra hlt
  rw [List.drop_eq_nil_of_le (by omega)] at h
  have hfront := Piece.front_eq_iff.mpr h
  exact hne (hfront.symm.trans (by decide))

theorem start_le_stop (h : p.StandsIn all) : p.start ≤ p.stop all := by
  have hstart := start_le_length h.stands h.ne_text
  unfold stop
  split
  · exact hstart
  · exact Nat.le_add_right _ _

theorem stop_le_length (h : p.StandsIn all) : p.stop all ≤ all.length := by
  have hstart := start_le_length h.stands h.ne_text
  have hlength := (length_le_of_stands h.stands).resolve_right h.ne_text
  rw [List.length_drop] at hlength
  unfold stop
  split
  · exact Nat.le_refl _
  · omega

end Part

/-! ## From part to part -/

/-- The text from `pos` on falls into these parts, and no script opens between them. -/
inductive Reads (all : List UInt8) : Nat → List Part → Prop
  | done {pos : Nat} : all.length ≤ pos → Reads all pos []
  | byte {pos : Nat} {parts : List Part} :
      isScriptOpen (all.drop pos) = false → Reads all (pos + 1) parts → Reads all pos parts
  | part {p : Part} {parts : List Part} :
      p.StandsIn all → Reads all (p.stop all) parts → Reads all p.start (p :: parts)

section
variable {all bs : List UInt8} {pos : Nat} {parts : List Part}

theorem standsIn_of_reads (h : Reads all pos parts) : ∀ p ∈ parts, p.StandsIn all := by
  induction h with
  | done _ => exact fun p hp => absurd hp List.not_mem_nil
  | byte _ _ ih => exact ih
  | part hp _ ih => exact List.forall_mem_cons.mpr ⟨hp, ih⟩

theorem le_start_of_reads (h : Reads all pos parts) : ∀ p ∈ parts, pos ≤ p.start := by
  induction h with
  | done _ => exact fun p hp => absurd hp List.not_mem_nil
  | byte _ _ ih => exact fun p hp => Nat.le_of_succ_le (ih p hp)
  | part hp _ ih =>
      refine List.forall_mem_cons.mpr ⟨Nat.le_refl _, fun q hq => ?_⟩
      exact Nat.le_trans (Part.start_le_stop hp) (ih q hq)

/-- Each part ends before the next one begins. -/
theorem pairwise_of_reads (h : Reads all pos parts) :
    parts.Pairwise fun p q => p.stop all ≤ q.start := by
  induction h with
  | done _ => exact .nil
  | byte _ _ ih => exact ih
  | part _ hrest ih => exact .cons (le_start_of_reads hrest) ih

/-- Where a script opens there is a part. -/
theorem exists_part_of_reads (h : Reads all pos parts) {i : Nat} (hi : pos ≤ i)
    (hopen : isScriptOpen (all.drop i) = true) :
    ∃ p ∈ parts, p.start ≤ i ∧ i < p.stop all := by
  induction h with
  | done hend =>
      rw [List.drop_eq_nil_of_le (Nat.le_trans hend hi)] at hopen
      cases hopen
  | byte hclosed _ ih =>
      rcases Nat.eq_or_lt_of_le hi with rfl | hlt
      · rw [hclosed] at hopen
        cases hopen
      · exact ih hlt
  | @part p parts _ _ ih =>
      by_cases hinside : i < p.stop all
      · exact ⟨p, List.mem_cons_self, hi, hinside⟩
      · obtain ⟨q, hq, hqi⟩ := ih (Nat.le_of_not_lt hinside)
        exact ⟨q, List.mem_cons_of_mem _ hq, hqi⟩

end

/-! ## The scan -/

section
variable {all bs : List UInt8} {pos : Nat} {found ranges : List BlockRange}

/-- What is found at the front is a part of its own. -/
theorem reads_of_front {p : Piece} {parts : List Part} (hbs : bs = all.drop pos)
    (hp : Piece.front bs = p) (htext : p ≠ .text) (hunclosed : p ≠ .unclosed)
    (hrest : Reads all (Part.stop all ⟨pos, p⟩) parts) : Reads all pos (⟨pos, p⟩ :: parts) := by
  have hstands : Stands (all.drop pos) p := hbs ▸ Piece.front_eq_iff.mp hp
  exact .part ⟨hstands, htext, hunclosed⟩ hrest

/-- The ranges that the scan adds are the elements among the parts of the text. -/
theorem reads_of_scan (hbs : bs = all.drop pos) (h : scan pos bs found = .ok ranges) :
    ∃ parts, Reads all pos parts ∧ ranges = found ++ parts.filterMap (Part.range? all) := by
  have hdrop : ∀ n, bs.drop n = all.drop (pos + n) := by
    intro n
    rw [hbs, List.drop_drop]
  fun_induction scan pos bs found with
  | case1 pos found =>
      obtain rfl := Except.ok.inj h
      exact ⟨[], .done (List.drop_eq_nil_iff.mp hbs.symm), (List.append_nil _).symm⟩
  | case2 pos bs found _ hp =>
      obtain rfl := Except.ok.inj h
      refine ⟨_, reads_of_front hbs hp (by decide) (by decide) (.done (Nat.le_refl _)), ?_⟩
      exact (List.append_nil _).symm
  | case3 | case4 => cases h
  | case5 pos bs found _ tag content hp block _ n ih =>
      have hrest := ih (hdrop n) h fun m => by rw [hdrop n, List.drop_drop]
      obtain ⟨parts, hreads, rfl⟩ := hrest
      refine ⟨_, reads_of_front hbs hp (by simp) (by simp) hreads, ?_⟩
      have hrange : Part.range? all ⟨pos, .element tag content⟩ = some block := by
        rw [Part.range?, ← hbs]
      rw [List.filterMap_cons_some hrange, List.append_assoc]
      rfl
  | case6 pos bs found _ n hp ih | case7 pos bs found _ n hp ih =>
      have hrest := ih (hdrop n) h fun m => by rw [hdrop n, List.drop_drop]
      obtain ⟨parts, hreads, rfl⟩ := hrest
      exact ⟨_, reads_of_front hbs hp (by simp) (by simp) hreads, rfl⟩
  | case8 pos bs found _ hp ih =>
      have hrest := ih (hdrop 1) h fun m => by rw [hdrop 1, List.drop_drop]
      obtain ⟨parts, hreads, rfl⟩ := hrest
      cases Piece.front_eq_iff.mp hp with
      | text _ hclosed => exact ⟨parts, .byte (hbs ▸ hclosed) hreads, rfl⟩

end
end EmitLint.Sfc
