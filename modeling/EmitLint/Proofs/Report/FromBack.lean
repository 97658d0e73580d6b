/-
# In what order the edits of a fix are made

`Fix.fromBack` puts edits that begin further back in front, and leaves edits with
one start as they were listed.  Main statement: `eq_fromBack`.  The two facts
leave no choice, so a list that has both is the one that is made.  What stands
around one edit can then be told (`fromBack_middle`): the edits that are made
before it and those that are made after it, each in an order of their own.
-/
import EmitLint.Report.Fix

namespace EmitLint.Fix

variable {edits made : List TextEdit}

/-- From the back to the front. -/
abbrev Descends (made : List TextEdit) : Prop :=
  made.Pairwise fun a b => b.span.start ≤ a.span.start

theorem descent_trans (a b c : TextEdit) (hab : decide (b.span.start ≤ a.span.start) = true)
    (hbc : decide (c.span.start ≤ b.span.start) = true) :
    decide (c.span.start ≤ a.span.start) = true :=
  decide_eq_true (Nat.le_trans (of_decide_eq_true hbc) (of_decide_eq_true hab))

theorem descent_total (a b : TextEdit) :
    (decide (b.span.start ≤ a.span.start) || decide (a.span.start ≤ b.span.start)) = true := by
  rw [Bool.or_eq_true, decide_eq_true_iff, decide_eq_true_iff]
  exact Nat.le_total _ _

theorem descends_fromBack (edits : List TextEdit) : Descends (fromBack edits) :=
  (List.pairwise_mergeSort descent_trans descent_total edits).imp of_decide_eq_true

theorem fromBack_of_descends (h : Descends edits) : fromBack edits = edits :=
  List.mergeSort_of_pairwise (h.imp fun h => decide_eq_true h)

theorem replaceAll_append (text : List Char) (first last : List TextEdit) :
    replaceAll text (first ++ last) = (replaceAll text first).bind (replaceAll · last) :=
  List.foldlM_append

theorem mem_fromBack {e : TextEdit} : e ∈ fromBack edits ↔ e ∈ edits :=
  (fromBack_perm edits).mem_iff

/-! ## Edits with one start -/

/-- The edits of a list that begin at one place, in the order of the list. -/
def startingAt (pos : Nat) (edits : List TextEdit) : List TextEdit :=
  edits.filter fun e => e.span.start = pos

theorem mem_startingAt {e : TextEdit} {pos : Nat} :
    e ∈ startingAt pos edits ↔ e ∈ edits ∧ e.span.start = pos := by
  rw [startingAt, List.mem_filter, decide_eq_true_iff]

theorem startingAt_cons_of_eq {e : TextEdit} {pos : Nat} (h : e.span.start = pos) :
    startingAt pos (e :: edits) = e :: startingAt pos edits :=
  List.filter_cons_of_pos (decide_eq_true h)

theorem startingAt_cons_of_ne {e : TextEdit} {pos : Nat} (h : e.span.start ≠ pos) :
    startingAt pos (e :: edits) = startingAt pos edits :=
  List.filter_cons_of_neg fun hpos => h (of_decide_eq_true hpos)

@[simp] theorem startingAt_append (pos : Nat) (front back : List TextEdit) :
    startingAt pos (front ++ back) = startingAt pos front ++ startingAt pos back :=
  List.filter_append ..

/-- Edits with one start keep their order. -/
theorem startingAt_fromBack (pos : Nat) (edits : List TextEdit) :
    startingAt pos (fromBack edits) = startingAt pos edits := by
  have hdescends : (startingAt pos edits).Pairwise fun a b =>
      decide (b.span.start ≤ a.span.start) = true := by
    refine List.pairwise_of_forall_mem_list fun a ha b hb => decide_eq_true (Nat.le_of_eq ?_)
    rw [(mem_startingAt.mp ha).2, (mem_startingAt.mp hb).2]
  have hsub : (startingAt pos edits).Sublist (fromBack edits) :=
    List.sublist_mergeSort descent_trans descent_total hdescends List.filter_sublist
  have hthere := hsub.filter fun e => decide (e.span.start = pos)
  rw [List.filter_eq_self.mpr fun e he => decide_eq_true (mem_startingAt.mp he).2] at hthere
  have hlength := ((fromBack_perm edits).filter fun e => decide (e.span.start = pos)).length_eq
  exact (hthere.eq_of_length hlength.symm).symm

theorem mem_of_startingAt_eq {e : TextEdit} (he : e ∈ made)
    (h : startingAt e.span.start made = startingAt e.span.start edits) : e ∈ edits := by
  have hthere : e ∈ startingAt e.span.start made := mem_startingAt.mpr ⟨he, rfl⟩
  rw [h] at hthere
  exact (mem_startingAt.mp hthere).1

/-- Lists from the back to the front are told apart by what begins at some place. -/
theorem eq_of_startingAt {made' : List TextEdit} (h : Descends made) (h' : Descends made')
    (hsame : ∀ pos, startingAt pos made = startingAt pos made') : made = made' := by
  induction made generalizing made' with
  | nil =>
      cases made' with
      | nil => rfl
      | cons b made' =>
          exact absurd (mem_of_startingAt_eq List.mem_cons_self (hsame _).symm) List.not_mem_nil
  | cons a made ih =>
      cases made' with
      | nil =>
          exact absurd (mem_of_startingAt_eq List.mem_cons_self (hsame _)) List.not_mem_nil
      | cons b made' =>
          obtain ⟨ha, hmade⟩ := List.pairwise_cons.mp h
          obtain ⟨hb, hmade'⟩ := List.pairwise_cons.mp h'
          -- Both lists begin with an edit of the greatest start.
          have hba : b.span.start ≤ a.span.start := by
            rcases List.mem_cons.mp (mem_of_startingAt_eq List.mem_cons_self (hsame _).symm) with
              rfl | hmem
            · exact Nat.le_refl _
            · exact ha b hmem
          have hab : a.span.start ≤ b.span.start := by
            rcases List.mem_cons.mp (mem_of_startingAt_eq List.mem_cons_self (hsame _)) with
              rfl | hmem
            · exact Nat.le_refl _
            · exact hb a hmem
          have hstart : a.span.start = b.span.start := Nat.le_antisymm hab hba
          have hfirst := hsame a.span.start
          rw [startingAt_cons_of_eq rfl, startingAt_cons_of_eq hstart.symm] at hfirst
          obtain ⟨rfl, hrest⟩ := List.cons.inj hfirst
          congr 1
          refine ih hmade hmade' fun pos => ?_
          by_cases hpos : a.span.start = pos
          · exact hpos ▸ hrest
          · have hother := hsame pos
            rw [startingAt_cons_of_ne hpos, startingAt_cons_of_ne hpos] at hother
            exact hother

/-- No other list runs from the back to the front and keeps edits with one start in order. -/
theorem eq_fromBack (h : Descends made)
    (hsame : ∀ pos, startingAt pos made = startingAt pos edits) : fromBack edits = made := by
  refine eq_of_startingAt (descends_fromBack edits) h fun pos => ?_
  rw [startingAt_fromBack, hsame]

/-! ## Around one edit -/

section
variable (front back : List TextEdit) (s : Span)

/-- The edits that are made before one with the span `s`, which has `front` and
`back` around it in the list. -/
def madeBefore : List TextEdit :=
  fromBack (front.filter (fun e => s.start ≤ e.span.start) ++
    back.filter fun e => s.start < e.span.start)

/-- The edits that are made after it. -/
def madeAfter : List TextEdit :=
  fromBack (front.filter (fun e => e.span.start < s.start) ++
    back.filter fun e => e.span.start ≤ s.start)

variable {front back s}

theorem mem_madeBefore {e : TextEdit} : e ∈ madeBefore front back s ↔
    e ∈ front ∧ s.start ≤ e.span.start ∨ e ∈ back ∧ s.start < e.span.start := by
  rw [madeBefore, mem_fromBack, List.mem_append, List.mem_filter, List.mem_filter,
    decide_eq_true_iff, decide_eq_true_iff]

theorem mem_madeAfter {e : TextEdit} : e ∈ madeAfter front back s ↔
    e ∈ front ∧ e.span.start < s.start ∨ e ∈ back ∧ e.span.start ≤ s.start := by
  rw [madeAfter, mem_fromBack, List.mem_append, List.mem_filter, List.mem_filter,
    decide_eq_true_iff, decide_eq_true_iff]

theorem startingAt_filter (p : Nat → Bool) (pos : Nat) (edits : List TextEdit) :
    startingAt pos (edits.filter fun e => p e.span.start) =
      if p pos = true then startingAt pos edits else [] := by
  rw [startingAt, List.filter_filter]
  split
  · rename_i hpos
    refine List.filter_congr fun e _ => ?_
    by_cases he : e.span.start = pos
    · rw [he, hpos, Bool.and_true]
    · rw [decide_eq_false he, Bool.false_and]
  · rename_i hpos
    refine List.filter_eq_nil_iff.mpr fun e _ he => hpos ?_
    rw [Bool.and_eq_true, decide_eq_true_iff] at he
    exact he.1 ▸ he.2

theorem startingAt_madeBefore (pos : Nat) : startingAt pos (madeBefore front back s) =
    (if s.start ≤ pos then startingAt pos front else []) ++
      if s.start < pos then startingAt pos back else [] := by
  rw [madeBefore, startingAt_fromBack, startingAt_append,
    startingAt_filter fun n => decide (s.start ≤ n), startingAt_filter fun n => decide (s.start < n)]
  simp only [decide_eq_true_iff]

theorem startingAt_madeAfter (pos : Nat) : startingAt pos (madeAfter front back s) =
    (if pos < s.start then startingAt pos front else []) ++
      if pos ≤ s.start then startingAt pos back else [] := by
  rw [madeAfter, startingAt_fromBack, startingAt_append,
    startingAt_filter fun n => decide (n < s.start), startingAt_filter fun n => decide (n ≤ s.start)]
  simp only [decide_eq_true_iff]

/-- Edits that begin where `s` begins stand between the two. -/
theorem descends_around {between : List TextEdit}
    (h : ∀ e ∈ between, e.span.start = s.start) :
    Descends (madeBefore front back s ++ (between ++ madeAfter front back s)) := by
  have hbetween : Descends between := by
    refine List.pairwise_of_forall_mem_list ?_
    intro a ha b hb
    exact Nat.le_of_eq ((h b hb).trans (h a ha).symm)
  have hlast : ∀ a ∈ between, ∀ b ∈ madeAfter front back s, b.span.start ≤ a.span.start := by
    intro a ha b hb
    have hplace := h a ha
    have hbehind := mem_madeAfter.mp hb
    omega
  have hfirst : ∀ a ∈ madeBefore front back s, ∀ b ∈ between ++ madeAfter front back s,
      b.span.start ≤ a.span.start := by
    intro a ha b hb
    have hbefore := mem_madeBefore.mp ha
    rcases List.mem_append.mp hb with hb | hb
    · have hplace := h b hb
      omega
    · have hbehind := mem_madeAfter.mp hb
      omega
  exact List.pairwise_append.mpr ⟨descends_fromBack _,
    List.pairwise_append.mpr ⟨hbetween, descends_fromBack _, hlast⟩, hfirst⟩

/-- Edits with the start of `s` are made between those made before and those made after. -/
theorem fromBack_around (front back : List TextEdit) {between : List TextEdit}
    (h : ∀ e ∈ between, e.span.start = s.start) :
    fromBack (front ++ (between ++ back)) =
      madeBefore front back s ++ (between ++ madeAfter front back s) := by
  have hhere : startingAt s.start between = between :=
    List.filter_eq_self.mpr fun e he => decide_eq_true (h e he)
  have hthere : ∀ pos, s.start ≠ pos → startingAt pos between = [] := fun pos hpos =>
    List.filter_eq_nil_iff.mpr fun e he hat => hpos ((h e he).symm.trans (of_decide_eq_true hat))
  refine eq_fromBack (descends_around h) ?_
  intro pos
  simp only [startingAt_append, startingAt_madeBefore, startingAt_madeAfter]
  rcases Nat.lt_trichotomy pos s.start with hpos | rfl | hpos
  · simp [hthere pos (Nat.ne_of_gt hpos), hpos, Nat.not_le.mpr hpos, Nat.lt_asymm hpos,
      Nat.le_of_lt hpos]
  · simp [hhere]
  · simp [hthere pos (Nat.ne_of_lt hpos), hpos, Nat.not_le.mpr hpos, Nat.lt_asymm hpos,
      Nat.le_of_lt hpos]

/-- Without the edit the others are made in the same order. -/
theorem fromBack_append (front back : List TextEdit) (s : Span) :
    fromBack (front ++ back) = madeBefore front back s ++ madeAfter front back s :=
  fromBack_around front back fun _ he => absurd he List.not_mem_nil

/-- The edit itself is made between the two, whatever it puts in. -/
theorem fromBack_middle (front back : List TextEdit) (s : Span) (new : String) :
    fromBack (front ++ ⟨s, new⟩ :: back) =
      madeBefore front back s ++ ⟨s, new⟩ :: madeAfter front back s :=
  fromBack_around front back fun _ he => congrArg (·.span.start) (List.mem_singleton.mp he)

end
end EmitLint.Fix
