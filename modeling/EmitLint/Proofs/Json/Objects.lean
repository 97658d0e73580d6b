/-
# An object is folded over its members

An object is read by a step for each member, which is given the name and reads
the value.  Main statement: `run_object`.  If each step reads the text of a
member as `take` takes the member itself, the object is read as `take` folds
the list of its members, from whichever text the members are written in.
-/
import EmitLint.Proofs.Json.Skipping

namespace EmitLint.Json

/-! ## Between members -/

/-- Behind this text the name of a member is expected, after white space. -/
def Leads (first : Bool) (lead : List Char) : Prop :=
  ∀ front, IsBlanks front → ∀ cs,
    (nextMember first).run (lead ++ (front ++ '"' :: cs)) = .ok (true, cs)

section

variable {front back : List Char}

theorem leads_nil : Leads true [] := by
  intro front h cs
  rw [List.nil_append, nextMember, run_bind_ok (run_peek h (by decide) _)]
  show (peek >>= _ : Reader Bool).run _ = _
  rw [run_bind_ok (run_peek_cons (by decide) _)]
  rfl

theorem leads_comma (hback : IsBlanks back) : Leads false (back ++ [',']) := by
  intro front hfront cs
  rw [List.append_assoc, List.singleton_append, nextMember,
    run_bind_ok (run_peek hback (by decide) _)]
  show (advance >>= fun _ => peek >>= _ : Reader Bool).run _ = _
  rw [run_bind_ok (run_advance _ _), run_bind_ok (run_peek hfront (by decide) _)]
  rfl

theorem run_nextMember_end (first : Bool) (h : IsBlanks front) (rest : List Char) :
    (nextMember first).run (front ++ '}' :: rest) = .ok (false, '}' :: rest) := by
  rw [nextMember, run_bind_ok (run_peek h (by decide) _)]
  rfl

end

/-! ## All members -/

section

variable {σ : Type} {member : σ → String → Reader σ} {take : σ → String × Value → Option σ}
  {first : Bool} {state state' : σ} {front lead cs rest : List Char} {fuel : Nat}

/-- A step reads every text of a member as `take` takes the member. -/
def Reads (member : σ → String → Reader σ) (take : σ → String × Value → Option σ) : Prop :=
  ∀ (state : σ) (name : String) (v : Value) (state' : σ), take state (name, v) = some state' →
    ∀ front back text rest, IsBlanks front → IsBlanks back → Writing v text → Ends rest →
      (member state name).run (front ++ ':' :: (back ++ (text ++ rest))) = .ok (state', rest)

theorem run_members_end (first : Bool) (state : σ) (h : IsBlanks front) (rest : List Char) :
    (members member (fuel + 1) first state).run (front ++ '}' :: rest) = .ok (state, rest) := by
  rw [members, run_bind_ok (run_nextMember_end first h rest)]
  rfl

/-- One member is read, and the others are left. -/
theorem run_members_step (hreads : Reads member take) (hlead : Leads first lead)
    (hfront : IsBlanks front) {m : String × Value} {text : List Char}
    (h : MemberText Writing m text) (htake : take state m = some state') (hrest : Ends rest) :
    (members member (fuel + 1) first state).run (lead ++ (front ++ (text ++ rest))) =
      (members member fuel false state').run rest := by
  obtain @⟨name, v, word, before, behind, text, hname, hbefore, hbehind, h⟩ := h
  simp only [List.cons_append, List.append_assoc]
  rw [members, run_bind_ok (hlead front hfront _)]
  show (readString false >>= fun name => member state name >>= fun state =>
    members member fuel false state).run _ = _
  rw [run_bind_ok (run_readString hname _),
    run_bind_ok (hreads _ _ _ _ htake _ _ _ _ hbefore hbehind h hrest)]

/-- The members are taken from the left, each with a unit of fuel. -/
theorem run_members (hreads : Reads member take) {m : String × Value}
    {ms : List (String × Value)} (h : Listing (MemberText Writing) (m :: ms) cs)
    (hlead : Leads first lead) (hfold : (m :: ms).foldlM take state = some state')
    (hfuel : cs.length < fuel) :
    (members member fuel first state).run (lead ++ (cs ++ '}' :: rest)) = .ok (state', rest) := by
  induction fuel generalizing m ms cs lead first state with
  | zero => omega
  | succ fuel ih =>
      obtain ⟨next, hnext, hlater⟩ : ∃ next, take state m = some next ∧
          ms.foldlM take next = some state' := by
        simpa only [List.foldlM_cons, Option.bind_eq_bind, Option.bind_eq_some_iff] using hfold
      cases h with
      | @last _ front text back hfront h hback =>
          obtain ⟨c, tail, rfl, -⟩ := opens_memberText h
          simp only [List.length_append, List.length_cons] at hfuel
          -- One more unit is for the brace behind the last member.
          obtain ⟨fuel, rfl⟩ : ∃ n, fuel = n + 1 := ⟨fuel - 1, by omega⟩
          obtain rfl : next = state' := by simpa using hlater
          have hrest : Ends (back ++ '}' :: rest) := ends_blanks hback (ends_cons (by decide))
          rw [List.append_assoc, List.append_assoc,
            run_members_step hreads hlead hfront h hnext hrest, run_members_end false next hback]
      | @more _ w _ front text back more hfront h hback hmore =>
          simp only [List.length_append, List.length_cons] at hfuel
          have hrest : Ends (back ++ ',' :: (more ++ '}' :: rest)) :=
            ends_blanks hback (ends_cons (by decide))
          have hlater := ih hmore (leads_comma hback) hlater (by omega)
          rw [List.append_assoc, List.singleton_append] at hlater
          simp only [List.append_assoc, List.cons_append]
          rw [run_members_step hreads hlead hfront h hnext hrest, hlater]

theorem run_object (hreads : Reads member take) {ms : List (String × Value)}
    (hfront : IsBlanks front) (h : Writing (.object ms) cs)
    (hfold : ms.foldlM take state = some state') :
    (object member state).run (front ++ (cs ++ rest)) = .ok (state', rest) := by
  cases h with
  | @object _ cs h =>
      rw [List.cons_append, List.append_assoc, List.singleton_append, object,
        run_bind_ok (run_peek hfront (by decide) _)]
      show (advance >>= fun _ => get >>= fun cs =>
        members member (cs.length + 1) true state).run _ = _
      rw [run_bind_ok (run_advance _ _), run_bind_ok (run_get _)]
      cases ms with
      | nil =>
          obtain ⟨hblanks⟩ := h
          obtain rfl : state = state' := by simpa using hfold
          exact run_members_end true state hblanks rest
      | cons m ms =>
          refine run_members hreads h leads_nil hfold ?_
          simp only [List.length_append]
          omega

end

end EmitLint.Json
