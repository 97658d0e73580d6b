/-
# Spans

A half-open range of byte offsets into the text at hand.  `shift` carries a
span of a part of a file to the whole file.
-/

namespace EmitLint

/-- The bytes from `start` up to, not including, `stop`. -/
structure Span where
  start : Nat
  stop : Nat
deriving DecidableEq, Repr, Inhabited

namespace Span

/-- The span seen from a text in which `offset` bytes stand in front. -/
def shift (s : Span) (offset : Nat) : Span := ⟨s.start + offset, s.stop + offset⟩

/-- One span lies inside the other. -/
def Within (inner outer : Span) : Prop :=
  outer.start ≤ inner.start ∧ inner.start ≤ inner.stop ∧ inner.stop ≤ outer.stop

instance (inner outer : Span) : Decidable (Within inner outer) :=
  inferInstanceAs (Decidable (_ ∧ _ ∧ _))

@[simp] theorem shift_zero (s : Span) : s.shift 0 = s := rfl

theorem shift_shift (s : Span) (m n : Nat) : (s.shift m).shift n = s.shift (m + n) := by
  simp [shift, Nat.add_assoc]

end Span
end EmitLint
