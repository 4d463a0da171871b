import Prisma.X86.Shift

-- When two counts give the same result.

namespace Prisma.X86.ShiftKind

-- The result when every bit is shifted out.
def out (kind : ShiftKind) {w : Nat} (x : BitVec w) : BitVec w :=
  match kind with
  | shl | shr => 0
  | sar => if x.msb then .allOnes w else 0

variable {w a b : Nat}

theorem apply_add (kind : ShiftKind) (x : BitVec w) (a b : Nat) :
    kind.apply x (a + b) = kind.apply (kind.apply x a) b := by
  cases kind with
  | shl => exact BitVec.shiftLeft_add ..
  | shr => exact BitVec.shiftRight_add ..
  | sar => exact BitVec.sshiftRight_add

theorem apply_of_le (kind : ShiftKind) (x : BitVec w) (h : w ≤ a) :
    kind.apply x a = kind.out x := by
  cases kind with
  | shl => exact BitVec.shiftLeft_eq_zero h
  | shr => exact BitVec.ushiftRight_eq_zero h
  | sar =>
    apply BitVec.eq_of_getLsbD_eq
    intro i hi
    simp only [apply, out, BitVec.getLsbD_sshiftRight, show ¬a + i < w by omega]
    cases x.msb <;> simp [hi]

variable (kind : ShiftKind) (x : BitVec w)

-- A result that a further shift leaves alone is left alone by the shift of every bit.
theorem apply_eq_iff_of_lt (h : a < b) :
    kind.apply x a = kind.apply x b ↔ kind.apply x a = kind.out x := by
  obtain ⟨d, rfl⟩ := Nat.exists_eq_add_of_lt h
  constructor
  · intro h
    have hn (n : Nat) : kind.apply x a = kind.apply x (a + n * (d + 1)) := by
      induction n with
      | zero => rw [Nat.zero_mul, Nat.add_zero]
      | succ n hi =>
        rw [Nat.succ_mul, ← Nat.add_assoc, apply_add, ← hi, ← apply_add, ← Nat.add_assoc, ← h]
    rw [hn w, apply_of_le]
    exact Nat.le_add_left_of_le (Nat.le_mul_of_pos_right w d.succ_pos)
  · intro h
    have hw : kind.apply x a = kind.apply x w := by rw [h, apply_of_le kind x (Nat.le_refl w)]
    rw [Nat.add_assoc, apply_add, hw, ← apply_add, apply_of_le kind x (Nat.le_refl w),
      apply_of_le kind x (Nat.le_add_right ..)]

-- Different counts give the same result only if the lower one shifts everything out.
theorem apply_eq_iff (a b : Nat) :
    kind.apply x a = kind.apply x b ↔ a = b ∨ kind.apply x (min a b) = kind.out x := by
  obtain hlt | rfl | hlt := Nat.lt_trichotomy a b
  · rw [Nat.min_eq_left hlt.le, or_iff_right hlt.ne, apply_eq_iff_of_lt _ _ hlt]
  · exact iff_of_true rfl (.inl rfl)
  · rw [Nat.min_eq_right hlt.le, or_iff_right hlt.ne', eq_comm, apply_eq_iff_of_lt _ _ hlt]

theorem apply_eq_self_iff (n : Nat) : kind.apply x n = x ↔ n = 0 ∨ x = kind.out x := by
  have hzero : kind.apply x 0 = x := by cases kind <;> simp [apply]
  have h := kind.apply_eq_iff x n 0
  rwa [Nat.min_zero, hzero] at h

end Prisma.X86.ShiftKind
