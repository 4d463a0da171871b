import Mathlib.Data.BitVec

-- Machine arithmetic that reports or clamps what does not fit.

namespace BitVec

variable {w : Nat} {a b c : BitVec w}

def checkedAdd (a b : BitVec w) : Option (BitVec w) :=
  if a.toNat + b.toNat < 2 ^ w then some (a + b) else none

-- The sum with the length of a list.
def checkedAddNat (a : BitVec w) (n : Nat) : Option (BitVec w) :=
  if a.toNat + n < 2 ^ w then some (a + BitVec.ofNat w n) else none

def checkedSub (a b : BitVec w) : Option (BitVec w) :=
  if b.toNat ≤ a.toNat then some (a - b) else none

def saturatingAdd (a b : BitVec w) : BitVec w :=
  BitVec.ofNat w (min (a.toNat + b.toNat) (2 ^ w - 1))

theorem checkedAdd_eq_some : a.checkedAdd b = some c ↔ a.toNat + b.toNat = c.toNat := by
  have := c.isLt
  unfold checkedAdd
  split
  case isTrue h =>
    rw [Option.some_inj, ← toNat_inj, toNat_add, Nat.mod_eq_of_lt h]
  case isFalse => simp only [reduceCtorEq, false_iff]; omega

theorem checkedAdd_eq_none : a.checkedAdd b = none ↔ 2 ^ w ≤ a.toNat + b.toNat := by
  unfold checkedAdd
  split <;> simp only [reduceCtorEq, true_iff, false_iff] <;> omega

theorem checkedAddNat_eq_some : a.checkedAddNat n = some c ↔ a.toNat + n = c.toNat := by
  have := c.isLt
  unfold checkedAddNat
  split
  case isTrue h =>
    rw [Option.some_inj, ← toNat_inj, toNat_add, toNat_ofNat, Nat.add_mod_mod, Nat.mod_eq_of_lt h]
  case isFalse => simp only [reduceCtorEq, false_iff]; omega

theorem checkedAddNat_eq_none : a.checkedAddNat n = none ↔ 2 ^ w ≤ a.toNat + n := by
  unfold checkedAddNat
  split <;> simp only [reduceCtorEq, true_iff, false_iff] <;> omega

theorem checkedSub_eq_some : a.checkedSub b = some c ↔ b.toNat + c.toNat = a.toNat := by
  have := a.isLt
  have := b.isLt
  unfold checkedSub
  split
  case isTrue h =>
    rw [Option.some_inj, ← toNat_inj, toNat_sub_of_le (le_def.mpr h)]
    omega
  case isFalse => simp only [reduceCtorEq, false_iff]; omega

theorem toNat_saturatingAdd :
    (a.saturatingAdd b).toNat = min (a.toNat + b.toNat) (2 ^ w - 1) := by
  have : 0 < 2 ^ w := Nat.two_pow_pos w
  rw [saturatingAdd, toNat_ofNat, Nat.mod_eq_of_lt]
  omega

end BitVec
