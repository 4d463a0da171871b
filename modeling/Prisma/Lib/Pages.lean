import Prisma.Lib.Bits

-- Pages whose size is a power of two: the base of an address, and which addresses share a page.

namespace Pages

variable {w k : Nat} {x y size size' : BitVec w}

def base (size x : BitVec w) : BitVec w :=
  x &&& ~~~(size - 1)

variable (h : size.toNat = 2 ^ k)

include h

theorem toNat_base : (base size x).toNat = x.toNat / 2 ^ k * 2 ^ k := by
  have hk : 2 ^ k < 2 ^ w := h ▸ size.isLt
  have hw : 0 < w := by
    by_contra hw
    have := Nat.two_pow_pos k
    rw [Nat.eq_zero_of_not_pos hw] at hk
    omega
  have hone : (1 : BitVec w).toNat = 1 := Nat.mod_eq_of_lt (Nat.one_lt_two_pow hw.ne')
  have hsize : size - 1 = (BitVec.allOnes k).setWidth w := by
    apply BitVec.eq_of_toNat_eq
    have := Nat.two_pow_pos k
    rw [BitVec.toNat_sub_of_le (BitVec.le_def.mpr (by rw [hone, h]; omega)), hone, h,
      BitVec.toNat_setWidth, BitVec.toNat_allOnes, Nat.mod_eq_of_lt (by omega)]
  have hle := Nat.div_mul_le_self x.toNat (2 ^ k)
  rw [base, hsize, Bits.and_not_low, BitVec.toNat_shiftLeft, BitVec.toNat_ushiftRight,
    Nat.shiftLeft_eq, Nat.shiftRight_eq_div_pow, Nat.mod_eq_of_lt (by omega)]

theorem base_eq_iff :
    base size x = base size y ↔ x.toNat / 2 ^ k = y.toNat / 2 ^ k := by
  rw [← BitVec.toNat_inj, toNat_base h, toNat_base h, Nat.mul_left_inj (Nat.two_pow_pos k).ne']

theorem base_base : base size (base size x) = base size x := by
  rw [base_eq_iff h, toNat_base h, Nat.mul_div_cancel _ (Nat.two_pow_pos k)]

theorem sub_base_lt_iff :
    x - base size y < size ↔ base size x = base size y := by
  rw [base_eq_iff h, BitVec.lt_def, h]
  have hb := toNat_base (x := y) h
  have hx := Nat.div_add_mod' x.toNat (2 ^ k)
  have hlt := Nat.mod_lt x.toNat (Nat.two_pow_pos k)
  rcases lt_trichotomy (x.toNat / 2 ^ k) (y.toNat / 2 ^ k) with hq | hq | hq
  · -- The difference wraps, and the page of `y` does not end behind the last address.
    have hmul := Nat.mul_le_mul_right (2 ^ k) (Nat.succ_le_of_lt hq)
    rw [Nat.succ_mul] at hmul
    have hend : (base size y).toNat + 2 ^ k ≤ 2 ^ w := by
      have hk : k ≤ w := (Nat.pow_lt_pow_iff_right (by omega)).mp (h ▸ size.isLt) |>.le
      have hd : y.toNat / 2 ^ k < 2 ^ (w - k) := by
        rw [Nat.div_lt_iff_lt_mul (Nat.two_pow_pos k), ← Nat.pow_add, Nat.sub_add_cancel hk]
        exact y.isLt
      have := Nat.mul_le_mul_right (2 ^ k) (Nat.succ_le_of_lt hd)
      rwa [← Nat.pow_add, Nat.sub_add_cancel hk, Nat.succ_mul, ← hb] at this
    have hsub : x < base size y := by
      rw [BitVec.lt_def]
      omega
    rw [BitVec.toNat_sub_of_lt hsub]
    omega
  · have hsub : base size y ≤ x := by
      rw [BitVec.le_def, hb, ← hq]
      omega
    rw [BitVec.toNat_sub_of_le hsub, hb, ← hq]
    omega
  · have hmul := Nat.mul_le_mul_right (2 ^ k) (Nat.succ_le_of_lt hq)
    rw [Nat.succ_mul] at hmul
    have hsub : base size y ≤ x := by
      rw [BitVec.le_def]
      omega
    rw [BitVec.toNat_sub_of_le hsub]
    omega

theorem base_of_base {k' : Nat} (h' : size'.toNat = 2 ^ k') (hk : k ≤ k') :
    base size' (base size x) = base size' x := by
  rw [base_eq_iff h', toNat_base h, ← Nat.sub_add_cancel hk, Nat.pow_add', ← Nat.div_div_eq_div_mul,
    Nat.mul_div_cancel _ (Nat.two_pow_pos k), Nat.div_div_eq_div_mul]

theorem round_up {k' : Nat} (h' : size'.toNat = 2 ^ k') (hk : k ≤ k') :
    base size' (size + (size' - 1)) = size' := by
  have hle : 2 ^ k ≤ 2 ^ k' := Nat.pow_le_pow_right (by omega) hk
  have hpos := Nat.two_pow_pos k
  have hlt : 2 ^ k' < 2 ^ w := h' ▸ size'.isLt
  have hdouble : 2 ^ k' + 2 ^ k' ≤ 2 ^ w := by
    have := (Nat.pow_lt_pow_iff_right (a := 2) (by omega)).mp hlt
    rw [← Nat.two_mul, ← Nat.pow_succ']
    exact Nat.pow_le_pow_right (by omega) this
  have hone : (1 : BitVec w).toNat = 1 := Nat.mod_eq_of_lt (show 1 < 2 ^ w by omega)
  have hsub : (size' - 1).toNat = 2 ^ k' - 1 := by
    rw [BitVec.toNat_sub_of_le (BitVec.le_def.mpr (by omega)), hone, h']
  have hsum : (size + (size' - 1)).toNat = 2 ^ k + (2 ^ k' - 1) := by
    rw [BitVec.toNat_add, hsub, h, Nat.mod_eq_of_lt (by omega)]
  have hdiv : (2 ^ k + (2 ^ k' - 1)) / 2 ^ k' = 1 := Nat.div_eq_of_lt_le (by omega) (by omega)
  rw [← BitVec.toNat_inj, toNat_base h', hsum, hdiv, h', Nat.one_mul]

end Pages
