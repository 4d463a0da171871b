import Prisma.Passes.ConstProp
import Prisma.Interp.Theorems.Arith
import Prisma.Interp.Theorems.Block

namespace Prisma.ConstProp

open Machine BitVec Bits

-- The operand values on which the folder's 64-bit arithmetic and the arithmetic of the operand size
-- agree on the bits of that size. Additions, products, bitwise operations and left shifts always
-- agree. The other kinds read operand bits above the size, and `SMulHi` also ignores the signs.
def FoldExact (op : BinOpKind) (a b : U64) (size : OpSize) : Prop :=
  let w := size.bitWidth
  let n := b.toNat % 64
  match op with
  | .shr => ∀ k < w + n, w ≤ k → n ≤ k → a.getLsbD k = false
  | .sar => ∀ i < w, a.getLsbD (min (i + n) 63) = a.getLsbD (min (i + n) (w - 1))
  | .rol => ∀ i < w, a.getLsbD ((i + 64 - n) % 64) = a.getLsbD ((i + w - n % w) % w)
  | .ror => ∀ i < w, a.getLsbD ((i + n) % 64) = a.getLsbD ((i + n) % w)
  | .uMulHi => a.toNat * b.toNat / 2 ^ 64 % 2 ^ w = (a.toNat % 2 ^ w) * (b.toNat % 2 ^ w) / 2 ^ w
  | .sMulHi =>
    (a.toNat * b.toNat / 2 ^ 64 : Int) % 2 ^ w =
      (a.setWidth w).toInt * (b.setWidth w).toInt / 2 ^ w % 2 ^ w
  | .uDiv => a.toNat / b.toNat % 2 ^ w = (a.toNat % 2 ^ w) / (b.toNat % 2 ^ w)
  | .uMod => a.toNat % b.toNat % 2 ^ w = (a.toNat % 2 ^ w) % (b.toNat % 2 ^ w)
  | .sDiv =>
    a.toInt.tdiv b.toInt % 2 ^ w = (a.setWidth w).toInt.tdiv (b.setWidth w).toInt % 2 ^ w
  | .sMod =>
    a.toInt.tmod b.toInt % 2 ^ w = (a.setWidth w).toInt.tmod (b.setWidth w).toInt % 2 ^ w
  | _ => True

instance FoldExact.decidable (op : BinOpKind) (a b : U64) (size : OpSize) :
    Decidable (FoldExact op a b size) := by
  cases op <;> dsimp only [FoldExact] <;> infer_instance

section FoldExact

variable {a b : U64} {size : OpSize}

theorem count_eq : (b &&& 0x3f).toNat = b.toNat % 64 :=
  (toNat_and b 63).trans (Nat.and_two_pow_sub_one_eq_mod b.toNat 6)

theorem toNat_setWidth_mod :
    (b.setWidth size.bitWidth).toNat % size.bitWidth = b.toNat % 64 % size.bitWidth := by
  have h : size.bitWidth ∣ 2 ^ size.bitWidth := by cases size <;> decide
  rw [toNat_setWidth, Nat.mod_mod_of_dvd _ h, Nat.mod_mod_of_dvd _ size.bitWidth_dvd]

theorem toNat_setWidth_mod_64 : (b.setWidth size.bitWidth).toNat % 64 = b.toNat % 64 := by
  have h : 64 ∣ 2 ^ size.bitWidth := by cases size <;> decide
  rw [toNat_setWidth, Nat.mod_mod_of_dvd _ h]

theorem shr_iff (n : Nat) :
    (a >>> n).setWidth size.bitWidth = a.setWidth size.bitWidth >>> n ↔
      ∀ k < size.bitWidth + n, size.bitWidth ≤ k → n ≤ k → a.getLsbD k = false := by
  constructor
  case mp =>
    intro h k hk hw hn
    have h := congrArg (·.getLsbD (k - n)) h
    simp [Nat.add_sub_cancel' hn, Nat.not_lt.mpr hw, show k - n < size.bitWidth by omega] at h
    exact h
  case mpr =>
    intro h
    apply eq_of_getLsbD_eq
    intro i hi
    have h := h (n + i) (by omega)
    by_cases hw : n + i < size.bitWidth
    case pos => simp [hi, hw]
    case neg => simp [hi, hw, h (by omega) (by omega)]

theorem sar_iff (n : Nat) :
    (a.sshiftRight n).setWidth size.bitWidth = (a.setWidth size.bitWidth).sshiftRight n ↔
      ∀ i < size.bitWidth,
        a.getLsbD (min (i + n) 63) = a.getLsbD (min (i + n) (size.bitWidth - 1)) := by
  have hw := size.bitWidth_le
  rw [eq_iff_getLsbD]
  apply forall₂_congr
  intro i hi
  have hm : min (i + n) (size.bitWidth - 1) < size.bitWidth := by omega
  rw [getLsbD_setWidth, getLsbD_sshiftRight_eq (by omega),
    getLsbD_sshiftRight_eq hi, getLsbD_setWidth]
  simp only [hi, hm, decide_true, Bool.true_and]

theorem rol_eq : evalBinop.value .rol a b = a.rotateLeft (b.toNat % 64) := by
  simp only [evalBinop.value, count_eq]
  split
  case isTrue h => rw [h, rotateLeft_zero]
  case isFalse => rfl

theorem ror_eq : evalBinop.value .ror a b = a.rotateRight (b.toNat % 64) := by
  simp only [evalBinop.value, count_eq]
  split
  case isTrue h => rw [h, rotateRight_zero]
  case isFalse => rfl

theorem rol_iff :
    (a.rotateLeft (b.toNat % 64)).setWidth size.bitWidth =
      (a.setWidth size.bitWidth).rotateLeft (b.setWidth size.bitWidth).toNat ↔
      ∀ i < size.bitWidth, a.getLsbD ((i + 64 - b.toNat % 64) % 64) =
        a.getLsbD ((i + size.bitWidth - b.toNat % 64 % size.bitWidth) % size.bitWidth) := by
  have hw := size.bitWidth_le
  rw [eq_iff_getLsbD]
  apply forall₂_congr
  intro i hi
  have hm : ∀ k, k % size.bitWidth < size.bitWidth := fun k => Nat.mod_lt _ size.bitWidth_pos
  rw [getLsbD_setWidth, getLsbD_rotateLeft_eq (by omega),
    getLsbD_rotateLeft_eq hi, getLsbD_setWidth, toNat_setWidth_mod, Nat.mod_mod]
  simp only [hi, hm, decide_true, Bool.true_and]

theorem ror_iff :
    (a.rotateRight (b.toNat % 64)).setWidth size.bitWidth =
      (a.setWidth size.bitWidth).rotateRight (b.setWidth size.bitWidth).toNat ↔
      ∀ i < size.bitWidth, a.getLsbD ((i + b.toNat % 64) % 64) =
        a.getLsbD ((i + b.toNat % 64) % size.bitWidth) := by
  have hw := size.bitWidth_le
  rw [eq_iff_getLsbD]
  apply forall₂_congr
  intro i hi
  have hm : ∀ k, k % size.bitWidth < size.bitWidth := fun k => Nat.mod_lt _ size.bitWidth_pos
  rw [getLsbD_setWidth, getLsbD_rotateRight_eq (by omega),
    getLsbD_rotateRight_eq hi, getLsbD_setWidth, Nat.add_mod i (BitVec.toNat _),
    toNat_setWidth_mod, ← Nat.add_mod]
  simp only [hi, hm, decide_true, Bool.true_and]

theorem toNat_mulHi :
    (((a.setWidth 128 * b.setWidth 128) >>> 64).setWidth 64).toNat = a.toNat * b.toNat / 2 ^ 64 := by
  have ha := a.isLt
  have hb := b.isLt
  have hp : a.toNat * b.toNat < 2 ^ 64 * 2 ^ 64 := Nat.mul_lt_mul'' ha hb
  have hd : a.toNat * b.toNat / 2 ^ 64 < 2 ^ 64 := Nat.div_lt_of_lt_mul hp
  simp only [toNat_setWidth, toNat_ushiftRight, toNat_mul,
    Nat.shiftRight_eq_div_pow]
  rw [Nat.mod_eq_of_lt (a := a.toNat) (by omega), Nat.mod_eq_of_lt (a := b.toNat) (by omega),
    Nat.mod_eq_of_lt (a := a.toNat * b.toNat) (by omega), Nat.mod_eq_of_lt hd]

theorem uMulHi_iff :
    (((a.setWidth 128 * b.setWidth 128) >>> 64).setWidth 64).setWidth size.bitWidth =
      BitVec.ofNat size.bitWidth ((a.setWidth size.bitWidth).toNat *
        (b.setWidth size.bitWidth).toNat / 2 ^ size.bitWidth) ↔
      FoldExact .uMulHi a b size := by
  have hw : 0 < 2 ^ size.bitWidth := by positivity
  have hp : (a.toNat % 2 ^ size.bitWidth) * (b.toNat % 2 ^ size.bitWidth) / 2 ^ size.bitWidth <
      2 ^ size.bitWidth :=
    Nat.div_lt_of_lt_mul (Nat.mul_lt_mul'' (Nat.mod_lt _ hw) (Nat.mod_lt _ hw))
  rw [← toNat_inj, toNat_setWidth, toNat_mulHi, toNat_ofNat,
    toNat_setWidth, toNat_setWidth, Nat.mod_eq_of_lt hp]
  rfl

theorem sshiftRight_mulHi :
    ((a.setWidth 128 * b.setWidth 128).sshiftRight 64).setWidth 64 =
      ((a.setWidth 128 * b.setWidth 128) >>> 64).setWidth 64 := by
  apply eq_of_getLsbD_eq
  intro i hi
  have h₁ : 64 + i < 128 := by omega
  have h₂ : ¬128 ≤ i := by omega
  simp [getLsbD_sshiftRight, h₁, h₂]

theorem sMulHi_iff :
    (((a.setWidth 128 * b.setWidth 128).sshiftRight 64).setWidth 64).setWidth size.bitWidth =
      BitVec.ofInt size.bitWidth ((a.setWidth size.bitWidth).toInt *
        (b.setWidth size.bitWidth).toInt / 2 ^ size.bitWidth) ↔
      FoldExact .sMulHi a b size := by
  have h : (((a.setWidth 128 * b.setWidth 128).sshiftRight 64).setWidth 64) =
      BitVec.ofInt 64 (a.toNat * b.toNat / 2 ^ 64 : Int) := by
    rw [sshiftRight_mulHi]
    apply eq_of_toNat_eq
    have hc : (a.toNat * b.toNat / 2 ^ 64 : Int) = (a.toNat * b.toNat / 2 ^ 64 : Nat) := by
      push_cast
      rfl
    rw [hc, ofInt_natCast, toNat_ofNat, toNat_mulHi, ← toNat_mulHi]
    exact (Nat.mod_eq_of_lt (BitVec.isLt _)).symm
  rw [h, setWidth_ofInt_of_le size.bitWidth_le, ofInt_eq_ofInt_iff]
  rfl

theorem sDiv_eq (hb : b ≠ 0) :
    evalBinop.value .sDiv a b = BitVec.ofInt 64 (a.toInt.tdiv b.toInt) := by
  have h₀ : b.toInt ≠ 0 := by simpa [← toInt_inj] using hb
  simp only [evalBinop.value, h₀, if_false]
  split
  case isTrue h =>
    rw [h.left, h.right, ← toInt_inj, h.left]
    rfl
  case isFalse => rfl

theorem sMod_eq (hb : b ≠ 0) :
    evalBinop.value .sMod a b = BitVec.ofInt 64 (a.toInt.tmod b.toInt) := by
  have h₀ : b.toInt ≠ 0 := by simpa [← toInt_inj] using hb
  simp only [evalBinop.value, h₀, if_false]
  split
  case isTrue h => simp [h.right]
  case isFalse => rfl

theorem ne_zero_of_setWidth_ne_zero (h : b.setWidth size.bitWidth ≠ 0) : b ≠ 0 := by
  intro hb
  exact h (by rw [hb, ofNat_eq_ofNat, setWidth_zero]; rfl)

theorem evalBinop_setWidth_iff {op : BinOpKind}
    (h : op.apply (a.setWidth size.bitWidth) (b.setWidth size.bitWidth) = some y) :
    (evalBinop.value op a b).setWidth size.bitWidth = y ↔ FoldExact op a b size := by
  have hw := size.bitWidth_le
  have hc : (b.setWidth size.bitWidth).toNat % 64 = b.toNat % 64 := toNat_setWidth_mod_64
  cases op
  all_goals simp only [BinOpKind.apply, Option.some.injEq, reduceCtorEq] at h
  case add => simp [evalBinop.value, FoldExact, ← h, setWidth_add _ _ hw]
  case sub => simp [evalBinop.value, FoldExact, ← h, setWidth_sub_of_le hw]
  case mul => simp [evalBinop.value, FoldExact, ← h, setWidth_mul _ _ hw]
  case and => simp [evalBinop.value, FoldExact, ← h]
  case or => simp [evalBinop.value, FoldExact, ← h]
  case xor => simp [evalBinop.value, FoldExact, ← h]
  case shl => simp only [evalBinop.value, FoldExact, ← h, count_eq, hc, setWidth_shiftLeft_of_le hw]
  case shr =>
    simp only [evalBinop.value, ← h, count_eq, hc]
    exact shr_iff _
  case sar =>
    simp only [evalBinop.value, ← h, count_eq, hc]
    exact sar_iff _
  case rol =>
    rw [← h, rol_eq]
    exact rol_iff
  case ror =>
    rw [← h, ror_eq]
    exact ror_iff
  case uMulHi =>
    rw [← h]
    exact uMulHi_iff
  case sMulHi =>
    rw [← h]
    exact sMulHi_iff
  case uDiv | uMod =>
    split at h
    case isTrue => contradiction
    case isFalse hb =>
      injection h with h
      rw [← h, evalBinop.value, if_neg (ne_zero_of_setWidth_ne_zero hb), ← toNat_inj]
      simp only [toNat_setWidth, toNat_udiv, toNat_umod]
      rfl
  case sDiv =>
    split at h
    case isTrue => contradiction
    case isFalse hb =>
      injection h with h
      rw [← h, sDiv_eq (ne_zero_of_setWidth_ne_zero hb), setWidth_ofInt_of_le hw,
        ofInt_eq_ofInt_iff]
      rfl
  case sMod =>
    split at h
    case isTrue => contradiction
    case isFalse hb =>
      injection h with h
      rw [← h, sMod_eq (ne_zero_of_setWidth_ne_zero hb), setWidth_ofInt_of_le hw,
        ofInt_eq_ofInt_iff]
      rfl

theorem fold_iff (h : Prisma.evalBinop op a b size = some r) :
    evalBinop.value op a b &&& size.mask = r ↔ FoldExact op a b size := by
  rw [evalBinop_eq, Option.map_eq_some_iff] at h
  have ⟨y, hy, hr⟩ := h
  have hw : y = r.setWidth size.bitWidth := by
    rw [← hr, setWidth_setWidth_of_le _ size.bitWidth_le, setWidth_eq]
  have hm : mask r size = r := by rw [mask_eq_setWidth, ← hw, hr]
  rw [← mask_eq_and, ← evalBinop_setWidth_iff hy, hw, ← mask_eq_iff, hm]

end FoldExact

theorem signExtend_eq (v : U64) (fromSize toSize : OpSize) :
    signExtend v fromSize toSize = mask (signExtendToU64 v fromSize) toSize := by
  simp only [signExtend, ← mask_eq_and]
  by_cases h : fromSize = .i64
  case pos =>
    have hs : signExtendToU64 v .i64 = v := by rw [signExtendToU64_eq]; exact BitVec.signExtend_eq _
    rw [h, if_pos (by decide), hs]
    rfl
  case neg =>
    have hw : ¬64 ≤ fromSize.bitWidth := by cases fromSize <;> simp_all [OpSize.bitWidth]
    rw [if_neg hw, ← signExtendToU64_of_mask v h]
    rfl

end Prisma.ConstProp
