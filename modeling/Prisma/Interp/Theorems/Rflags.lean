import Prisma.X86.Basic
import Prisma.Interp.Block
import Prisma.Interp.Theorems.Mask

namespace Prisma

open BitVec Option

namespace Rflags

variable {i : Nat}

theorem getLsbD_one_shiftLeft {k : Nat} (hk : k < 64) :
    (1#64 <<< k).getLsbD i = decide (i = k) := by
  rw [← twoPow_eq, getLsbD_twoPow]
  by_cases h : i = k <;> simp [h, hk, eq_comm]

@[simp]
theorem getLsbD_cf : cf.getLsbD i = decide (i = 0) := getLsbD_one_shiftLeft (by decide)

@[simp]
theorem getLsbD_pf : pf.getLsbD i = decide (i = 2) := getLsbD_one_shiftLeft (by decide)

@[simp]
theorem getLsbD_af : af.getLsbD i = decide (i = 4) := getLsbD_one_shiftLeft (by decide)

@[simp]
theorem getLsbD_zf : zf.getLsbD i = decide (i = 6) := getLsbD_one_shiftLeft (by decide)

@[simp]
theorem getLsbD_sf : sf.getLsbD i = decide (i = 7) := getLsbD_one_shiftLeft (by decide)

@[simp]
theorem getLsbD_of : of.getLsbD i = decide (i = 11) := getLsbD_one_shiftLeft (by decide)

@[simp]
theorem getLsbD_reserved : (2#64).getLsbD i = decide (i = 1) :=
  getLsbD_one_shiftLeft (k := 1) (by decide)

@[simp]
theorem getLsbD_setIf {cond : Bool} {bit rflags : U64} :
    (setIf cond bit rflags).getLsbD i = (rflags.getLsbD i || (cond && bit.getLsbD i)) := by
  cases cond <;> simp [setIf]

theorem isOne_eq (v : U64) : isOne v = v.getLsbD 0 := by
  rw [isOne, ofNat_eq_ofNat, and_one_eq_setWidth_ofBool_getLsbD]
  cases v.getLsbD 0 <;> rfl

end Rflags

section Words

variable {size : OpSize}

@[simp]
theorem setWidth_word (x : BitVec size.bitWidth) :
    (x.setWidth 64).setWidth size.bitWidth = x := by
  rw [setWidth_setWidth_of_le _ size.bitWidth_le, setWidth_eq]

@[simp]
theorem mask_word (x : BitVec size.bitWidth) : mask (x.setWidth 64) size = x.setWidth 64 := by
  rw [mask_eq_setWidth, setWidth_word]

theorem word_flag (b : Bool) : ((BitVec.ofBool b).setWidth size.bitWidth).setWidth 64 = bit b := by
  cases size <;> cases b <;> rfl

theorem setWidth_bit (b : Bool) :
    (bit b).setWidth size.bitWidth = (BitVec.ofBool b).setWidth size.bitWidth := by
  rw [← word_flag, setWidth_word]

@[simp]
theorem isOne_bit (b : Bool) : Rflags.isOne (bit b) = b := by
  cases b <;> rfl

end Words

section Publish

variable {regs : GuestRegs} {flags : Flags} {carry : RflagsCarryMode} {pf : U64} {af : Option U64}
  {zf sf of : U64}

-- The carry that a publication of NZCV stores.
def publishedCarry (flags : Flags) (carry : RflagsCarryMode) : Bool :=
  match carry with
  | .armCarry => flags.c
  | .invertArmCarry => !flags.c
  | .preserve | .clear => false

-- The flags that a publication of NZCV with a parity stores.
def publishedFlags (flags : Flags) (carry : RflagsCarryMode) (pf : U64) (af : Option U64) :
    X86.StatusFlags where
  cf := publishedCarry flags carry
  pf := Rflags.isOne pf
  af := af.map Rflags.isOne
  zf := flags.z
  sf := flags.n
  of := flags.v

-- The flags that a publication of explicit bits with a parity stores.
def publishedBits (regs : GuestRegs) (pf : U64) (af : Option U64) (zf sf of : U64) :
    X86.StatusFlags where
  cf := Rflags.isOne regs.cf
  pf := Rflags.isOne pf
  af := af.map Rflags.isOne
  zf := Rflags.isOne zf
  sf := Rflags.isOne sf
  of := Rflags.isOne of

theorem X86.StatusFlags.getLsbD_of_ge {f : StatusFlags} {old new : U64} {i : Nat} (hi : ¬i < 64) :
    new.getLsbD i = ((f.bit i).getD (old.getLsbD i) || i = 1) := by
  have hbit : f.bit i = none := by
    unfold bit
    split <;> first | rfl | omega
  simp [hbit, BitVec.getLsbD_of_ge _ i (Nat.le_of_not_lt hi), show i ≠ 1 by omega]

open Rflags in
theorem getLsbD_storeRflagsFromFlags (hc : carry ≠ .preserve) (i : Nat) :
    (storeRflagsFromFlags regs flags carry (some pf) af).rflags.getLsbD i =
      (((publishedFlags flags carry pf af).bit i).getD (regs.rflags.getLsbD i) || i = 1) := by
  by_cases hi : i < 64
  case neg => exact X86.StatusFlags.getLsbD_of_ge hi
  case pos =>
    unfold X86.StatusFlags.bit
    cases carry
    case preserve => exact absurd rfl hc
    all_goals
      cases af
      all_goals
        simp only [storeRflagsFromFlags, clearMask, publishedFlags, publishedCarry, getLsbD_setIf,
          getLsbD_or, getLsbD_and, getLsbD_not, getLsbD_cf, getLsbD_pf,
          getLsbD_af, getLsbD_zf, getLsbD_sf, getLsbD_of, getLsbD_reserved, hi,
          ofNat_eq_ofNat, getLsbD_zero, isSome_some, isSome_none, if_true,
          Bool.false_eq_true, if_false, decide_true, Bool.true_and]
        split <;> simp_all

open Rflags in
theorem getLsbD_storeRflagsFromBits (i : Nat) :
    (storeRflagsFromBits regs (some pf) af zf sf of).rflags.getLsbD i =
      (((publishedBits regs pf af zf sf of).bit i).getD (regs.rflags.getLsbD i) || i = 1) := by
  by_cases hi : i < 64
  case neg => exact X86.StatusFlags.getLsbD_of_ge hi
  case pos =>
    unfold X86.StatusFlags.bit
    cases af
    all_goals
      simp only [storeRflagsFromBits, clearMask, publishedBits, getLsbD_setIf,
        getLsbD_or, getLsbD_and, getLsbD_not, getLsbD_cf, getLsbD_pf,
        getLsbD_af, getLsbD_zf, getLsbD_sf, getLsbD_of, getLsbD_reserved, hi, isOne_eq regs.cf,
        ofNat_eq_ofNat, getLsbD_zero, isSome_some, isSome_none, if_true,
        Bool.false_eq_true, if_false, decide_true, Bool.true_and, getLsbD_one]
      split <;> simp_all

theorem X86.StatusFlags.setIn_of_getLsbD {f : StatusFlags} {old new : U64}
    (h : ∀ i, new.getLsbD i = ((f.bit i).getD (old.getLsbD i) || i = 1)) : f.SetIn new := by
  intro i b hb
  have hi : i ≠ 1 := by
    rintro rfl
    cases hb
  simp [h, hb, hi]

theorem X86.StatusFlags.keepOthers_of_getLsbD {f : StatusFlags} {old new : U64}
    (h : ∀ i, new.getLsbD i = ((f.bit i).getD (old.getLsbD i) || i = 1)) (ho : old.getLsbD 1 = true) :
    f.KeepOthers old new := by
  intro i hn
  rw [h, hn, getD_none]
  by_cases hi : i = 1
  case pos => simp [hi, ho]
  case neg => simp [hi]

end Publish

end Prisma
