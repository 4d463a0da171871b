import Prisma.Decoder.Theorems.Eval

namespace Prisma.Decoder

section Bits

variable {size : OpSize}

theorem and_one_word (x : BitVec size.bitWidth) :
    (x &&& (1 : U64).setWidth size.bitWidth).setWidth 64 = bit (x.getLsbD 0) := by
  have h : (1 : U64).setWidth size.bitWidth = BitVec.ofNat size.bitWidth 1 := by
    cases size <;> rfl
  rw [h, BitVec.and_one_eq_setWidth_ofBool_getLsbD, word_flag]

end Bits

section Parity

variable {size : OpSize}

-- One step of the parity fold.
def fold {w : Nat} (x : BitVec w) (k : Nat) : BitVec w :=
  x ^^^ (x >>> k)

theorem evenParity_setWidth (x : BitVec w) : X86.evenParity (x.setWidth 8) = X86.evenParity x := by
  have h : (List.range 8).countP ((x.setWidth 8).getLsbD ·) = (List.range 8).countP (x.getLsbD ·) := by
    apply List.countP_congr
    intro i hi
    simp [List.mem_range.mp hi]
  rw [X86.evenParity, X86.evenParity, h]

theorem and_byte (x : BitVec size.bitWidth) :
    x &&& (0xFF : U64).setWidth size.bitWidth = (x.setWidth 8).setWidth size.bitWidth := by
  have hm : (0xFF : U64).setWidth size.bitWidth = (BitVec.allOnes 8).setWidth size.bitWidth := by
    cases size <;> rfl
  apply BitVec.eq_of_getLsbD_eq
  intro i hi
  rw [hm]
  simp only [BitVec.getLsbD_and, BitVec.getLsbD_setWidth, BitVec.getLsbD_allOnes, hi, decide_true,
    Bool.true_and, Bool.and_comm]

theorem fold_byte (b : U8) :
    (fold (fold (fold (b.setWidth size.bitWidth) 4) 2) 1).getLsbD 0 = !X86.evenParity b := by
  revert b
  cases size <;> decide +kernel

end Parity

section Refs

variable {Γ : Facts} {cpu : Cpu} {size : OpSize} {value lhs rhs result : Ref}
  {x y r : BitVec size.bitWidth}

section Values

variable (h : Lookup Γ value (word x))

include h

theorem pushLowBitRef_computes :
    Computes Γ cpu (pushLowBitRef value size) (.scalar (bit (x.getLsbD 0))) := by
  refine (constant_computes 1).bind fun one => ?_
  refine (binOp_computes .and rfl).of_eq ?_
  rw [word, and_one_word]

theorem pushShiftedBitRef_computes {shift : U64}
    (hk : (shift.setWidth size.bitWidth).toNat % 64 = k) :
    Computes Γ cpu (pushShiftedBitRef value shift size) (.scalar (bit (x.getLsbD k))) := by
  refine (constant_computes shift).bind fun shiftRef => ?_
  refine (binOp_computes .shr rfl).bind fun shifted => ?_
  refine (pushLowBitRef_computes .here).of_eq ?_
  rw [hk, BitVec.getLsbD_ushiftRight, Nat.add_zero]

theorem pushFoldRef_computes {shift : U64} (hk : (shift.setWidth size.bitWidth).toNat % 64 = k) :
    Computes Γ cpu (pushFoldRef value shift size) (word (fold x k)) := by
  refine (constant_computes shift).bind fun shiftRef => ?_
  refine (binOp_computes .shr rfl).bind fun shifted => ?_
  refine (binOp_computes .xor rfl).of_eq ?_
  rw [hk, fold]

theorem pushEvenParityLowByteRef_computes :
    Computes Γ cpu (pushEvenParityLowByteRef value size) (.scalar (bit (X86.evenParity x))) := by
  refine (constant_computes 0xFF).bind fun byteMask => ?_
  refine (binOp_computes .and rfl).bind fun byte => ?_
  refine (pushFoldRef_computes .here (k := 4) (by cases size <;> rfl)).bind fun fold4 => ?_
  refine (pushFoldRef_computes .here (k := 2) (by cases size <;> rfl)).bind fun fold2 => ?_
  refine (pushFoldRef_computes .here (k := 1) (by cases size <;> rfl)).bind fun fold1 => ?_
  refine (pushLowBitRef_computes .here).bind fun oddParity => ?_
  refine (constant_computes 1).bind fun one => ?_
  refine (binOp_computes_at .xor rfl).of_eq ?_
  rw [and_byte, fold_byte, evenParity_setWidth]
  cases X86.evenParity x <;> cases size <;> rfl

end Values

theorem pushAuxFlagRef_computes (hl : Lookup Γ lhs (word x)) (hr : Lookup Γ rhs (word y))
    (h : Lookup Γ result (word r)) :
    Computes Γ cpu (pushAuxFlagRef lhs rhs result size)
      (.scalar (bit ((x ^^^ y ^^^ r).getLsbD 4))) := by
  refine (binOp_computes .xor rfl).bind fun lhsXorRhs => ?_
  refine (binOp_computes .xor rfl).bind fun carryNibble => ?_
  exact pushShiftedBitRef_computes .here (by cases size <;> rfl)

end Refs

end Prisma.Decoder
