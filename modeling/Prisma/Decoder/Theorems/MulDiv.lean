import Prisma.X86.MulDiv
import Prisma.Decoder.Theorems.Alu

-- MUL, IMUL, DIV and IDIV of the accumulator and a register.

namespace Prisma.Decoder

open Emission Machine X86 BitVec

section Integers

variable {w : Nat} {signed : Bool}

theorem ofInt_integer (x : BitVec w) : BitVec.ofInt 64 (integer signed x) =
    if signed then x.signExtend 64 else x.setWidth 64 := by
  cases signed
  case true => rfl
  case false =>
    rw [if_neg Bool.false_ne_true, ← ofNat_toNat, ← ofInt_natCast]
    rfl

theorem integer_ofInt_integer (h : w ≤ 64) (x : BitVec w) :
    integer signed (BitVec.ofInt 64 (integer signed x)) = integer signed x := by
  rw [ofInt_integer]
  cases signed
  case true => exact toInt_signExtend_of_le h
  case false => exact congrArg Nat.cast (toNat_setWidth_of_le h)

theorem ofInt_integer_self (x : BitVec w) : BitVec.ofInt w (integer signed x) = x := by
  cases signed
  case true => exact ofInt_toInt
  case false =>
    exact (ofInt_natCast w x.toNat).trans ((ofNat_toNat ..).trans (setWidth_eq x))

theorem mul_eq_ofInt (signed : Bool) (x y : BitVec w) :
    x * y = BitVec.ofInt w (integer signed x * integer signed y) := by
  rw [ofInt_mul, ofInt_integer_self, ofInt_integer_self]

end Integers

section Multiply

variable {Γ : Facts} {cpu : Cpu} {size : OpSize} {rax rhs : Ref} {x y : BitVec size.bitWidth}

theorem emitExtendToI64_computes (h : size ≠ .i64) (isSigned : Bool) (hl : Lookup Γ rhs (word x)) :
    Computes Γ cpu (emitExtendToI64 rhs size isSigned)
      (.scalar (BitVec.ofInt 64 (integer isSigned x))) := by
  rw [emitExtendToI64, if_neg h]
  refine (extend_computes .i64 isSigned).of_eq ?_
  rw [mask_i64, ofInt_integer]

theorem narrow_halves (h : size ≠ .i64) (z : Int) :
    (BitVec.ofInt 64 z >>> size.bitWidth).setWidth size.bitWidth =
      BitVec.ofInt size.bitWidth (z / 2 ^ size.bitWidth) :=
  Bits.setWidth_ushiftRight_ofInt (by cases size <;> first | decide | contradiction) z

theorem shiftCount (h : size ≠ .i64) : (BitVec.ofNat 64 size.bitWidth).toNat % 64 = size.bitWidth := by
  cases size <;> first | rfl | contradiction

theorem mulHi_apply (isSigned : Bool) (x y : BitVec size.bitWidth) :
    (if isSigned then BinOpKind.sMulHi else .uMulHi).apply x y =
      some (.ofInt size.bitWidth (integer isSigned x * integer isSigned y / 2 ^ size.bitWidth)) := by
  cases isSigned
  case true => rfl
  case false =>
    refine congrArg some ?_
    rw [← ofInt_natCast]
    push_cast
    rfl

theorem emitMulImulPair_leaves (h : size ≠ .i8) (isSigned : Bool) (hl : Lookup Γ rax (word x))
    (hr : Lookup Γ rhs (word y)) :
    Leaves Γ cpu (emitMulImulPair rax rhs size isSigned)
      (writeGpr (writeGpr cpu.regs .rax
        (.ofInt size.bitWidth (integer isSigned x * integer isSigned y))) .rdx
        (.ofInt size.bitWidth (integer isSigned x * integer isSigned y / 2 ^ size.bitWidth))) := by
  by_cases h64 : size = .i64
  case pos =>
    subst h64
    rw [emitMulImulPair, if_pos rfl]
    refine (binOp_computes .mul (congrArg some (mul_eq_ofInt isSigned x y))).bind fun lo => ?_
    refine (binOp_computes _ (mulHi_apply isSigned x y)).bind fun hi => ?_
    refine (storeReg_leaves .rax (.there .here)).bind fun _ c hc => ?_
    refine (storeReg_leaves .rdx .here).mono fun _ _ c' ⟨hΔ, hc'⟩ => ⟨hΔ, ?_⟩
    rw [hc', hc, setWidth_word, setWidth_word]
  case neg =>
    rw [emitMulImulPair, if_neg h64]
    refine (emitExtendToI64_computes h64 isSigned hl).bind fun lhs64 => ?_
    refine (emitExtendToI64_computes h64 isSigned hr.there).bind fun rhs64 => ?_
    refine (binOp64_computes .mul (congrArg some (ofInt_mul ..).symm)).bind fun product => ?_
    rw [if_neg h]
    refine (constant64_computes _).bind fun shift => ?_
    refine (binOp64_computes .shr rfl).bind fun high => ?_
    refine (storeReg_leaves .rax (.there (.there .here))).bind fun _ c hc => ?_
    refine (storeReg_leaves .rdx .here).mono fun _ _ c' ⟨hΔ, hc'⟩ => ⟨hΔ, ?_⟩
    rw [hc', hc, shiftCount h64, narrow_halves h64, Bits.setWidth_ofInt_of_le size.bitWidth_le]

end Multiply

section Divide

variable {Γ : Facts} {cpu : Cpu} {size : OpSize} {divisor quotient : Ref} {a b : U64} {q : Int}
  {regs : GuestRegs}

theorem div_apply (isSigned : Bool) (hb : b ≠ 0) :
    (if isSigned then BinOpKind.sDiv else .uDiv).apply a b =
      some (BitVec.ofInt 64 ((integer isSigned a).tdiv (integer isSigned b))) := by
  cases isSigned
  case true => exact if_neg hb
  case false =>
    refine (if_neg hb).trans (congrArg some ?_)
    rw [udiv_def, ← ofInt_natCast, Int.ofNat_tdiv]
    rfl

theorem mod_apply (isSigned : Bool) (hb : b ≠ 0) :
    (if isSigned then BinOpKind.sMod else .uMod).apply a b =
      some (BitVec.ofInt 64 ((integer isSigned a).tmod (integer isSigned b))) := by
  cases isSigned
  case true => exact if_neg hb
  case false =>
    refine (if_neg hb).trans (congrArg some ?_)
    rw [umod_def, ← ofInt_natCast, Int.ofNat_tmod]
    rfl

theorem emitDivisorZeroTrap_stops (h : Lookup Γ divisor (.scalar 0)) :
    Stops Γ cpu (emitDivisorZeroTrap divisor) (some (.trap .sigfpe, cpu.regs)) := by
  refine (constant64_computes 0).stops fun zero => ?_
  refine (compare64_yields .eq).stops fun isZero => ?_
  exact trapIf_stops .sigfpe (show bit true ≠ 0 by decide)

theorem emitDivisorZeroTrap_leaves (h : Lookup Γ divisor (.scalar a)) (ha : a ≠ 0) :
    Leaves Γ cpu (emitDivisorZeroTrap divisor) cpu.regs := by
  have hz : CondCode.eq.compare a 0 = false := beq_eq_false_iff_ne.mpr ha
  refine (constant64_computes 0).bind fun zero => ?_
  refine (compare64_yields .eq).bind fun isZero => ?_
  rw [hz]
  exact (trapIf_updates .sigfpe).mono fun _ _ _ ⟨hΔ, hc⟩ => ⟨hΔ, hc ▸ rfl⟩

-- The test for a quotient beyond the operand size.
def overflows (isSigned : Bool) (size : OpSize) (q : U64) : Bool :=
  if isSigned then
    q.slt ((BitVec.allOnes 64 <<< size.bitWidth) ||| (1#64 <<< (size.bitWidth - 1))) ||
      ((1#64 <<< (size.bitWidth - 1)) - 1).slt q
  else ((1#64 <<< size.bitWidth) - 1).ult q

-- The statements for the test.
def overflowRef (quotient : Ref) (outSize : OpSize) (isSigned : Bool) : Emit Ref := do
  let bits := outSize.bitWidth
  if isSigned then
    let minRef ← pushConstantRef ((BitVec.allOnes 64 <<< bits) ||| (1#64 <<< (bits - 1))) .i64
    let maxRef ← pushConstantRef ((1#64 <<< (bits - 1)) - 1) .i64
    let belowMin ← pushCompareRef .slt quotient minRef .i64
    let aboveMax ← pushCompareRef .sgt quotient maxRef .i64
    pushBinopRef .or belowMin aboveMax .i8
  else
    let maxRef ←
      pushConstantRef (if bits = 64 then BitVec.allOnes 64 else (1#64 <<< bits) - 1) .i64
    pushCompareRef .ugt quotient maxRef .i64

theorem emitDivQuotientOverflowTrap_eq (isSigned : Bool) :
    emitDivQuotientOverflowTrap quotient size isSigned =
      overflowRef quotient size isSigned >>= emitSigfpeIf := by
  cases isSigned
  case true => rfl
  case false => rfl

theorem overflowRef_evaluates (h : size ≠ .i64) (isSigned : Bool)
    (hq : Lookup Γ quotient (.scalar a)) :
    Evaluates Γ cpu (overflowRef quotient size isSigned) fun r Δ c =>
      Δ = [(r, .scalar (bit (overflows isSigned size a)))] ∧ c.regs = cpu.regs := by
  have hw : size.bitWidth ≠ 64 := by cases size <;> first | decide | contradiction
  cases isSigned
  case true =>
    refine (constant64_computes _).bind fun minRef => ?_
    refine (constant64_computes _).bind fun maxRef => ?_
    refine (compare64_yields .slt).bind fun belowMin => ?_
    refine (compare64_yields .sgt).bind fun aboveMax => ?_
    refine ((binOp_computes_at .or (congrArg some (or_bits ..))).of_eq
      (congrArg Value.scalar (word_bit _))).mono fun _ _ _ ⟨hΔ, hc⟩ => ⟨hΔ, hc ▸ rfl⟩
  case false =>
    refine (constant64_computes _).bind fun maxRef => ?_
    rw [if_neg hw]
    exact (compare64_yields .ugt).mono fun _ _ _ ⟨hΔ, hc⟩ => ⟨hΔ, hc ▸ rfl⟩

-- The quotient of 64-bit operands, which is beyond 64 bits for the minimum by -1.
def InQuotientRange (isSigned : Bool) (q : Int) : Prop :=
  if isSigned then -2 ^ 63 ≤ q ∧ q ≤ 2 ^ 63 else 0 ≤ q ∧ q < 2 ^ 64

theorem inQuotientRange (isSigned : Bool) (a b : U64) :
    InQuotientRange isSigned ((integer isSigned a).tdiv (integer isSigned b)) := by
  cases isSigned
  case true =>
    have h := Int.natAbs_tdiv_le_natAbs a.toInt b.toInt
    have hl := a.le_toInt
    have hr := a.toInt_lt
    change -2 ^ 63 ≤ a.toInt.tdiv b.toInt ∧ a.toInt.tdiv b.toInt ≤ 2 ^ 63
    omega
  case false =>
    have h := Nat.div_le_self a.toNat b.toNat
    have ha := a.isLt
    change 0 ≤ (a.toNat : Int).tdiv b.toNat ∧ (a.toNat : Int).tdiv b.toNat < 2 ^ 64
    rw [← Int.ofNat_tdiv]
    exact ⟨Int.natCast_nonneg _, by exact_mod_cast Nat.lt_of_le_of_lt h ha⟩

theorem overflows_iff (h : size ≠ .i64) (hq : InQuotientRange isSigned q) :
    overflows isSigned size (BitVec.ofInt 64 q) = true ↔ ¬Fits isSigned size.bitWidth q := by
  cases isSigned
  case true =>
    have hmin : ((BitVec.allOnes 64 <<< size.bitWidth) ||| (1#64 <<< (size.bitWidth - 1))).toInt =
        -2 ^ (size.bitWidth - 1) := by cases size <;> rfl
    have hmax : ((1#64 <<< (size.bitWidth - 1)) - 1).toInt = 2 ^ (size.bitWidth - 1) - 1 := by
      cases size <;> rfl
    have hw : (2 : Int) ^ (size.bitWidth - 1) < 2 ^ 63 := by
      cases size <;> first | decide | contradiction
    simp only [overflows, Fits, if_true, slt_eq_decide, hmin, hmax, Bool.or_eq_true,
      decide_eq_true_eq]
    have ⟨hl, hr⟩ : -2 ^ 63 ≤ q ∧ q ≤ 2 ^ 63 := hq
    by_cases hm : q = 2 ^ 63
    case pos =>
      have ht : (BitVec.ofInt 64 q).toInt = -2 ^ 63 := by rw [hm]; rfl
      rw [ht]
      omega
    case neg =>
      have ht : (BitVec.ofInt 64 q).toInt = q :=
        toInt_ofInt_eq_self (by decide) hl (by omega)
      rw [ht]
      omega
  case false =>
    have hmax : ((1#64 <<< size.bitWidth) - 1).toNat = 2 ^ size.bitWidth - 1 := by
      cases size <;> rfl
    have ⟨hl, hr⟩ : 0 ≤ q ∧ q < 2 ^ 64 := hq
    have hp : 0 < 2 ^ size.bitWidth := Nat.two_pow_pos _
    have ht : ((BitVec.ofInt 64 q).toNat : Int) = q := by
      rw [toNat_ofInt]
      omega
    have hc : ((2 ^ size.bitWidth : Nat) : Int) = 2 ^ size.bitWidth := by push_cast; rfl
    simp only [overflows, Fits, Bool.false_eq_true, if_false, ult_eq_decide, hmax,
      decide_eq_true_eq]
    omega

theorem emitDivQuotientOverflowTrap_stops (h : size ≠ .i64) (hq : Lookup Γ quotient (.scalar a))
    (ho : overflows isSigned size a = true) (hr : cpu.regs = regs) :
    Stops Γ cpu (emitDivQuotientOverflowTrap quotient size isSigned)
      (some (.trap .sigfpe, regs)) := by
  rw [emitDivQuotientOverflowTrap_eq]
  refine .after (overflowRef_evaluates h isSigned hq) fun overflow Δ c ⟨hΔ, hc⟩ => ?_
  subst hΔ
  rw [ho, ← hr, ← hc]
  exact trapIf_stops .sigfpe (show bit true ≠ 0 by decide)

theorem emitDivQuotientOverflowTrap_leaves (h : size ≠ .i64) (hq : Lookup Γ quotient (.scalar a))
    (ho : overflows isSigned size a = false) :
    Leaves Γ cpu (emitDivQuotientOverflowTrap quotient size isSigned) cpu.regs := by
  rw [emitDivQuotientOverflowTrap_eq]
  refine (overflowRef_evaluates h isSigned hq).bind fun overflow Δ c ⟨hΔ, hc⟩ => ?_
  subst hΔ
  rw [ho, ← hc]
  exact (trapIf_updates .sigfpe).mono fun _ _ _ ⟨hΔ, hc⟩ => ⟨hΔ, hc ▸ rfl⟩

end Divide

section Dividend

variable {Γ : Facts} {cpu : Cpu} {form : MulDivForm} {rax rhs : Ref}

theorem setWidth_append (x y : BitVec w) :
    (y ++ x).setWidth u = (y.setWidth u <<< w) ||| x.setWidth u := by
  apply eq_of_getLsbD_eq
  intro i hi
  simp only [getLsbD_setWidth, getLsbD_append, getLsbD_or,
    getLsbD_shiftLeft, hi, decide_true, Bool.true_and]
  by_cases hw : i < w
  case pos => simp [hw]
  case neg =>
    have hx : x.getLsbD i = false := getLsbD_of_ge x i (by omega)
    simp [hw, hx, show i - w < u by omega]

-- The registers RDX and RAX put together.
def combinedRef (raxRef : Ref) (size : OpSize) : Emit Ref := do
  let low ← emitExtendToI64 raxRef size false
  let rdx ← pushRef (.loadReg .rdx size)
  let high ← emitExtendToI64 rdx size false
  let shift ← pushConstantRef (.ofNat 64 size.bitWidth) .i64
  let shiftedHigh ← pushBinopRef .shl high shift .i64
  pushBinopRef .or shiftedHigh low .i64

theorem emitDividend_eq (h : size ≠ .i8) (isSigned : Bool) :
    emitDividend rax size isSigned = (combinedRef rax size >>= fun combined =>
      if isSigned ∧ size = .i16 then emitExtendToI64 combined .i32 true else pure combined) := by
  simp only [emitDividend, if_neg h, combinedRef, bind_assoc]

theorem combinedRef_computes (h : size ≠ .i64)
    (hl : Lookup Γ rax (word (readGpr cpu.regs .rax size))) :
    Computes Γ cpu (combinedRef rax size)
      (word (readGpr cpu.regs .rdx size ++ readGpr cpu.regs .rax size)) := by
  refine (emitExtendToI64_computes h false hl).bind fun low => ?_
  refine (loadReg_computes .rdx).bind fun rdx => ?_
  refine (emitExtendToI64_computes h false .here).bind fun high => ?_
  refine (constant64_computes _).bind fun shift => ?_
  refine (binOp64_computes .shl rfl).bind fun shiftedHigh => ?_
  refine (binOp64_computes .or rfl).of_eq ?_
  rw [shiftCount h, ofInt_integer, ofInt_integer]
  exact congrArg Value.scalar (setWidth_append _ _).symm

theorem signedDividend_computes {size : OpSize} (h8 : size ≠ .i8) (h64 : size ≠ .i64)
    (isSigned : Bool) {combined : Ref} {v : BitVec (size.bitWidth + size.bitWidth)}
    (hv : Lookup Γ combined (word v)) :
    Computes Γ cpu
      (if isSigned ∧ size = .i16 then emitExtendToI64 combined .i32 true else pure combined)
      (.scalar (BitVec.ofInt 64 (integer isSigned v))) := by
  have hu (h : isSigned = false) : Computes Γ cpu
      (if isSigned ∧ size = .i16 then emitExtendToI64 combined .i32 true else pure combined)
      (.scalar (BitVec.ofInt 64 (integer isSigned v))) := by
    rw [if_neg (by simp [h]), ofInt_integer, h]
    exact .pure hv
  cases isSigned
  case false => exact hu rfl
  case true =>
    cases size
    case i8 | i64 => contradiction
    case i16 =>
      have hv : Lookup Γ combined (@word OpSize.i32.bitWidth v) := hv
      exact emitExtendToI64_computes (by decide) true hv
    case i32 =>
      have hs : BitVec.ofInt 64 (integer true v) = v.setWidth 64 :=
        (ofInt_integer_self v).trans (setWidth_eq v).symm
      rw [if_neg (by decide), hs]
      exact .pure hv

theorem emitDividend_computes (h : form.size ≠ .i64)
    (hl : Lookup Γ rax (word (readGpr cpu.regs .rax form.size))) :
    Computes Γ cpu (emitDividend rax form.size form.signed)
      (.scalar (BitVec.ofInt 64 (form.dividend cpu.regs))) := by
  by_cases h8 : form.size = .i8
  case pos =>
    obtain ⟨divides, isSigned, src, size⟩ := form
    subst h8
    have h16 : OpSize.i16 ≠ .i64 := by decide
    refine (loadReg_computes .rax).bind fun ax => ?_
    exact emitExtendToI64_computes h16 isSigned .here
  case neg =>
    rw [emitDividend_eq h8, MulDivForm.dividend, MulDivForm.dividendBits, if_neg h8]
    refine (combinedRef_computes h hl).bind fun combined => ?_
    exact signedDividend_computes h8 h form.signed .here

theorem ax_eq (ah al : BitVec 8) : ax ah al = (ah.setWidth 16 <<< 8) ||| al.setWidth 16 :=
  (setWidth_eq (ah ++ al)).symm.trans (setWidth_append al ah)

theorem emitDivBytes_leaves (hq : Lookup Γ quotient (.scalar (BitVec.ofInt 64 q)))
    (hr : Lookup Γ remainder (.scalar (BitVec.ofInt 64 r))) :
    Leaves Γ cpu (emitDivBytes quotient remainder)
      (writeGpr cpu.regs .rax (ax (.ofInt 8 r) (.ofInt 8 q))) := by
  have h8 (z : Int) : (BitVec.ofInt 64 z).setWidth OpSize.i8.bitWidth = BitVec.ofInt 8 z :=
    Bits.setWidth_ofInt_of_le (by decide) z
  refine Computes.bind truncate_computes fun quotientByte => ?_
  refine Computes.bind truncate_computes fun remainderByte => ?_
  refine (zeroExtend_computes .i16).bind fun quotientWord => ?_
  refine (zeroExtend_computes .i16).bind fun remainderWord => ?_
  refine (constant_computes 8).bind fun shift => ?_
  refine (binOp_computes .shl rfl).bind fun remHi => ?_
  refine (binOp_computes .or rfl).bind fun ax => ?_
  refine (storeReg_leaves .rax .here).mono fun _ _ c ⟨hΔ, hc⟩ => ⟨hΔ, ?_⟩
  rw [hc, ax_eq, setWidth_word, h8, h8]
  rfl

end Dividend

instance : TotalSpec (pushConstantRef value size) := .derive (pushConstantRef.eq_1 ..)
instance : TotalSpec (pushBinopRef op lhs rhs size) := .derive (pushBinopRef.eq_1 ..)
instance : TotalSpec (pushCompareRef cc lhs rhs size) := .derive (pushCompareRef.eq_1 ..)
instance : TotalSpec (emitSigfpeIf condition) := .derive (emitSigfpeIf.eq_1 ..)
instance : TotalSpec (emitDivQuotientOverflowTrap quotient size isSigned) := .derive (emitDivQuotientOverflowTrap.eq_1 ..)
instance : TotalSpec (emitDivBytes quotient remainder) := .derive (emitDivBytes.eq_1 ..)

section Pair

variable {Γ : Facts} {cpu : Cpu} {form : MulDivForm} {rax rhs : Ref} {regs : GuestRegs}

theorem integer_ofInt_dividend (h : form.size ≠ .i64) :
    integer form.signed (BitVec.ofInt 64 (form.dividend regs)) = form.dividend regs :=
  integer_ofInt_integer (by cases hs : form.size <;> first | decide | exact absurd hs h) _

theorem integer_ofInt_divisor :
    integer form.signed (BitVec.ofInt 64 (form.divisor regs)) = form.divisor regs :=
  integer_ofInt_integer form.size.bitWidth_le _

theorem divisor_eq_zero_iff : BitVec.ofInt 64 (form.divisor regs) = 0 ↔ form.divisor regs = 0 := by
  constructor
  case mp =>
    intro hz
    rw [← integer_ofInt_divisor, hz]
    cases form.signed <;> rfl
  case mpr =>
    intro hz
    rw [hz]
    rfl

theorem quotient_apply (h : form.size ≠ .i64) (hd : form.divisor regs ≠ 0) :
    (if form.signed then BinOpKind.sDiv else .uDiv).apply (BitVec.ofInt 64 (form.dividend regs))
      (BitVec.ofInt 64 (form.divisor regs)) = some (BitVec.ofInt 64 (form.quotient regs)) := by
  rw [div_apply _ (mt divisor_eq_zero_iff.mp hd), integer_ofInt_dividend h,
    integer_ofInt_divisor, MulDivForm.quotient]

theorem remainder_apply (h : form.size ≠ .i64) (hd : form.divisor regs ≠ 0) :
    (if form.signed then BinOpKind.sMod else .uMod).apply (BitVec.ofInt 64 (form.dividend regs))
      (BitVec.ofInt 64 (form.divisor regs)) = some (BitVec.ofInt 64 (form.remainder regs)) := by
  rw [mod_apply _ (mt divisor_eq_zero_iff.mp hd), integer_ofInt_dividend h,
    integer_ofInt_divisor, MulDivForm.remainder]

theorem overflows_quotient_iff (h : form.size ≠ .i64) :
    overflows form.signed form.size (BitVec.ofInt 64 (form.quotient regs)) = true ↔
      ¬Fits form.signed form.size.bitWidth (form.quotient regs) := by
  apply overflows_iff h
  rw [MulDivForm.quotient, ← integer_ofInt_dividend h, ← integer_ofInt_divisor]
  exact inQuotientRange ..

theorem emitDivIdivPair_stops (h : form.size ≠ .i64) (hf : form.Faults cpu.regs)
    (hl : Lookup Γ rax (word (readGpr cpu.regs .rax form.size)))
    (hr : Lookup Γ rhs (word (readGpr cpu.regs form.src form.size))) :
    Stops Γ cpu (emitDivIdivPair rax rhs form.size form.signed)
      (some (.trap .sigfpe, cpu.regs)) := by
  rw [emitDivIdivPair, if_neg h]
  refine (emitDividend_computes h hl).stops fun dividend => ?_
  refine (emitExtendToI64_computes h form.signed hr.there).stops fun divisor => ?_
  by_cases hd : form.divisor cpu.regs = 0
  case pos =>
    refine (emitDivisorZeroTrap_stops ?_).bind
    rw [← divisor_eq_zero_iff.mpr hd]
    exact .here
  case neg =>
    refine (emitDivisorZeroTrap_leaves .here (mt divisor_eq_zero_iff.mp hd)).stops fun _ c hc => ?_
    refine (binOp64_computes _ (quotient_apply h hd)).stops fun quotient => ?_
    refine (binOp64_computes _ (remainder_apply h hd)).stops fun remainder => ?_
    refine (emitDivQuotientOverflowTrap_stops h (.there .here) ?_ hc).bind
    exact (overflows_quotient_iff h).mpr (hf.resolve_left hd)

theorem divided_eq (h : form.size ≠ .i8) : form.divided regs =
    writeGpr (writeGpr regs .rax (.ofInt form.size.bitWidth (form.quotient regs))) .rdx
      (.ofInt form.size.bitWidth (form.remainder regs)) := by
  unfold MulDivForm.divided
  split
  case h_1 h8 => exact absurd h8 h
  case h_2 => rfl

theorem emitDivIdivPair_leaves (h : form.size ≠ .i64) (hf : ¬form.Faults cpu.regs)
    (hl : Lookup Γ rax (word (readGpr cpu.regs .rax form.size)))
    (hr : Lookup Γ rhs (word (readGpr cpu.regs form.src form.size))) :
    Leaves Γ cpu (emitDivIdivPair rax rhs form.size form.signed) (form.divided cpu.regs) := by
  have hd : form.divisor cpu.regs ≠ 0 := fun hd => hf (.inl hd)
  have ho : overflows form.signed form.size (BitVec.ofInt 64 (form.quotient cpu.regs)) = false :=
    Bool.eq_false_iff.mpr fun ho => hf (.inr ((overflows_quotient_iff h).mp ho))
  rw [emitDivIdivPair, if_neg h]
  refine (emitDividend_computes h hl).bind fun dividend => ?_
  refine (emitExtendToI64_computes h form.signed hr.there).bind fun divisor => ?_
  refine (emitDivisorZeroTrap_leaves .here (mt divisor_eq_zero_iff.mp hd)).bind fun _ c hc => ?_
  refine (binOp64_computes _ (quotient_apply h hd)).bind fun quotient => ?_
  refine (binOp64_computes _ (remainder_apply h hd)).bind fun remainder => ?_
  refine (emitDivQuotientOverflowTrap_leaves h (.there .here) ho).bind fun _ c' hc' => ?_
  rw [hc] at hc'
  split
  case isTrue h8 =>
    refine (emitDivBytes_leaves (.there .here) .here).mono fun _ _ c ⟨hΔ, hc⟩ => ⟨hΔ, ?_⟩
    rw [hc, hc', MulDivForm.divided, h8]
  case isFalse h8 =>
    refine (storeReg_leaves .rax (.there .here)).bind fun _ c hc => ?_
    refine (storeReg_leaves .rdx .here).mono fun _ _ _ ⟨hΔ, h'⟩ => ⟨hΔ, ?_⟩
    rw [h', hc, hc', divided_eq h8, Bits.setWidth_ofInt_of_le form.size.bitWidth_le,
      Bits.setWidth_ofInt_of_le form.size.bitWidth_le]

end Pair

section Wide

variable {Γ : Facts} {cpu : Cpu} {form : MulDivForm} {rax rhs high low divisor : Ref} {a b c : U64}
  {isSigned : Bool} {regs : GuestRegs}

theorem wideDiv_computes (result : WideDivResult)
    (h : evalWideDiv a b c isSigned result = some (some r)) (ha : Lookup Γ high (.scalar a))
    (hb : Lookup Γ low (.scalar b)) (hc : Lookup Γ divisor (.scalar c)) :
    Computes Γ cpu (pushRef (.wideDiv high low divisor isSigned result)) (.scalar r) :=
  pushRef_yields fun n s hk => by simp only [evalOp, hk.vals ha, hk.vals hb, hk.vals hc, h]

-- What the interpreter makes of a division that has no 64-bit quotient.
def unsupportedDiv (isSigned : Bool) (a b c : U64) (regs : GuestRegs) :
    Option (BlockOutcome × GuestRegs) :=
  (evalWideDiv a b c isSigned .quotient).map fun _ => (.unsupported "wide div trap", regs)

theorem wideDiv_stops (h : ∀ r, evalWideDiv a b c isSigned .quotient ≠ some (some r))
    (ha : Lookup Γ high (.scalar a)) (hb : Lookup Γ low (.scalar b))
    (hc : Lookup Γ divisor (.scalar c)) :
    Stops Γ cpu (pushRef (.wideDiv high low divisor isSigned .quotient))
      (unsupportedDiv isSigned a b c cpu.regs) :=
  pushRef_stops fun n s hk => by
    simp only [evalOp, hk.vals ha, hk.vals hb, hk.vals hc, unsupportedDiv]
    match he : evalWideDiv a b c isSigned .quotient with
    | none => rfl
    | some none => rfl
    | some (some r) => exact absurd he (h r)

section Values

variable (regs) in
theorem wide_operands (h : form.size = .i64) :
    form.dividend regs = integer form.signed (regs.gpr .rdx ++ regs.gpr .rax) ∧
      form.divisor regs = integer form.signed (regs.gpr form.src) := by
  obtain ⟨divides, isSigned, src, size⟩ := form
  cases h
  have hr (reg : Gpr) : readGpr regs reg .i64 = regs.gpr reg := setWidth_eq _
  exact ⟨congrArg (integer isSigned) (congrArg₂ (· ++ ·) (hr .rdx) (hr .rax)),
    congrArg (integer isSigned) (hr src)⟩

theorem toNat_wideQuotient : ((a ++ b : U128) / c.setWidth 128).toNat = (a ++ b).toNat / c.toNat := by
  rw [toNat_udiv, toNat_setWidth_of_le (by decide)]

theorem toNat_wideRemainder : ((a ++ b : U128) % c.setWidth 128).toNat = (a ++ b).toNat % c.toNat := by
  rw [toNat_umod, toNat_setWidth_of_le (by decide)]

theorem wideOverflow_iff : (BitVec.allOnes 64).setWidth 128 < (a ++ b : U128) / c.setWidth 128 ↔
    ¬Fits false 64 ((integer false (a ++ b)).tdiv (integer false c)) := by
  have hq : (integer false (a ++ b)).tdiv (integer false c) = ((a ++ b).toNat / c.toNat : Nat) :=
    (Int.ofNat_tdiv ..).symm
  rw [lt_def, toNat_wideQuotient, hq]
  generalize (a ++ b).toNat / c.toNat = n
  change 2 ^ 64 - 1 < n ↔ ¬(0 ≤ (n : Int) ∧ (n : Int) < 2 ^ 64)
  omega

theorem evalWideDiv_eq (hc : c ≠ 0)
    (hf : Fits isSigned 64 ((integer isSigned (a ++ b)).tdiv (integer isSigned c))) :
    evalWideDiv a b c isSigned .quotient =
        some (some (.ofInt 64 ((integer isSigned (a ++ b)).tdiv (integer isSigned c)))) ∧
      evalWideDiv a b c isSigned .remainder =
        some (some (.ofInt 64 ((integer isSigned (a ++ b)).tmod (integer isSigned c)))) := by
  cases isSigned
  case true =>
    have hq : -2 ^ 63 ≤ (a ++ b).toInt.tdiv c.toInt ∧ (a ++ b).toInt.tdiv c.toInt < 2 ^ 63 := hf
    have hm : ¬((a ++ b).toInt = -2 ^ 127 ∧ c.toInt = -1) := by
      rintro ⟨ha, hc⟩
      rw [ha, hc] at hq
      revert hq
      decide
    have hr : ¬((a ++ b).toInt.tdiv c.toInt < -2 ^ 63 ∨ 2 ^ 63 - 1 < (a ++ b).toInt.tdiv c.toInt) := by
      omega
    simp only [evalWideDiv, if_neg hc, if_true, if_neg hm, if_neg hr]
    exact ⟨rfl, rfl⟩
  case false =>
    have ho := mt wideOverflow_iff.mp (not_not.mpr hf)
    simp only [evalWideDiv, if_neg hc, Bool.false_eq_true, if_false, if_neg ho]
    rw [← ofNat_toNat, toNat_wideQuotient, ← ofNat_toNat, toNat_wideRemainder,
      ← ofInt_natCast, ← ofInt_natCast, Int.ofNat_tdiv, Int.ofNat_tmod]
    exact ⟨rfl, rfl⟩

theorem evalWideDiv_ne (hc : c ≠ 0)
    (hf : ¬Fits isSigned 64 ((integer isSigned (a ++ b)).tdiv (integer isSigned c))) (r : U64) :
    evalWideDiv a b c isSigned .quotient ≠ some (some r) := by
  cases isSigned
  case true =>
    have hf : ¬(-2 ^ 63 ≤ (a ++ b).toInt.tdiv c.toInt ∧ (a ++ b).toInt.tdiv c.toInt < 2 ^ 63) := hf
    simp only [evalWideDiv, if_neg hc, if_true]
    split
    case isTrue => nofun
    case isFalse =>
      rw [if_pos (by omega)]
      nofun
  case false =>
    simp only [evalWideDiv, if_neg hc, Bool.false_eq_true, if_false, if_pos (wideOverflow_iff.mpr hf)]
    nofun

end Values

theorem wide_divisor_eq_zero (hs : form.size = .i64) :
    cpu.regs.gpr form.src = 0 ↔ form.divisor cpu.regs = 0 := by
  rw [← divisor_eq_zero_iff, (wide_operands cpu.regs hs).right, ofInt_integer_self]

section Pair

variable (hs : form.size = .i64)
  (hl : Lookup Γ rax (word (readGpr cpu.regs .rax form.size)))
  (hr : Lookup Γ rhs (word (readGpr cpu.regs form.src form.size)))

include hs hl hr

theorem wide_lookup : Lookup Γ rax (.scalar (cpu.regs.gpr .rax)) ∧
    Lookup Γ rhs (.scalar (cpu.regs.gpr form.src)) := by
  have h (reg : Gpr) : word (readGpr cpu.regs reg form.size) = .scalar (cpu.regs.gpr reg) := by
    rw [hs]
    exact congrArg Value.scalar ((setWidth_eq _).trans (setWidth_eq _))
  rw [h] at hl hr
  exact ⟨hl, hr⟩

theorem emitWideDivPair_stops_zero (hd : form.divisor cpu.regs = 0) :
    Stops Γ cpu (emitWideDivPair rax rhs form.signed) (some (.trap .sigfpe, cpu.regs)) := by
  have ⟨_, hr⟩ := wide_lookup hs hl hr
  rw [(wide_divisor_eq_zero hs).mpr hd] at hr
  refine (loadReg_computes .rdx).stops fun rdx => ?_
  exact (emitDivisorZeroTrap_stops hr.there).bind

theorem emitWideDivPair_stops (hd : form.divisor cpu.regs ≠ 0)
    (hf : ¬Fits form.signed 64 (form.quotient cpu.regs)) :
    Stops Γ cpu (emitWideDivPair rax rhs form.signed)
      (unsupportedDiv form.signed (cpu.regs.gpr .rdx) (cpu.regs.gpr .rax) (cpu.regs.gpr form.src)
        cpu.regs) := by
  have ⟨hl, hr⟩ := wide_lookup hs hl hr
  have ⟨hn, hm⟩ := wide_operands cpu.regs hs
  have hd := mt (wide_divisor_eq_zero hs).mp hd
  rw [MulDivForm.quotient, hn, hm] at hf
  refine (loadReg64_computes .rdx).stops fun rdx => ?_
  refine (emitDivisorZeroTrap_leaves hr.there hd).stops fun _ c hc => ?_
  rw [← hc] at hl hr hf hd ⊢
  exact (wideDiv_stops (evalWideDiv_ne hd hf) .here hl.there hr.there).bind

theorem emitWideDivPair_leaves (hd : form.divisor cpu.regs ≠ 0)
    (hf : Fits form.signed 64 (form.quotient cpu.regs)) :
    Leaves Γ cpu (emitWideDivPair rax rhs form.signed) (form.divided cpu.regs) := by
  have ⟨hl, hr⟩ := wide_lookup hs hl hr
  have ⟨hn, hm⟩ := wide_operands cpu.regs hs
  have hd := mt (wide_divisor_eq_zero hs).mp hd
  have h8 : form.size ≠ .i8 := by rw [hs]; decide
  rw [MulDivForm.quotient, hn, hm] at hf
  have ⟨hq, hr'⟩ := evalWideDiv_eq hd hf
  refine (loadReg64_computes .rdx).bind fun rdx => ?_
  refine (emitDivisorZeroTrap_leaves hr.there hd).bind fun _ c hc => ?_
  refine (wideDiv_computes .quotient hq .here hl.there hr.there).bind fun quotient => ?_
  refine (wideDiv_computes .remainder hr' (.there .here) hl.there.there hr.there.there).bind
    fun remainder => ?_
  refine (storeReg_leaves .rax (.there .here)).bind fun _ c' hc' => ?_
  refine (storeReg_leaves .rdx .here).mono fun _ _ _ ⟨hΔ, h'⟩ => ⟨hΔ, ?_⟩
  rw [h', hc', hc, divided_eq h8, MulDivForm.quotient, MulDivForm.remainder, hn, hm, hs,
    Bits.setWidth_ofInt_of_le (by decide), Bits.setWidth_ofInt_of_le (by decide)]

end Pair

end Wide

end Prisma.Decoder
