import Prisma.Lib.Rotate
import Prisma.X86.Shift
import Prisma.X86.Theorems.Operand
import Prisma.Decoder.Theorems.Alu

-- RCL and RCR of a register rotate the ring of operand and carry.

namespace Prisma.Decoder

open Emission Machine X86 BitVec

section Rules

variable {Γ : Facts} {cpu : Cpu} {size : OpSize} {lhs rhs value : Ref} {x y : BitVec size.bitWidth}

theorem loadCarry_word (size : OpSize) : Computes Γ cpu (pushRef .loadCarry)
    (word (Bits.carryIn size.bitWidth (carry cpu.regs))) :=
  loadCarry_computes.of_eq (congrArg Value.scalar ((carry_and_one _).trans (word_flag _).symm))

theorem storeCarry_leaves (h : Lookup Γ value (word x)) :
    Leaves Γ cpu (pushStmt (.storeCarry value)) (storeCarry cpu.regs (x.setWidth 64)) :=
  (storeCarry_updates).mono fun _ _ _ ⟨hΔ, hc⟩ => ⟨hΔ, hc ▸ rfl⟩

end Rules

section Does

variable {regs : GuestRegs} {form : RotateForm}

theorem storeCarry_does {c : BitVec form.size.bitWidth}
    (hr : r = (form.rotated regs).setWidth form.size.bitWidth)
    (hc : c.getLsbD 0 = (form.rotated regs).msb) :
    form.Does regs (storeCarry (writeGpr regs form.dst r) (c.setWidth 64)) where
  gpr := by rw [← hr]; rfl
  xmm := rfl
  carry := by rw [← hc]; simp [storeCarry, X86.carry]
  cf := by
    rw [← hc]
    simp [storeCarry]

theorem shiftedBit (hw : 0 < w) (x : BitVec w) (n : Nat) :
    (x >>> n &&& BitVec.ofNat w 1).getLsbD 0 = x.getLsbD n := by
  simp [hw]

theorem count_le : form.count regs ≤ form.size.bitWidth :=
  Nat.le_of_lt_succ (Nat.mod_lt _ (Nat.succ_pos _))

section Rotated

variable {n : Nat} (hn : form.count regs = n) (h0 : 0 < n)

include hn h0

theorem rotated_right (hr : form.right = true) :
    (form.rotated regs).setWidth form.size.bitWidth =
        readGpr regs form.dst form.size >>> n |||
          Bits.carryIn form.size.bitWidth (carry regs) <<< (form.size.bitWidth - n) |||
          readGpr regs form.dst form.size <<< (form.size.bitWidth + 1 - n) ∧
      (form.rotated regs).msb = (readGpr regs form.dst form.size).getLsbD (n - 1) := by
  have hle : n ≤ form.size.bitWidth := hn ▸ count_le
  rw [RotateForm.rotated, if_pos hr, hn]
  exact ⟨Bits.rotateRight_cons_setWidth _ _ h0 hle, Bits.rotateRight_cons_msb _ _ h0 hle⟩

theorem rotated_left (hr : ¬form.right = true) :
    (form.rotated regs).setWidth form.size.bitWidth =
        readGpr regs form.dst form.size <<< n |||
          Bits.carryIn form.size.bitWidth (carry regs) <<< (n - 1) |||
          readGpr regs form.dst form.size >>> (form.size.bitWidth + 1 - n) ∧
      (form.rotated regs).msb =
        (readGpr regs form.dst form.size).getLsbD (form.size.bitWidth - n) := by
  have hle : n ≤ form.size.bitWidth := hn ▸ count_le
  rw [RotateForm.rotated, if_neg hr, hn]
  exact ⟨Bits.rotateLeft_cons_setWidth _ _ h0 hle, Bits.rotateLeft_cons_msb _ _ h0 hle⟩

end Rotated

end Does

section Counts

variable {size : OpSize}

theorem two_pow_bitWidth : 256 ≤ 2 ^ size.bitWidth := by
  cases size <;> decide

theorem shift_ofNat {n : Nat} (h : n < 64) : (BitVec.ofNat size.bitWidth n).toNat % 64 = n := by
  have hp : 256 ≤ 2 ^ size.bitWidth := two_pow_bitWidth
  have hn : n % 2 ^ size.bitWidth = n := Nat.mod_eq_of_lt (by omega)
  rw [toNat_ofNat, hn, Nat.mod_eq_of_lt h]

theorem toNat_sub_ofNat (hm : m < 256) (h : n ≤ m) :
    (BitVec.ofNat size.bitWidth m - BitVec.ofNat size.bitWidth n).toNat = m - n := by
  have hp : 256 ≤ 2 ^ size.bitWidth := two_pow_bitWidth
  have hle : BitVec.ofNat size.bitWidth n ≤ BitVec.ofNat size.bitWidth m := by
    rw [le_def, toNat_ofNat, toNat_ofNat, Nat.mod_eq_of_lt (by omega),
      Nat.mod_eq_of_lt (by omega)]
    exact h
  rw [toNat_sub_of_le hle, toNat_ofNat, toNat_ofNat, Nat.mod_eq_of_lt (by omega),
    Nat.mod_eq_of_lt (by omega)]

end Counts

section ByOne

variable {Γ : Facts} {cpu : Cpu} {form : RotateForm}

theorem emitRclRcrBy1_does (h : form.source = .one) :
    Evaluates Γ cpu (emitRclRcrBy1 form.right form.dst form.size) fun _ _ c =>
      form.Does cpu.regs c.regs := by
  have hn : form.count cpu.regs = 1 := by
    rw [RotateForm.count, h]
    cases form.size <;> rfl
  have hp := form.size.bitWidth_pos
  have hle := form.size.bitWidth_le
  have h1 := @shift_ofNat form.size 1 (by decide)
  have hw := @shift_ofNat form.size (form.size.bitWidth - 1) (by omega)
  refine (loadCarry_word form.size).bind fun cf => ?_
  refine (loadReg_computes form.dst).bind fun x => ?_
  refine (constantNat_computes 1).bind fun one => ?_
  refine (constantNat_computes (form.size.bitWidth - 1)).bind fun wm1 => ?_
  rw [emitRotateBy1]
  split
  case isTrue hr =>
    have ⟨hd, hm⟩ := rotated_right hn Nat.one_pos hr
    simp only [bind_assoc, pure_bind]
    refine (binOp_computes .and rfl).bind fun newCf => ?_
    refine (binOp_computes .shr rfl).bind fun shifted => ?_
    refine (binOp_computes .shl rfl).bind fun cfTop => ?_
    refine (binOp_computes .or rfl).bind fun newDst => ?_
    refine (storeReg_leaves form.dst .here).bind fun _ c hc => ?_
    refine (storeCarry_leaves (.there (.there (.there .here)))).mono fun _ _ c' ⟨_, hc'⟩ => ?_
    rw [hc', hc, setWidth_word, h1, hw]
    refine storeCarry_does ?_ ?_
    case refine_1 =>
      rw [hd, Nat.add_sub_cancel, shiftLeft_eq_zero (Nat.le_refl _), or_zero]
    case refine_2 =>
      have hb := shiftedBit hp (readGpr cpu.regs form.dst form.size) 0
      rw [ushiftRight_zero] at hb
      exact hb.trans hm.symm
  case isFalse hr =>
    have ⟨hd, hm⟩ := rotated_left hn Nat.one_pos hr
    simp only [bind_assoc, pure_bind]
    refine (binOp_computes .shr rfl).bind fun top => ?_
    refine (binOp_computes .and rfl).bind fun newCf => ?_
    refine (binOp_computes .shl rfl).bind fun shifted => ?_
    refine (binOp_computes .or rfl).bind fun newDst => ?_
    refine (storeReg_leaves form.dst .here).bind fun _ c hc => ?_
    refine (storeCarry_leaves (.there (.there .here))).mono fun _ _ c' ⟨_, hc'⟩ => ?_
    rw [hc', hc, setWidth_word, h1, hw]
    refine storeCarry_does ?_ ?_
    case refine_1 =>
      rw [hd, Nat.add_sub_cancel, ushiftRight_eq_zero (Nat.le_refl _), or_zero,
        Nat.sub_self, shiftLeft_zero]
    case refine_2 => exact (shiftedBit hp _ _).trans hm.symm

end ByOne

section ByCount

variable {Γ : Facts} {cpu : Cpu} {size : OpSize} {refs : RotateRefs}
  {cf x count countMinusOne widthMinusCount rotateWidthMinusCount : BitVec size.bitWidth}

-- The refs hold these values.
structure RotateRefs.Hold (Γ : Facts) (refs : RotateRefs)
    (cf x count countMinusOne widthMinusCount rotateWidthMinusCount : BitVec size.bitWidth) :
    Prop where
  cf : Lookup Γ refs.cf (word cf)
  dst : Lookup Γ refs.dst (word x)
  zero : Lookup Γ refs.zero (word (BitVec.ofNat size.bitWidth 0))
  one : Lookup Γ refs.one (word (BitVec.ofNat size.bitWidth 1))
  count : Lookup Γ refs.count (word count)
  countMinusOne : Lookup Γ refs.countMinusOne (word countMinusOne)
  widthMinusCount : Lookup Γ refs.widthMinusCount (word widthMinusCount)
  rotateWidthMinusCount : Lookup Γ refs.rotateWidthMinusCount (word rotateWidthMinusCount)

-- The operand and the carry that the statements compute, where the shifts are modulo 64.
def rotatedBits (isRcr : Bool) {w : Nat}
    (cf x count countMinusOne widthMinusCount rotateWidthMinusCount : BitVec w) :
    BitVec w × BitVec w :=
  if isRcr then
    (x >>> (count.toNat % 64) ||| cf <<< (widthMinusCount.toNat % 64) |||
        (if count == BitVec.ofNat w 1 then BitVec.ofNat w 0
          else x <<< (rotateWidthMinusCount.toNat % 64)),
      x >>> (countMinusOne.toNat % 64) &&& BitVec.ofNat w 1)
  else
    (x <<< (count.toNat % 64) ||| cf <<< (countMinusOne.toNat % 64) |||
        (if count == BitVec.ofNat w 1 then BitVec.ofNat w 0
          else x >>> (rotateWidthMinusCount.toNat % 64)),
      x >>> (widthMinusCount.toNat % 64) &&& BitVec.ofNat w 1)

theorem Evaluates.pure_pair (h : Lookup Γ r v) (h' : Lookup Γ r' v') :
    Evaluates Γ cpu (Pure.pure (r, r')) fun p Δ c => Δ = [(p.1, v), (p.2, v')] ∧ c = cpu :=
  .pure (List.cons_subset.mpr ⟨h.mem, List.cons_subset.mpr ⟨h'.mem, List.nil_subset _⟩⟩) ⟨rfl, rfl⟩

theorem emitRotate_evaluates (isRcr : Bool) (h : refs.Hold Γ cf x count countMinusOne widthMinusCount
    rotateWidthMinusCount) :
    Evaluates Γ cpu (emitRotate isRcr refs size) fun p Δ c =>
      Δ = [(p.1, word (rotatedBits isRcr cf x count countMinusOne widthMinusCount
          rotateWidthMinusCount).1),
        (p.2, word (rotatedBits isRcr cf x count countMinusOne widthMinusCount
          rotateWidthMinusCount).2)] ∧ c.regs = cpu.regs := by
  have ⟨hcf, hdst, hzero, hone, hcount, hcountMinusOne, hwidthMinusCount, hrotate⟩ := h
  cases isRcr
  all_goals
    refine (binOp_computes _ (by rfl)).bind fun shifted => ?_
    refine (binOp_computes .shl rfl).bind fun cfShifted => ?_
    refine (binOp_computes _ (by rfl)).bind fun wrapCandidate => ?_
    rw [emitWrap, bind_assoc]
    refine selectCompared_evaluates .eq cmpFlags_updates inferInstance inferInstance
      fun wrap c hc _ _ => ?_
    refine (binOp_computes .or rfl).bind fun dstWithCf => ?_
    refine (binOp_computes .or rfl).bind fun rotatedDst => ?_
    refine (binOp_computes .shr rfl).bind fun cfCandidateShifted => ?_
    refine (binOp_computes .and rfl).bind fun rotatedCf => ?_
    exact (Evaluates.pure_pair (.there (.there .here)) .here).mono fun _ _ _ ⟨hΔ, h⟩ => ⟨hΔ, h ▸ hc⟩

end ByCount

section Count

variable {size : OpSize} (count : U8)

theorem maskedCount_lt : maskedCount size count < 64 := by
  unfold maskedCount
  split <;> omega

theorem masked_apply : BinOpKind.and.apply ((count.setWidth 64).setWidth size.bitWidth)
    ((((if size = .i64 then 0x3F else 0x1F : U64).setWidth size.bitWidth).setWidth 64).setWidth
      size.bitWidth) = some (BitVec.ofNat size.bitWidth (maskedCount size count)) := by
  revert count
  cases size <;> decide +kernel

theorem reduced_apply : BinOpKind.uMod.apply (BitVec.ofNat size.bitWidth (maskedCount size count))
    (BitVec.ofNat size.bitWidth (size.bitWidth + 1)) =
      some (BitVec.ofNat size.bitWidth (maskedCount size count % (size.bitWidth + 1))) := by
  have hp : 256 ≤ 2 ^ size.bitWidth := two_pow_bitWidth
  have hw := size.bitWidth_le
  have hm := @maskedCount_lt size count
  have hz : BitVec.ofNat size.bitWidth (size.bitWidth + 1) ≠ 0 := by
    intro h
    have h := congrArg BitVec.toNat h
    rw [toNat_ofNat, Nat.mod_eq_of_lt (by omega)] at h
    cases h
  refine (if_neg hz).trans (congrArg some (eq_of_toNat_eq ?_))
  rw [toNat_umod]
  simp only [toNat_ofNat]
  rw [Nat.mod_eq_of_lt (a := maskedCount size count) (by omega),
    Nat.mod_eq_of_lt (a := size.bitWidth + 1) (by omega),
    Nat.mod_eq_of_lt (Nat.lt_of_le_of_lt (Nat.mod_le _ _) (by omega))]

end Count

section Main

variable {Γ : Facts} {cpu : Cpu} {form : RotateForm}

-- The operand and the carry for a reduced count.
def rotatedByCount (isRcr : Bool) {size : OpSize} (cf x : BitVec size.bitWidth) (n : Nat) :
    BitVec size.bitWidth × BitVec size.bitWidth :=
  let count := BitVec.ofNat size.bitWidth n
  rotatedBits isRcr cf x count (count - BitVec.ofNat size.bitWidth 1)
    (BitVec.ofNat size.bitWidth size.bitWidth - count)
    (BitVec.ofNat size.bitWidth (size.bitWidth + 1) - count)

theorem emitRclRcrRegCount_leaves (right : Bool) (dst : Gpr) {count : U8}
    (h : Lookup Γ rawCount (.scalar (count.setWidth 64)))
    (hn : maskedCount size count % (size.bitWidth + 1) = n)
    (hp : rotatedByCount right (Bits.carryIn size.bitWidth (carry cpu.regs))
      (readGpr cpu.regs dst size) n = p) :
    Leaves Γ cpu (emitRclRcrRegCount right dst rawCount size)
      (storeCarry (writeGpr cpu.regs dst
          (if BitVec.ofNat size.bitWidth n == BitVec.ofNat size.bitWidth 0
            then readGpr cpu.regs dst size else p.1))
        ((if BitVec.ofNat size.bitWidth n == BitVec.ofNat size.bitWidth 0
          then Bits.carryIn size.bitWidth (carry cpu.regs) else p.2).setWidth 64)) := by
  refine (loadReg_computes dst).bind fun x => ?_
  rw [emitRclRcrValueCount]
  simp only [bind_assoc, pure_bind]
  refine (loadCarry_word size).bind fun cf => ?_
  refine (constantNat_computes 0).bind fun zero => ?_
  refine (constantNat_computes 1).bind fun one => ?_
  refine (constant_computes _).bind fun mask => ?_
  refine (constantNat_computes size.bitWidth).bind fun width => ?_
  refine (constantNat_computes (size.bitWidth + 1)).bind fun rotateWidth => ?_
  refine (binOp_computes_at .and (masked_apply count)).bind fun maskedCount => ?_
  refine (binOp_computes .uMod (reduced_apply count)).bind fun reduced => ?_
  rw [hn]
  refine (binOp_computes .sub rfl).bind fun countMinusOne => ?_
  refine (binOp_computes .sub rfl).bind fun widthMinusCount => ?_
  refine (binOp_computes .sub rfl).bind fun rotateWidthMinusCount => ?_
  refine Evaluates.bind (emitRotate_evaluates right ⟨.nth 10 rfl, .nth 11 rfl, .nth 9 rfl, .nth 8 rfl,
    .nth 3 rfl, .nth 2 rfl, .nth 1 rfl, .here⟩) fun (rotatedDst, rotatedCf) Δ c ⟨hΔ, hc⟩ => ?_
  rw [rotatedByCount] at hp
  subst hΔ
  rw [hp]
  refine selectCompared_evaluates .eq
    (@cmpFlags_updates _ _ _ _ _ _ _ (.nth 5 rfl) (.nth 11 rfl)) (.nth 13 rfl) .here
    fun finalDst c' hc' hn hz => ?_
  refine (select_computes .eq hn (.nth 13 rfl) (.nth 2 rfl)).bind fun finalCf => ?_
  rw [hz]
  refine (storeReg_leaves dst (.there .here)).bind fun _ c₁ h₁ => ?_
  refine (storeCarry_leaves .here).mono fun _ _ c₂ ⟨hΔ, h₂⟩ => ⟨hΔ, ?_⟩
  rw [h₂, h₁, hc', hc, setWidth_word]
  rfl

section Wrap

variable {size : OpSize} {n : Nat}

theorem ofNat_eq_iff (hm : m < 64) (hn : n < 64) :
    (BitVec.ofNat size.bitWidth n == BitVec.ofNat size.bitWidth m) = decide (n = m) := by
  rw [beq_eq_decide]
  refine decide_eq_decide.mpr ⟨fun h => ?_, fun h => h ▸ rfl⟩
  have h := congrArg (BitVec.toNat · % 64) h
  rwa [shift_ofNat hn, shift_ofNat hm] at h

-- A count of one would shift by the width, which is zero modulo 64.
theorem wrap_eq (h0 : 0 < n) (hn : n < 64) (hle : n ≤ size.bitWidth) (f : Nat → BitVec size.bitWidth)
    (hf : f size.bitWidth = 0) :
    (if BitVec.ofNat size.bitWidth n == BitVec.ofNat size.bitWidth 1 then BitVec.ofNat size.bitWidth 0
      else f ((BitVec.ofNat size.bitWidth (size.bitWidth + 1) -
        BitVec.ofNat size.bitWidth n).toNat % 64)) = f (size.bitWidth + 1 - n) := by
  have hw := size.bitWidth_le
  rw [ofNat_eq_iff (by decide) hn]
  by_cases h1 : n = 1
  case pos =>
    subst h1
    exact hf.symm
  case neg =>
    rw [if_neg (by simpa using h1), toNat_sub_ofNat (by omega) (by omega),
      Nat.mod_eq_of_lt (by omega)]

end Wrap

theorem rotatedByCount_eq (hn : form.count regs = n) (h0 : 0 < n) :
    (rotatedByCount form.right (Bits.carryIn form.size.bitWidth (carry regs))
        (readGpr regs form.dst form.size) n).1 = (form.rotated regs).setWidth form.size.bitWidth ∧
      (rotatedByCount form.right (Bits.carryIn form.size.bitWidth (carry regs))
        (readGpr regs form.dst form.size) n).2.getLsbD 0 = (form.rotated regs).msb := by
  have hle : n ≤ form.size.bitWidth := hn ▸ count_le
  have hw := form.size.bitWidth_le
  have hlt : n < 64 := hn ▸ Nat.lt_of_le_of_lt (Nat.mod_le _ _) (maskedCount_lt _)
  have hcount := @shift_ofNat form.size n hlt
  have hminus : (BitVec.ofNat form.size.bitWidth n - BitVec.ofNat _ 1).toNat % 64 = n - 1 := by
    rw [toNat_sub_ofNat (by omega) h0, Nat.mod_eq_of_lt (by omega)]
  have hwidth : (BitVec.ofNat form.size.bitWidth form.size.bitWidth - BitVec.ofNat _ n).toNat % 64 =
      form.size.bitWidth - n := by
    rw [toNat_sub_ofNat (by omega) hle, Nat.mod_eq_of_lt (by omega)]
  simp only [rotatedByCount, rotatedBits]
  split
  case isTrue hr =>
    have ⟨hd, hm⟩ := rotated_right hn h0 hr
    rw [hcount, hwidth, hminus,
      wrap_eq h0 hlt hle (readGpr regs form.dst form.size <<< ·)
        (shiftLeft_eq_zero (Nat.le_refl _))]
    exact ⟨hd.symm, (shiftedBit form.size.bitWidth_pos _ _).trans hm.symm⟩
  case isFalse hr =>
    have ⟨hd, hm⟩ := rotated_left hn h0 hr
    rw [hcount, hwidth, hminus,
      wrap_eq h0 hlt hle (readGpr regs form.dst form.size >>> ·)
        (ushiftRight_eq_zero (Nat.le_refl _))]
    exact ⟨hd.symm, (shiftedBit form.size.bitWidth_pos _ _).trans hm.symm⟩

theorem rotated_zero (h : form.count regs = 0) :
    (form.rotated regs).setWidth form.size.bitWidth = readGpr regs form.dst form.size ∧
      (form.rotated regs).msb = carry regs := by
  have hr : form.rotated regs = form.ring regs := by
    rw [RotateForm.rotated, h, Bits.rotateRight_zero, Bits.rotateLeft_zero, ite_self]
  rw [hr]
  exact ⟨setWidth_cons, msb_cons⟩

theorem emitRclRcrRegCount_does
    (h : Lookup Γ rawCount (.scalar ((form.source.count cpu.regs).setWidth 64))) :
    Evaluates Γ cpu (emitRclRcrRegCount form.right form.dst rawCount form.size) fun _ _ c =>
      form.Does cpu.regs c.regs := by
  have hlt : form.count cpu.regs < 64 := Nat.lt_of_le_of_lt (Nat.mod_le _ _) (maskedCount_lt _)
  have hn : maskedCount form.size (form.source.count cpu.regs) % (form.size.bitWidth + 1) =
      form.count cpu.regs := rfl
  refine (emitRclRcrRegCount_leaves form.right form.dst h hn rfl).mono fun _ _ c hc => ?_
  replace hc := hc.2
  rw [hc, ofNat_eq_iff (by decide) hlt]
  by_cases h0 : form.count cpu.regs = 0
  case pos =>
    obtain ⟨hd, hm⟩ := rotated_zero h0
    simp only [h0, decide_true, if_true]
    refine storeCarry_does hd.symm (hm ▸ ?_)
    simp [Bits.carryIn, form.size.bitWidth_pos]
  case neg =>
    obtain ⟨hd, hm⟩ := rotatedByCount_eq rfl (Nat.pos_of_ne_zero h0)
    simp only [h0, decide_false, Bool.false_eq_true, if_false]
    exact storeCarry_does hd hm

-- The decoder for a rotation through the carry.
def emitRclRcr (form : RotateForm) : Emit Unit :=
  match form.source with
  | .one => emitRclRcrBy1 form.right form.dst form.size
  | .cl => emitRclRcrCl form.right form.dst form.size
  | .imm8 imm => emitRclRcrImm form.right form.dst imm form.size

theorem emitRclRcr_does (form : RotateForm) (cpu : Cpu) :
    Evaluates [] cpu (emitRclRcr form) fun _ _ c => form.Does cpu.regs c.regs := by
  unfold emitRclRcr
  split
  case h_1 h => exact emitRclRcrBy1_does h
  case h_2 h =>
    refine (loadReg_computes .rcx).bind fun rawCount => ?_
    refine emitRclRcrRegCount_does ?_
    rw [h]
    exact .here
  case h_3 imm h =>
    have himm : word ((imm.setWidth 64).setWidth OpSize.i8.bitWidth) = .scalar (imm.setWidth 64) :=
      congrArg Value.scalar (congrArg (BitVec.setWidth 64) (@setWidth_word .i8 imm))
    refine ((constant_computes _).of_eq himm).bind fun rawCount => ?_
    refine emitRclRcrRegCount_does ?_
    rw [h]
    exact .here

-- Operand and carry are rotated by the count, and a count of zero changes neither.
theorem emitRclRcr_correct (form : RotateForm) (regs : GuestRegs) :
    ∃ stmts regs', emitRclRcr form [] = .ok ((), stmts) ∧
      interpretBlock stmts regs = some (.fallthrough, regs') ∧ form.Does regs regs' ∧
      (form.count regs = 0 → readGpr regs' form.dst form.size = readGpr regs form.dst form.size ∧
        carry regs' = carry regs) := by
  have ⟨_, stmts, _, cpu, hm, hi, hd⟩ := (emitRclRcr_does form (.entry regs)).block
  refine ⟨stmts, cpu.regs, hm, hi, hd, fun h0 => ?_⟩
  have ⟨hr, hc⟩ := rotated_zero h0
  have hw : readGpr cpu.regs form.dst form.size = (form.rotated regs).setWidth _ := by
    rw [readGpr, hd.gpr]
    exact readGpr_writeGpr ..
  exact ⟨hw.trans hr, hd.carry.trans hc⟩

-- `rcr cx, cl` by 18, which is one bit in a ring of 17.
example : (RotateForm.mk true .rcx .i16 .cl).rotated
    { GuestRegs.default with gpr := fun _ => 0x0012, cf := 1 } = 0x8009 := by decide

end Main

end Prisma.Decoder
