import Prisma.X86.Theorems.Operand
import Prisma.X86.Theorems.Shift
import Prisma.Decoder.Theorems.Alu

-- SHL, SHR and SAR of a register.

namespace Prisma.Decoder

open Emission Machine X86 Option

variable {bytes : List U8} {offset : Nat} {pc : U64} {regs : GuestRegs} {form : ShiftForm}
  {insn : Instruction} {modrm : ModRm} {size : OpSize} {source : CountSource}

-- A register with the number 4. The decoder skips a byte behind it, as if that were a SIB byte.
def SkipsByte : Operand → Prop
  | .low reg _ => reg = .rsp ∨ reg = .r12
  | .highByte number => number = 0

-- The low 6 bits of the count are those that x86 takes, or the lower one of the two counts shifts
-- everything out. A high byte is taken for the low byte of another register, so that neither shift
-- may change its operand.
def RightCount (form : ShiftForm) (regs : GuestRegs) (count : U8) : Prop :=
  let masked := maskedCount form.dst.size (form.source.count regs)
  match form.dst with
  | .low reg size =>
    let x := readGpr regs reg size
    count.toNat % 64 = masked ∨ form.kind.apply x (min (count.toNat % 64) masked) = form.kind.out x
  | .highByte number =>
    let x := readGpr regs (register false (number.setWidth 3 ||| 4)) .i8
    let high := (Operand.highByte number).read regs
    (count.toNat % 64 = 0 ∨ x = form.kind.out x) ∧ (masked = 0 ∨ high = form.kind.out high)

section Operations

def ShiftKind.op (kind : ShiftKind) : BinOpKind :=
  match kind with
  | .shl => .shl
  | .shr => .shr
  | .sar => .sar

theorem group2Op_of_ofNumber {opcode : U8} {reg : BitVec 3} {kind : ShiftKind}
    (h : ShiftKind.ofNumber reg = some kind) :
    ¬(reg = 2 ∨ reg = 3) ∧ group2Op opcode reg = .ok (ShiftKind.op kind) := by
  unfold ShiftKind.ofNumber at h
  split at h <;> cases h <;> exact ⟨by decide, rfl⟩

theorem op_apply (kind : ShiftKind) (x : BitVec size.bitWidth) (count : U8) :
    (ShiftKind.op kind).apply x ((count.setWidth 64).setWidth size.bitWidth) =
      some (kind.apply x (count.toNat % 64)) := by
  have hw : 8 ≤ size.bitWidth := by cases size <;> decide
  have hc : ((count.setWidth 64).setWidth size.bitWidth).toNat = count.toNat := by
    have h := count.isLt
    have h64 : 2 ^ 8 ≤ 2 ^ size.bitWidth := Nat.pow_le_pow_right (by decide) hw
    simp only [BitVec.toNat_setWidth]
    rw [Nat.mod_eq_of_lt (by omega), Nat.mod_eq_of_lt (by omega)]
  cases kind <;> rw [ShiftKind.op, BinOpKind.apply, hc] <;> rfl

theorem Computes.with_length (h : Computes Γ cpu m v) (hv : v = v') (n : Nat) :
    Evaluates Γ cpu (do let r ← m; return (r, n)) fun p Δ cpu' =>
      Δ = [(p.1, v')] ∧ cpu' = cpu := by
  refine Computes.bind h fun count => ?_
  exact .pure (List.cons_subset_cons _ (List.nil_subset _)) ⟨by rw [hv], rfl⟩

theorem emitShiftCount_evaluates
    (h : shiftSource prefixes opcode bytes[immOffset]? = some (size, source)) :
    Evaluates Γ cpu (emitShiftCount opcode bytes immOffset) fun p Δ cpu' =>
      Δ = [(p.1, word (source.count cpu.regs))] ∧ cpu' = cpu := by
  have hk (imm : U8) : word ((imm.setWidth 64).setWidth OpSize.i8.bitWidth) = word imm := by
    simp [OpSize.bitWidth]
  unfold shiftSource at h
  split at h
  case h_1 | h_2 =>
    obtain ⟨imm, hi, h⟩ := map_eq_some_iff.mp h
    cases h
    exact .bind_lift (byteAt_eq_ok.mpr hi) (Computes.with_length (constant_computes _) (hk imm) 1)
  case h_3 | h_4 => cases h; exact Computes.with_length (constant_computes 1) rfl 0
  case h_5 | h_6 => cases h; exact Computes.with_length (loadReg_computes .rcx) rfl 0
  case h_7 => cases h

end Operations

section Decode

theorem shiftSource_eq_some (h : shiftSource prefixes opcode imm = some (size, source)) :
    opcode ∈ [0xC0, 0xC1, 0xD0, 0xD1, 0xD2, 0xD3] ∧ size = group2Size prefixes opcode := by
  unfold shiftSource at h
  split at h
  case h_1 | h_2 =>
    obtain ⟨_, _, h⟩ := map_eq_some_iff.mp h
    cases h
    exact ⟨by decide, by simp [group2Size, wordSize_eq]⟩
  case h_7 => cases h
  all_goals cases h; exact ⟨by decide, by simp [group2Size, wordSize_eq]⟩

theorem shiftFormAt_eq_some (h : shiftFormAt bytes offset = some (form, stop)) :
    ∃ insn modrm kind source size, instructionAt bytes offset = some insn ∧
      parseModrm bytes (insn.cursor + 1) = .ok modrm ∧ modrm.mod = 3 ∧
      ShiftKind.ofNumber modrm.reg = some kind ∧
      shiftSource insn.prefixes insn.opcode bytes[insn.cursor + 2]? = some (size, source) ∧
      form = ⟨kind, .ofField insn.prefixes insn.prefixes.rex.b modrm.rm size, source⟩ ∧
      stop = insn.cursor + 2 + source.length := by
  simp only [shiftFormAt, bind_eq_bind, bind_eq_some_iff, map_eq_map,
    map_eq_some_iff] at h
  have ⟨insn, hi, modrm, ⟨b, hb, hm⟩, ⟨size, source⟩, hs, kind, hk, h⟩ := h
  split at h
  case isFalse => cases h
  case isTrue hmod =>
    cases h
    exact ⟨insn, modrm, kind, source, size, hi, parseModrm_eq_ok.mpr ⟨b, hb, hm.symm⟩, hmod, hk, hs,
      rfl, rfl⟩

theorem decodeInstruction_group2 (h : insn.opcode ∈ [0xC0, 0xC1, 0xD0, 0xD1, 0xD2, 0xD3]) :
    decodeInstruction insn bytes offset pc =
      decodeGroup2 insn.prefixes insn.opcode bytes insn.cursor := by
  obtain ⟨prefixes, cursor, opcode⟩ := insn
  simp only [List.mem_cons, List.not_mem_nil, or_false] at h
  rcases h with h | h | h | h | h | h <;> cases h <;> rfl

theorem skipsByte_iff (hi : instructionAt bytes offset = some insn) (field : BitVec 3)
    (size : OpSize) :
    SkipsByte (.ofField insn.prefixes insn.prefixes.rex.b field size) ↔ field = 4 := by
  have hlow : ∀ (extension : Bool) (field : BitVec 3),
      register extension field = .rsp ∨ register extension field = .r12 ↔ field = 4 := by decide
  have hhigh : ∀ number : BitVec 2, number = 0 ↔ number.setWidth 3 ||| 4 = (4 : BitVec 3) := by
    decide
  cases Operand.ofField_cases hi insn.prefixes.rex.b field size with
  | inl h =>
    rw [h]
    exact hlow ..
  | inr h =>
    have ⟨number, h, _, hn, _⟩ := h
    rw [h, hn]
    exact hhigh number

theorem shiftSource_replace
    (hs : shiftSource prefixes opcode bytes[cursor]? = some (size, source)) :
    (∃ b, bytes[cursor]? = some b) ∧
      shiftSource prefixes opcode bytes[cursor + 1]? = some (size', source') ↔
    ∃ imm, bytes[cursor + source.length]? = some imm ∧ size' = size ∧
      source' = source.replace imm := by
  unfold shiftSource at hs ⊢
  split at hs
  case h_7 => cases hs
  case h_1 | h_2 =>
    obtain ⟨imm, hi, h⟩ := map_eq_some_iff.mp hs
    cases h
    simp [hi, CountSource.length, CountSource.replace, eq_comm]
  all_goals
    cases hs
    simp [CountSource.length, CountSource.replace, eq_comm]

theorem decodeGroup2_leaves {prefixes : PrefixSet} {opcode : U8} {cursor n : Nat} {kind : ShiftKind}
    (hm : parseModrm bytes (cursor + 1) = .ok modrm) (hmod : modrm.mod = 3)
    (hk : ShiftKind.ofNumber modrm.reg = some kind)
    (hn : bytesForModrm modrm bytes (cursor + 1) = .ok n)
    (hs : shiftSource prefixes opcode bytes[cursor + 1 + n]? = some (size, source)) :
    Leaves [] (.entry regs) (decodeGroup2 prefixes opcode bytes cursor)
      (writeGpr regs (register prefixes.rex.b modrm.rm)
        (kind.apply (readGpr regs (register prefixes.rex.b modrm.rm) size)
          ((source.count regs).toNat % 64))) := by
  have ⟨hr, hop⟩ := @group2Op_of_ofNumber opcode _ _ hk
  have ⟨_, hsize⟩ := shiftSource_eq_some hs
  rw [decodeGroup2, ← hsize]
  refine .bind_lift hm (.bind_lift hn ?_)
  rw [if_neg hr]
  refine .bind_lift hop ?_
  refine (emitShiftCount_evaluates hs).bind fun ⟨shift, extraBytes⟩ Δ cpu ⟨hΔ, hc⟩ => ?_
  subst hΔ hc
  dsimp only
  rw [rmOperand_register hmod, pure_bind]
  refine (loadReg_computes (register prefixes.rex.b modrm.rm)).bind fun value => ?_
  refine Computes.bind (binOp_computes_at _ (op_apply kind _ _)) fun result => ?_
  refine (storeReg_leaves _ .here).bind fun _ cpu hc => ?_
  refine .pure (List.nil_subset _) ⟨rfl, ?_⟩
  rw [hc, setWidth_word, setWidth_word]
  rfl

theorem emitShiftCount_eq_ok (prefixes : PrefixSet)
    (h : emitShiftCount opcode bytes immOffset stmts = .ok r) :
    ∃ size source, shiftSource prefixes opcode bytes[immOffset]? = some (size, source) := by
  unfold emitShiftCount at h
  split at h
  case h_1 | h_2 =>
    obtain ⟨imm, hi, _⟩ := lift_bind_eq_ok.mp h
    rw [byteAt_eq_ok.mp hi]
    exact ⟨_, _, rfl⟩
  case h_7 => cases h
  all_goals exact ⟨_, _, rfl⟩

theorem shiftSource_of_decodeGroup2 (hm : parseModrm bytes (insn.cursor + 1) = .ok modrm)
    (hk : ShiftKind.ofNumber modrm.reg = some kind)
    (h : decodeGroup2 insn.prefixes insn.opcode bytes insn.cursor [] = .ok r) :
    ∃ n size source, bytesForModrm modrm bytes (insn.cursor + 1) = .ok n ∧
      shiftSource insn.prefixes insn.opcode bytes[insn.cursor + 1 + n]? = some (size, source) := by
  rw [decodeGroup2, lift_bind_eq_ok] at h
  have ⟨_, hm', h⟩ := h
  cases hm.symm.trans hm'
  have ⟨n, hn, h⟩ := lift_bind_eq_ok.mp h
  rw [if_neg (@group2Op_of_ofNumber insn.opcode _ _ hk).left] at h
  have ⟨op, _, h⟩ := lift_bind_eq_ok.mp h
  have ⟨_, _, hs, _⟩ := bind_eq_ok.mp h
  have ⟨size, source, hs⟩ := emitShiftCount_eq_ok insn.prefixes hs
  exact ⟨n, size, source, hn, hs⟩

end Decode

section Main

theorem rightCount_iff {count : U8} (hi : instructionAt bytes offset = some insn)
    (hf : form = ⟨kind, .ofField insn.prefixes insn.prefixes.rex.b field size, source⟩) :
    (writeGpr regs (register insn.prefixes.rex.b field)
      (kind.apply (readGpr regs (register insn.prefixes.rex.b field) size) (count.toNat % 64))).gpr =
        (form.shifted regs).gpr ↔ RightCount form regs count := by
  cases Operand.ofField_cases hi insn.prefixes.rex.b field size with
  | inl h =>
    rw [h] at hf
    subst hf
    exact (writeGpr_inj ..).trans (ShiftKind.apply_eq_iff ..)
  | inr h =>
    have ⟨number, h, hs, hn, hrex⟩ := h
    have hne : ∀ number : BitVec 2,
        register false (number.setWidth 3 ||| 4) ≠ Operand.highByteReg number := by decide
    rw [h] at hf
    subst hf hs
    rw [hrex, hn]
    refine (Operand.write_low_eq_write_highByte regs number (hne number) _ _).trans ?_
    exact and_congr (ShiftKind.apply_eq_self_iff ..) (ShiftKind.apply_eq_self_iff ..)

theorem decodeOneAt_shift (hi : instructionAt bytes offset = some insn)
    (hm : parseModrm bytes (insn.cursor + 1) = .ok modrm) (hmod : modrm.mod = 3)
    (hk : ShiftKind.ofNumber modrm.reg = some kind)
    (hs : shiftSource insn.prefixes insn.opcode bytes[insn.cursor + 2]? = some (size, source))
    (hf : form = ⟨kind, .ofField insn.prefixes insn.prefixes.rex.b modrm.rm size, source⟩)
    (pc : U64) (regs : GuestRegs) :
    (∃ d regs', decodeOneAt bytes offset pc = .ok d ∧
      interpretBlock d.stmts regs = some (.fallthrough, regs') ∧
      regs'.gpr = (form.shifted regs).gpr) ↔
    ∃ n size' source', bytesForModrm modrm bytes (insn.cursor + 1) = .ok n ∧
      shiftSource insn.prefixes insn.opcode bytes[insn.cursor + 1 + n]? = some (size', source') ∧
      RightCount form regs (source'.count regs) := by
  have ⟨ho, hsize⟩ := shiftSource_eq_some hs
  -- what the decoder does with the count that it finds
  have hd {n size' source'} (hn : bytesForModrm modrm bytes (insn.cursor + 1) = .ok n)
      (hs' : shiftSource insn.prefixes insn.opcode bytes[insn.cursor + 1 + n]? =
        some (size', source')) :
      ∃ d regs', decodeOneAt bytes offset pc = .ok d ∧
        interpretBlock d.stmts regs = some (.fallthrough, regs') ∧
        (regs'.gpr = (form.shifted regs).gpr ↔ RightCount form regs (source'.count regs)) := by
    have ⟨_, hsize'⟩ := shiftSource_eq_some hs'
    cases hsize.trans hsize'.symm
    have he := @decodeGroup2_leaves _ regs _ _ _ _ _ _ _ _ hm hmod hk hn hs'
    rw [← @decodeInstruction_group2 bytes offset pc _ ho] at he
    have ⟨d, _, _, cpu, hd, hr, _, hregs⟩ := Evaluates.instruction hi he
    refine ⟨d, _, hd, hr, ?_⟩
    rw [hregs]
    exact rightCount_iff hi hf
  constructor
  case mp =>
    intro ⟨d, regs', hok, hr, hg⟩
    have ⟨r, hr'⟩ := decodeInstruction_of_decodeOneAt hi hok
    rw [decodeInstruction_group2 ho] at hr'
    have ⟨n, size', source', hn, hs'⟩ := shiftSource_of_decodeGroup2 hm hk hr'
    have ⟨d', regs'', hok', hr'', hg'⟩ := hd hn hs'
    cases hok.symm.trans hok'
    cases hr.symm.trans hr''
    exact ⟨n, size', source', hn, hs', hg'.mp hg⟩
  case mpr =>
    intro ⟨n, size', source', hn, hs', hright⟩
    have ⟨d, regs', hok, hr, hg⟩ := hd hn hs'
    exact ⟨d, regs', hok, hr, hg.mpr hright⟩

-- The shift is right if the bits of the count that x86 cuts off make no difference. Behind RSP, R12
-- and AH there has to be one more byte, which the decoder takes for the immediate.
theorem decodeOneAt_shift_iff (h : shiftFormAt bytes offset = some (form, stop)) (pc : U64)
    (regs : GuestRegs) :
    (∃ d regs', decodeOneAt bytes offset pc = .ok d ∧
      interpretBlock d.stmts regs = some (.fallthrough, regs') ∧
      regs'.gpr = (form.shifted regs).gpr) ↔
    (¬SkipsByte form.dst ∧ RightCount form regs (form.source.count regs) ∨
      SkipsByte form.dst ∧ ∃ imm, bytes[stop]? = some imm ∧
        RightCount form regs ((form.source.replace imm).count regs)) := by
  obtain ⟨insn, modrm, kind, source, size, hi, hm, hmod, hk, hs, hf, hstop⟩ := shiftFormAt_eq_some h
  have hskip : SkipsByte form.dst ↔ modrm.rm = 4 := by
    rw [hf]
    exact skipsByte_iff hi ..
  have hsource : form.source = source := by rw [hf]
  rw [decodeOneAt_shift hi hm hmod hk hs hf, hskip, hsource, hstop]
  by_cases h4 : modrm.rm = 4
  case neg =>
    have hn : bytesForModrm modrm bytes (insn.cursor + 1) = .ok 1 := by
      rw [bytesForModrm, hmod, if_neg h4]
      rfl
    simp only [h4, not_false_eq_true, true_and, false_and, or_false]
    simp [hn, hs]
  case pos =>
    have hn (n : Nat) : bytesForModrm modrm bytes (insn.cursor + 1) = .ok n ↔
        (∃ b, bytes[insn.cursor + 2]? = some b) ∧ n = 2 := by
      rw [bytesForModrm, hmod, if_pos h4]
      cases h : bytes[insn.cursor + 2]? with
      | none => simp [byteAt, h, Bind.bind, Except.bind]
      | some b => simp [byteAt, h, Bind.bind, Except.bind, Pure.pure, Except.pure, eq_comm]
    constructor
    case mp =>
      rintro ⟨n, size', source', hn', hs', hr⟩
      obtain ⟨hb, rfl⟩ := (hn n).mp hn'
      obtain ⟨imm, himm, _, hsource'⟩ := (shiftSource_replace hs).mp ⟨hb, hs'⟩
      exact .inr ⟨h4, imm, himm, hsource' ▸ hr⟩
    case mpr =>
      intro h
      obtain ⟨_, imm, himm, hr⟩ := h.resolve_left fun h => h.left h4
      obtain ⟨hb, hs'⟩ := (shiftSource_replace hs).mpr ⟨imm, himm, rfl, rfl⟩
      exact ⟨2, size, _, (hn 2).mpr ⟨hb, rfl⟩, hs', hr⟩

-- `shl eax, cl` by 31.
theorem decodeOneAt_shift_iff_shl :
    ∃ d regs', decodeOneAt [0xD3, 0xE0] 0 0x1000 = .ok d ∧
      interpretBlock d.stmts { GuestRegs.default with
        gpr := fun r => if r = .rcx then 0x1F else 3 } = some (.fallthrough, regs') ∧
      regs'.gpr .rax = 0x80000000 := by
  have hform : shiftFormAt [0xD3, 0xE0] 0 = some (⟨.shl, .low .rax .i32, .cl⟩, 2) := rfl
  have ⟨d, regs', hd, hr, hg⟩ := (decodeOneAt_shift_iff hform 0x1000 { GuestRegs.default with
    gpr := fun r => if r = .rcx then 0x1F else 3 }).mpr
      (.inl ⟨by simp [SkipsByte], .inl (by decide)⟩)
  exact ⟨d, regs', hd, hr, by rw [hg]; decide⟩

-- `shl eax, cl` by 32 leaves EAX as it is.
theorem decodeOneAt_not_shift :
    ¬∀ (bytes : List U8) (offset : Nat) (form : ShiftForm) (stop : Nat) (pc : U64)
      (regs : GuestRegs), shiftFormAt bytes offset = some (form, stop) →
      ∃ d regs', decodeOneAt bytes offset pc = .ok d ∧
        interpretBlock d.stmts regs = some (.fallthrough, regs') ∧
        regs'.gpr = (form.shifted regs).gpr := by
  intro h
  have ⟨d, regs', hd, hr, hg⟩ := h [0xD3, 0xE0] 0 ⟨.shl, .low .rax .i32, .cl⟩ 2 0x1000
    { GuestRegs.default with gpr := fun r => if r = .rcx then 32 else 1 } rfl
  cases hd
  have hr := congrArg (Option.map fun r => r.2.gpr .rax) hr
  rw [map_some, hg] at hr
  revert hr
  decide

end Main

end Prisma.Decoder
