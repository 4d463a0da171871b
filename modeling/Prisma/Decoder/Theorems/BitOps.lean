import Prisma.X86.Theorems.Operand
import Prisma.Decoder.Theorems.AluRegister

-- BT, BTS, BTR, BTC and BEXTR of a register.

namespace Prisma

open Decoder X86 Emission Machine BitVec List

namespace X86

inductive BitTest
  | bt | bts | btr | btc
  deriving DecidableEq, Repr

namespace BitTest

def ofNumber (number : BitVec 3) : Option BitTest :=
  match number with
  | 4 => some bt
  | 5 => some bts
  | 6 => some btr
  | 7 => some btc
  | _ => none

-- What becomes of the bit.
def apply (kind : BitTest) (b : Bool) : Bool :=
  match kind with
  | bt => b
  | bts => true
  | btr => false
  | btc => !b

end BitTest

end X86

namespace Decoder

variable {bytes : List U8} {offset cursor : Nat} {prefixes : PrefixSet} {modrm : ModRm}
  {opcode imm b : U8} {insn : Instruction} {kind : BitTest} {pc : U64} {regs : GuestRegs}

-- The new value of the register.
def btValue (kind : BitTest) (x mask : U64) : U64 :=
  match kind with
  | .bt => x
  | .bts => x ||| mask
  | .btr => x &&& (mask ^^^ BitVec.allOnes 64)
  | .btc => x ^^^ mask

theorem getLsbD_btValue (x : U64) (hi : i < 64) (hk : k < 64) :
    (btValue kind x (1#64 <<< k)).getLsbD i =
      if i = k then kind.apply (x.getLsbD i) else x.getLsbD i := by
  cases kind
  all_goals
    simp only [btValue, BitTest.apply, getLsbD_or, getLsbD_and, getLsbD_xor,
      getLsbD_allOnes, Rflags.getLsbD_one_shiftLeft hk, hi]
    by_cases h : i = k <;> simp [h]

theorem and_one_shiftLeft_ne (x : U64) (hk : k < 64) :
    CondCode.ne.compare (x &&& 1#64 <<< k) 0 = x.getLsbD k := by
  rw [CondCode.compare, Bool.eq_iff_iff]
  simpa using and_one_shiftLeft_ne_zero_iff hk

theorem storeReg64_updates [h : Lookup Γ value (.scalar x)] :
    Updates Γ cpu (pushStmt (.storeReg dst value .i64)) { cpu with regs := setGpr cpu.regs dst x } :=
  (storeReg_updates dst).mono fun _ _ _ ⟨hΔ, hc⟩ => ⟨hΔ, hc.trans (by rw [storeReg_eq]; rfl)⟩

theorem emitBtStore_updates {Γ : Facts} {cpu : Cpu} {src mask : Ref} {m : U64} {reg : BitVec 3}
    {dst : Gpr} (hk : BitTest.ofNumber reg = some kind)
    (hs : Lookup Γ src (.scalar (cpu.regs.gpr dst))) (hm : Lookup Γ mask (.scalar m)) :
    Updates Γ cpu (emitBtStore opcode reg (.reg dst) src mask)
      { cpu with regs := setGpr cpu.regs dst (btValue kind (cpu.regs.gpr dst) m) } := by
  unfold BitTest.ofNumber at hk
  split at hk
  case h_1 =>
    cases hk
    refine .pure (nil_subset _) ⟨rfl, ?_⟩
    rw [btValue, setGpr, Function.update_eq_self]
  case h_2 => cases hk; exact (binOp64_computes .or rfl).bind fun _ => storeReg64_updates
  case h_3 =>
    cases hk
    refine (constant64_computes _).bind fun _ => (binOp64_computes .xor rfl).bind fun _ => ?_
    exact (binOp64_computes .and rfl).bind fun _ => storeReg64_updates
  case h_4 => cases hk; exact (binOp64_computes .xor rfl).bind fun _ => storeReg64_updates
  case h_5 => cases hk

theorem toNat_and_63 (imm : U8) : (imm.setWidth 64 &&& 63).toNat % 64 = imm.toNat % 64 := by
  revert imm
  decide +kernel

-- The registers behind the instruction.
def btDone (kind : BitTest) (dst : Gpr) (k : Nat) (regs : GuestRegs) : GuestRegs :=
  storeCarry (setGpr regs dst (btValue kind (regs.gpr dst) (1#64 <<< k)))
    (bit ((regs.gpr dst).getLsbD k))

theorem decodeBtGroupImm8_leaves (hm : parseModrm bytes (cursor + 1) = .ok modrm)
    (hmod : modrm.mod = 3) (hk : BitTest.ofNumber modrm.reg = some kind)
    (himm : readImm bytes (cursor + 1 + 1) 1 = .ok (imm.setWidth 64)) :
    Leaves [] (.entry regs) (decodeBtGroupImm8 prefixes opcode bytes cursor)
      (btDone kind (register prefixes.rex.b modrm.rm) (imm.toNat % 64) regs) := by
  refine .bind_lift hm ?_
  rw [rmOperand_register hmod, pure_bind]
  refine .bind_lift himm ?_
  rw [emitBtOperand, pure_bind]
  refine (loadReg64_computes _).bind fun src => (constant64_computes _).bind fun shift => ?_
  refine (constant64_computes _).bind fun one => (binOp64_computes .shl rfl).bind fun mask => ?_
  refine (binOp64_computes .and rfl).bind fun oldbit => ?_
  rw [toNat_and_63]
  refine (emitBtStore_updates hk (.there (.there (.there (.there .here)))) (.there .here)).bind
    fun _ => ?_
  refine (constant64_computes 0).bind fun zeroRef => ?_
  refine (compare64_yields .ne).bind fun cf => ?_
  refine Updates.bind storeCarry_updates fun _ => ?_
  refine Updates.bind cmpFlags_updates fun _ => ?_
  refine .pure (nil_subset _) ⟨rfl, ?_⟩
  exact congrArg (fun b => storeCarry (setGpr _ _ _) (Prisma.bit b))
    (and_one_shiftLeft_ne _ (Nat.mod_lt _ (by decide)))

theorem getLsbD_storeCarry_bit (hr : regs.rflags.getLsbD 1 = true) (c : Bool) (i : Nat) :
    (storeCarry regs (bit c)).rflags.getLsbD i = if i = 0 then c else regs.rflags.getLsbD i := by
  by_cases h0 : i = 0
  case pos => subst h0; cases c <;> simp [storeCarry, bit]
  case neg =>
    by_cases h1 : i = 1
    case pos => subst h1; cases c <;> simp [storeCarry, bit, hr]
    case neg => rw [if_neg h0, getLsbD_storeCarry _ h0 h1]

-- The tested bit goes to CF and is left, set, cleared or complemented, and nothing else changes.
theorem decodeOneAt_bitTest_correct (hi : instructionAt bytes offset = some insn)
    (ho : insn.opcode = 0x0F) (ho2 : bytes[insn.cursor + 1]? = some 0xBA)
    (hb : bytes[insn.cursor + 2]? = some b) (hmod : (ModRm.ofByte b).mod = 3)
    (hk : BitTest.ofNumber (ModRm.ofByte b).reg = some kind)
    (himm : bytes[insn.cursor + 3]? = some imm) (pc : U64) (regs : GuestRegs)
    (hr : regs.rflags.getLsbD 1 = true) :
    let dst := register insn.prefixes.rex.b (ModRm.ofByte b).rm
    let k := imm.toNat % 64
    ∃ d regs', decodeOneAt bytes offset pc = .ok d ∧
      interpretBlock d.stmts regs = some (.fallthrough, regs') ∧
      (∀ i < 64, (regs'.gpr dst).getLsbD i = if i = k then kind.apply ((regs.gpr dst).getLsbD i)
        else (regs.gpr dst).getLsbD i) ∧
      (∀ r ≠ dst, regs'.gpr r = regs.gpr r) ∧ regs'.xmm = regs.xmm ∧
      ∀ i, regs'.rflags.getLsbD i =
        if i = 0 then (regs.gpr dst).getLsbD k else regs.rflags.getLsbD i := by
  intro dst k
  have himm := readImm_of_byteAt (byteAt_eq_ok.mpr himm)
  have he : Leaves [] (.entry regs) (decodeInstruction insn bytes offset pc)
      (btDone kind dst k regs) := by
    rw [decodeInstruction, ho]
    refine .bind_lift (byteAt_eq_ok.mpr ho2) ?_
    refine (decodeBtGroupImm8_leaves (parseModrm_eq_ok.mpr ⟨b, hb, rfl⟩) hmod hk himm).bind ?_
    exact fun _ _ hc => .pure (nil_subset _) ⟨rfl, hc⟩
  obtain ⟨d, hd, hrun⟩ := he.instruction hi
  refine ⟨d, btDone kind dst k regs, hd, hrun, fun i hi => ?_,
    fun r hne => Function.update_of_ne hne .., rfl,
    @getLsbD_storeCarry_bit (setGpr regs _ _) hr _⟩
  change (Function.update regs.gpr dst _ dst).getLsbD i = _
  rw [Function.update_self, getLsbD_btValue _ hi (Nat.mod_lt _ (by decide))]

-- `btc rax, 65` complements bit 1.
theorem decodeOneAt_bitTest_correct_btc :
    ∃ d regs', decodeOneAt [0x48, 0x0F, 0xBA, 0xF8, 0x41] 0 0x1000 = .ok d ∧
      interpretBlock d.stmts { GuestRegs.default with gpr := fun _ => 3 } =
        some (.fallthrough, regs') ∧
      (regs'.gpr .rax).getLsbD 1 = false ∧ regs'.rflags.getLsbD 0 = true := by
  have ⟨d, regs', hd, hrun, hg, _, _, hf⟩ := @decodeOneAt_bitTest_correct
    [0x48, 0x0F, 0xBA, 0xF8, 0x41] 0 0x41 0xF8 ⟨{ rex := .ofByte 0x48 }, 1, 0x0F⟩ .btc rfl rfl
    rfl rfl (by decide) rfl rfl 0x1000 { GuestRegs.default with gpr := fun _ => 3 } rfl
  exact ⟨d, regs', hd, hrun, hg 1 (by decide), hf 0⟩

section Bextr

variable {Γ : Facts} {cpu : Cpu} {size : OpSize} {src start len : Ref}
  {x s l : BitVec size.bitWidth}

-- The field as the statements compute it.
def bextrField (x s l : BitVec size.bitWidth) : BitVec size.bitWidth :=
  if size.bitWidth ≤ s.toNat then 0
  else x >>> (s.toNat % 64) &&&
    if size.bitWidth ≤ l.toNat then BitVec.allOnes _ else 1#_ <<< (l.toNat % 64) - 1#_

theorem getLsbD_bextrField (hi : i < size.bitWidth) :
    (bextrField x s l).getLsbD i = (decide (i < l.toNat) && x.getLsbD (s.toNat + i)) := by
  have hw := size.bitWidth_le
  have hm : (if size.bitWidth ≤ l.toNat then BitVec.allOnes _
      else 1#(size.bitWidth) <<< (l.toNat % 64) - 1#_).getLsbD i = decide (i < l.toNat) := by
    split
    case isTrue h => simp [hi, show i < l.toNat by omega]
    case isFalse h => rw [Nat.mod_eq_of_lt (by omega), Bits.getLsbD_one_shiftLeft_sub (by omega)]
  by_cases hs : size.bitWidth ≤ s.toNat
  case pos =>
    rw [bextrField, if_pos hs, getLsbD_of_ge x (s.toNat + i) (by omega), Bool.and_false]
    exact getLsbD_zero
  case neg =>
    rw [bextrField, if_neg hs, getLsbD_and, hm, getLsbD_ushiftRight,
      Nat.mod_eq_of_lt (by omega), Bool.and_comm]

theorem emitBextrField_evaluates (hx : Lookup Γ src (word x)) (hs : Lookup Γ start (word s))
    (hl : Lookup Γ len (word l)) :
    Evaluates Γ cpu (emitBextrField src start len size) fun r Δ c =>
      Δ = [(r, word (bextrField x s l))] ∧ c.regs = cpu.regs := by
  have hall : word (size.mask.setWidth size.bitWidth) = word (BitVec.allOnes size.bitWidth) := by
    cases size <;> rfl
  have hw : (BitVec.ofNat size.bitWidth size.bitWidth).toNat = size.bitWidth := by
    cases size <;> rfl
  have huge (v : BitVec size.bitWidth) :
      CondCode.uge.compare v (BitVec.ofNat _ size.bitWidth) = decide (size.bitWidth ≤ v.toNat) := by
    rw [CondCode.compare, ule_eq_decide, hw]
  refine (binOp_computes .shr rfl).bind fun shifted => ?_
  refine (constantNat_computes 1).bind fun one => ?_
  refine (binOp_computes .shl rfl).bind fun maskPlusOne => ?_
  refine (binOp_computes .sub rfl).bind fun maskCandidate => ?_
  refine ((constant_computes _).of_eq hall).bind fun allOnes => ?_
  refine (constantNat_computes size.bitWidth).bind fun width => ?_
  refine selectCompared_evaluates .uge (compare_yields .uge).updates inferInstance inferInstance
    fun mask c hc _ _ => ?_
  refine (binOp_computes .and rfl).bind fun masked => ?_
  refine (constantNat_computes 0).bind fun none => ?_
  rw [← bind_pure (pushRef (.select ..))]
  refine selectCompared_evaluates .uge (compare_yields .uge).updates inferInstance inferInstance
    fun r c' hc' _ _ => ?_
  refine .pure (cons_subset_cons _ (nil_subset _)) ⟨?_, hc'.trans hc⟩
  simp only [huge, decide_eq_true_eq]
  rfl

theorem pushPreservedFlagRef_computes {shift : U64}
    (hk : (shift.setWidth OpSize.i64.bitWidth).toNat % 64 = k) :
    Computes Γ cpu (pushPreservedFlagRef shift)
      (.scalar (bit ((cpu.regs.rflags ||| 2).getLsbD k))) := by
  have hl : Computes Γ cpu (pushRef .loadRflags)
      (word (w := OpSize.i64.bitWidth) (cpu.regs.rflags ||| 2#64)) :=
    loadRflags_computes.of_eq (congrArg Value.scalar (setWidth_eq _).symm)
  exact hl.bind fun rflags => pushShiftedBitRef_computes .here hk

theorem storeRflagsFromBits_updates {zf sf of : Ref} {z s o : U64} (hz : Lookup Γ zf (.scalar z))
    (hs : Lookup Γ sf (.scalar s)) (ho : Lookup Γ of (.scalar o)) :
    Updates Γ cpu (pushStmt (.storeRflagsFromBits none none zf sf of))
      (cpu.persist (storeRflagsFromBits cpu.regs none none z s o)) :=
  pushStmt_updates .none fun n s hk => by
    simp only [evalOp, Option.map_none, hk.vals hz, hk.vals hs, hk.vals ho]

theorem pushResultFlagBits_evaluates (hr : Lookup Γ result (word x)) (hc : Lookup Γ cf (.scalar c)) :
    Evaluates Γ cpu (pushResultFlagBits result size cf true) fun _ _ cpu' =>
      cpu'.regs.gpr = cpu.regs.gpr := by
  refine (constant_computes 0).bind fun _ => (compare_yields .eq).bind fun zf => ?_
  rw [if_pos rfl]
  refine (pushPreservedFlagRef_computes rfl).bind fun sf => (constant_computes 0).bind fun of => ?_
  refine Updates.bind storeCarry_updates fun _ => ?_
  refine (storeRflagsFromBits_updates (.there (.there .here)) (.there .here) .here).mono ?_
  exact fun _ _ _ ⟨_, hc⟩ => hc ▸ rfl

section Instruction

variable {bytes : List U8} {offset cursor : Nat} {pc : U64} {regs : GuestRegs} {prefixes : PrefixSet}
  {vex : VexPrefix} {opcode b : U8} {modrm : ModRm}

theorem decodeVexBmi1Bextr_evaluates (prefixes : PrefixSet) (opcode : U8) (regs : GuestRegs)
    (hm : parseModrm bytes (cursor + 1) = .ok modrm)
    (hl : vex.l = false) (hpp : vex.pp = 0) (hmod : modrm.mod = 3) :
    Evaluates [] (.entry regs) (decodeVexBmi1Bextr prefixes vex opcode bytes cursor) fun _ _ cpu =>
      let size := vexOperandSize vex
      let control := readGpr regs (register (vex.vvvv.getLsbD 3) (vex.vvvv.setWidth 3)) size
      let byte (v : BitVec size.bitWidth) := (v.setWidth 8).setWidth size.bitWidth
      cpu.regs.gpr = (writeGpr regs (register vex.r modrm.reg) (bextrField
        (readGpr regs (register vex.b modrm.rm) size) (byte control) (byte (control >>> 8)))).gpr := by
  have hreq : requireVexLzNp vex opcode = .ok () := by rw [requireVexLzNp, hl, hpp]; rfl
  refine .bind_lift hreq (.bind_lift hm ?_)
  rw [loadVexRm, loadRm_register hmod, bind_assoc]
  refine (loadReg_computes _).bind fun src => ?_
  rw [pure_bind, mapVexReg, mapReg_eq, mapReg_eq]
  refine (loadReg_computes _).bind fun control => ?_
  refine (constant_computes _).bind fun lowByteMask => ?_
  refine (binOp_computes .and (congrArg some (and_byte _))).bind fun start => ?_
  refine (constant_computes _).bind fun eight => (binOp_computes .shr rfl).bind fun lenShifted => ?_
  refine (binOp_computes .and (congrArg some (and_byte _))).bind fun len => ?_
  refine (emitBextrField_evaluates inferInstance inferInstance inferInstance).bind
    fun result Δ c ⟨hΔ, hc⟩ => ?_
  subst hΔ
  refine (storeReg_updates _).bind fun _ => (constant_computes _).bind fun cf => ?_
  refine (pushResultFlagBits_evaluates (.there .here) .here).bind fun _ _ c' hc' => ?_
  refine .pure (nil_subset _) ?_
  have h8 (size : OpSize) : ((8 : U64).setWidth size.bitWidth).toNat % 64 = 8 := by
    cases size <;> rfl
  rw [hc', storeReg_word, hc, h8]
  rfl

theorem toNat_controlByte {w k : Nat} (c : U64) (hk : k + 8 ≤ w) (hw : w ≤ 64) :
    (((c.setWidth w >>> k).setWidth 8).setWidth w).toNat = (c.extractLsb' k 8).toNat := by
  have hb : (c.setWidth w >>> k).setWidth 8 = c.extractLsb' k 8 := by
    apply eq_of_getLsbD_eq
    intro i hi
    simp [hi, show k + i < w by omega]
  have hlt : 2 ^ 8 ≤ 2 ^ w := Nat.pow_le_pow_right (by decide) (by omega)
  rw [hb, toNat_setWidth, Nat.mod_eq_of_lt (by omega)]

-- BEXTR of two registers stores the field, where the bits behind the operand are zero.
theorem decodeOneAt_bextr_correct (hp : parsePrefixes bytes offset = (prefixes, cursor))
    (hv : prefixes.vex = some vex) (hany : prefixes.any = false) (hmap : vex.mmmm = 2)
    (hl : vex.l = false) (hpp : vex.pp = 0) (ho : bytes[cursor]? = some 0xF7)
    (hb : bytes[cursor + 1]? = some b) (hmod : (ModRm.ofByte b).mod = 3) (pc : U64)
    (regs : GuestRegs) :
    let size : OpSize := if vex.w then .i64 else .i32
    let src := readGpr regs (register vex.b (ModRm.ofByte b).rm) size
    let control := regs.gpr (register (vex.vvvv.getLsbD 3) (vex.vvvv.setWidth 3))
    ∃ d regs' field, decodeOneAt bytes offset pc = .ok d ∧
      interpretBlock d.stmts regs = some (.fallthrough, regs') ∧
      regs'.gpr = (@writeGpr regs (register vex.r (ModRm.ofByte b).reg) size field).gpr ∧
      ∀ i < size.bitWidth, field.getLsbD i = (decide (i < (control.extractLsb' 8 8).toNat) &&
        src.getLsbD ((control.extractLsb' 0 8).toNat + i)) := by
  intro size src control
  have hd : decodeOpcode prefixes 0xF7 bytes cursor (pc + BitVec.ofNat 64 (cursor - offset)) =
      decodeVexBmi1Bextr prefixes vex 0xF7 bytes cursor := by
    rw [decodeOpcode, hv, Option.isSome_some, if_pos rfl, decodeVex, hv]
    simp only [hany, hmap]
    rfl
  have ⟨consumed, stmts, _, cpu, hm, hrun, hg⟩ := (decodeVexBmi1Bextr_evaluates prefixes 0xF7 regs
    (parseModrm_eq_ok.mpr ⟨b, hb, rfl⟩) hl hpp hmod).block
  rw [← hd] at hm
  refine ⟨_, cpu.regs, _, decodeOneAt_of_decodeOpcode hp ho hm, hrun, hg, fun i hi => ?_⟩
  have hw : 16 ≤ size.bitWidth := by
    change 16 ≤ (if vex.w then OpSize.i64 else .i32).bitWidth
    cases vex.w <;> decide
  have hstart := toNat_controlByte (w := size.bitWidth) (k := 0) control (by omega) size.bitWidth_le
  rw [ushiftRight_zero] at hstart
  exact (getLsbD_bextrField hi).trans <| congrArg₂ (fun l s => decide (i < l) && src.getLsbD (s + i))
    (toNat_controlByte control (by omega) size.bitWidth_le) hstart

-- `bextr eax, ebx, ecx` of 8 bits from bit 28 on.
theorem decodeOneAt_bextr_correct_eax :
    ∃ d regs' field, decodeOneAt [0xC4, 0xE2, 0x70, 0xF7, 0xC3] 0 0x1000 = .ok d ∧
      interpretBlock d.stmts { GuestRegs.default with gpr := fun _ => 0x8100081C } =
        some (.fallthrough, regs') ∧
      regs'.gpr .rax = BitVec.setWidth 64 (field : BitVec 32) ∧ field.getLsbD 3 = true ∧
      field.getLsbD 4 = false := by
  have ⟨d, regs', field, hd, hrun, hg, hf⟩ := @decodeOneAt_bextr_correct
    [0xC4, 0xE2, 0x70, 0xF7, 0xC3] 0 3 { vex := some (.ofBytes 0xE2 0x70) } (.ofBytes 0xE2 0x70) 0xC3
    rfl rfl rfl (by decide) rfl (by decide) rfl rfl (by decide) 0x1000
    { GuestRegs.default with gpr := fun _ => 0x8100081C }
  exact ⟨d, regs', field, hd, hrun, congrFun hg .rax, hf 3 (by decide), hf 4 (by decide)⟩

end Instruction

end Bextr

end Decoder

end Prisma
