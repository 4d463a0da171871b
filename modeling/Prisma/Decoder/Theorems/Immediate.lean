import Prisma.Decoder.Theorems.Layout
import Prisma.Decoder.Theorems.Scope

-- Where the decoders read their immediates.

namespace Prisma.Decoder

open Emission

-- The literal of a statement as the encoding holds it: branches are relative to the next
-- instruction, and RET releases eight bytes more than its immediate says.
def literal (next : U64) : Op → Option U64
  | .constant value _ => some value
  | .jumpRel target | .callRel target _ | .condJumpRel _ target _ => some (target - next)
  | .retAdjusted amount => some (amount - 8)
  | _ => none

def SameBytes (n : Nat) (v w : U64) : Prop :=
  ∀ i < 8 * n, v.getLsbD i = w.getLsbD i

-- The statement has the `n` bytes at `offset` as its literal.
def HoldsImmediate (next : U64) (bytes : List U8) (offset n : Nat) (s : Stmt) : Prop :=
  ∃ imm value, readImm bytes offset n = .ok imm ∧ literal next s.op = some value ∧
    SameBytes n value imm

variable (prefixes : PrefixSet) (opcode : U8) (bytes : List U8) (cursor : Nat) (opcodeGuestPc : U64)
  (modrm : ModRm)

section Values

variable {bytes : List U8} {cursor offset n : Nat}

theorem SameBytes.refl {v : U64} : SameBytes n v v :=
  fun _ _ => rfl

theorem sameBytes_signExtendImm32 (imm : U64) : SameBytes 4 (signExtendImm32 imm) imm := by
  intro i hi
  have h₃₂ : i < 32 := hi
  have h₆₄ : i < 64 := by omega
  rw [signExtendImm32, BitVec.getLsbD_signExtend]
  simp [h₃₂, h₆₄]

theorem sameBytes_signExtend (b : U8) : SameBytes 1 (b.signExtend 64) (b.setWidth 64) := by
  intro i hi
  have h₈ : i < 8 := hi
  have h₆₄ : i < 64 := by omega
  rw [BitVec.getLsbD_signExtend]
  simp [h₈, h₆₄]

theorem sameBytes_signExtendImm8ToSize (imm : U64) (size : OpSize) :
    SameBytes 1 (signExtendImm8ToSize (imm.setWidth 8) size) imm := by
  intro i hi
  have h₈ : i < 8 := hi
  cases size
  all_goals
    simp only [signExtendImm8ToSize, BitVec.getLsbD_signExtend, BitVec.getLsbD_setWidth]
    simp [h₈, show i < 16 by omega, show i < 32 by omega, show i < 64 by omega]

theorem bytesForModrm_eq {modrm : ModRm} (hm : parseModrm bytes cursor = .ok modrm)
    (hn : bytesForModrm modrm bytes cursor = .ok n) :
    n = rmLengthAt bytes cursor + registerSibAt bytes cursor := by
  have ⟨b, hb, hmodrm⟩ := parseModrm_eq_ok.mp hm
  have hat : modrmAt bytes cursor = some modrm := by simp [modrmAt, hb, hmodrm]
  simp only [rmLengthAt, registerSibAt, hat]
  exact bytesForModrm_eq_ok _ _ hn

variable {next : U64} {Γ : List Ref}

theorem pushRef_holds {imm value : U64} {size : OpSize} (h : readImm bytes offset n = .ok imm)
    (hv : SameBytes n value imm) :
    Pushes Γ (HoldsImmediate next bytes offset n) (pushRef (.constant value size)) :=
  .fresh_push fun _ => ⟨imm, value, h, rfl, hv⟩

theorem pushStmt_holds (h : readImm bytes offset n = .ok imm) (hop : literal next op = some value)
    (hv : SameBytes n value imm) : Pushes Γ (HoldsImmediate next bytes offset n) (pushStmt op) :=
  .push ⟨imm, value, h, hop, hv⟩

end Values

attribute [local simp] Op.operandRefs Op.secondResult

section Alu

variable {next : U64}

theorem sameBytes_fullImm {size : OpSize} {imm : U64} {c : Prop} [Decidable c]
    (hc : c → size = .i64) :
    SameBytes (fullImmBytes size) (if c then signExtendImm32 imm else imm) imm := by
  split
  case isTrue h => rw [hc h]; exact sameBytes_signExtendImm32 imm
  case isFalse => exact .refl

instance decodeAccImm_holds :
    PushesSpec (HoldsImmediate next bytes (cursor + 1)
        ((if isAccImmByte opcode then Immediate.b else .z).length prefixes.rex.w
          prefixes.operandOverride address reg))
      (decodeAccImm prefixes opcode bytes cursor) where
  pushes := by
    rw [← accImmBytes_eq]
    refine .bind_lift fun _ _ => .bind_lift fun imm himm => .skip fun _ => ?_
    refine .here (pushRef_holds himm ?_)
    by_cases h : isAccImmByte opcode
    case pos => simp [h, SameBytes.refl]
    case neg =>
      simp only [accImmBytes, if_neg h]
      exact sameBytes_fullImm fun h' => by simpa [h] using h'

theorem aluRmImm_sameBytes {n offset : Nat} {imm : U64} (hn : aluRmImmBytes prefixes opcode = .ok n)
    (h : aluRmImm prefixes opcode bytes offset n = .ok imm) :
    ∃ imm', readImm bytes offset n = .ok imm' ∧ SameBytes n imm imm' := by
  unfold aluRmImm at h
  split at h
  case isTrue h83 =>
    subst h83
    cases hn
    cases hb : byteAt bytes offset with
    | error e => rw [hb] at h; cases h
    | ok b =>
      rw [hb] at h
      cases h
      exact ⟨_, readImm_of_byteAt hb, sameBytes_signExtend b⟩
  case isFalse h83 =>
    cases hr : readImm bytes offset n with
    | error e => rw [hr] at h; cases h
    | ok imm' =>
      rw [hr] at h
      cases h
      refine ⟨imm', rfl, ?_⟩
      by_cases h81 : opcode = 0x81
      case pos =>
        subst h81
        cases hn
        exact sameBytes_fullImm And.right
      case neg => simp only [h81, false_and, if_false]; exact .refl

instance decodeAluRmImm_holds :
    PushesSpec (HoldsImmediate next bytes
        (cursor + 1 + (rmLengthAt bytes (cursor + 1) + registerSibAt bytes (cursor + 1)))
        ((if opcode = 0x81 then Immediate.z else .b).length prefixes.rex.w
          prefixes.operandOverride address reg))
      (decodeAluRmImm prefixes opcode bytes cursor opcodeGuestPc) where
  pushes := by
    refine .bind_lift fun modrm hm => .bind_lift fun used hu => .bind_lift fun n hn => ?_
    refine .bind_lift fun imm himm => ?_
    rw [← bytesForModrm_eq hm hu, ← aluRmImmBytes_eq hn]
    have ⟨imm', hr, hs⟩ := aluRmImm_sameBytes _ _ _ hn himm
    exact .here (pushRef_holds hr hs)

instance decodeImulImm_holds :
    PushesSpec (HoldsImmediate next bytes
        (cursor + 1 + (rmLengthAt bytes (cursor + 1) + registerSibAt bytes (cursor + 1)))
        (imulImmBytes prefixes opcode))
      (decodeImulImm prefixes opcode bytes cursor) where
  pushes := by
    refine .bind_lift fun modrm hm => .bind_lift fun used hu => .bind_lift fun imm himm => ?_
    rw [← bytesForModrm_eq hm hu]
    refine .skip fun ⟨lhs, used⟩ => .here (pushRef_holds himm ?_)
    unfold imulImmValue imulImmBytes
    split
    case isTrue => exact sameBytes_signExtendImm8ToSize _ _
    case isFalse => exact sameBytes_fullImm id

theorem decodeGroup3Test_holds {size : OpSize}
    (hm : parseModrm bytes (cursor + 1) = .ok modrm) :
    Pushes [] (HoldsImmediate next bytes
        (cursor + 1 + (rmLengthAt bytes (cursor + 1) + registerSibAt bytes (cursor + 1)))
        (if opcode = 0xF6 then 1 else fullImmBytes size))
      (decodeGroup3Test prefixes opcode bytes cursor modrm size) := by
  refine .bind_lift fun used hu => .bind_lift fun imm himm => ?_
  rw [← bytesForModrm_eq hm hu]
  refine .here (pushRef_holds himm ?_)
  by_cases h : opcode = 0xF6
  case pos => simp [h, SameBytes.refl]
  case neg =>
    simp only [if_neg h]
    exact sameBytes_fullImm And.right

theorem decodeGroup3_holds
    (hpos : 0 < (if opcode = 0xF6 then Immediate.testB else .testZ).length prefixes.rex.w
      prefixes.operandOverride prefixes.addrOverride (regAt bytes (cursor + 1))) :
    Pushes [] (HoldsImmediate next bytes
        (cursor + 1 + (rmLengthAt bytes (cursor + 1) +
          if decide (regAt bytes (cursor + 1) = 0) then registerSibAt bytes (cursor + 1) else 0))
        ((if opcode = 0xF6 then Immediate.testB else .testZ).length prefixes.rex.w
          prefixes.operandOverride prefixes.addrOverride (regAt bytes (cursor + 1))))
      (decodeGroup3 prefixes opcode bytes cursor) := by
  refine .bind_lift fun modrm hm => ?_
  have ⟨b, hb, hmodrm⟩ := parseModrm_eq_ok.mp hm
  have hreg : regAt bytes (cursor + 1) = modrm.reg := by simp [regAt, modrmAt, hb, hmodrm]
  rw [hreg] at hpos ⊢
  by_cases h₀ : modrm.reg = 0
  case pos =>
    simp only [h₀, decide_true, if_true, length_test]
    exact decodeGroup3Test_holds prefixes opcode bytes cursor modrm hm
  case neg =>
    by_cases h₁ : modrm.reg = 1
    case pos =>
      simp only [h₁]
      exact .throw
    case neg =>
      rw [length_test_of_ne opcode h₀ h₁] at hpos
      exact absurd hpos (Nat.lt_irrefl 0)

end Alu

section Move

variable {next : U64}

instance decodeMovMoffs_holds :
    PushesSpec (HoldsImmediate next bytes (cursor + 1) (moffsBytes prefixes))
      (decodeMovMoffs prefixes opcode bytes cursor) where
  pushes := by
    refine .bind_lift fun _ _ => .bind_lift fun _ _ => .bind_lift fun imm himm => ?_
    exact .here (pushRef_holds himm .refl)

instance decodeMovRi_holds :
    PushesSpec (HoldsImmediate next bytes (cursor + 1)
        (Immediate.length prefixes.rex.w prefixes.operandOverride address reg .v))
      (decodeMovRi prefixes opcode bytes cursor) where
  pushes := by
    rw [← movRiBytes_eq]
    exact .bind_lift fun imm himm => .here (pushRef_holds himm .refl)

instance decodeMovR8I8_holds :
    PushesSpec (HoldsImmediate next bytes (cursor + 1) 1)
      (decodeMovR8I8 prefixes opcode bytes cursor) where
  pushes := by
    exact .bind_lift fun imm himm => .here (pushRef_holds (readImm_of_byteAt himm) .refl)

instance decodeMovRmImm_holds :
    PushesSpec (HoldsImmediate next bytes
        (cursor + 1 + (rmLengthAt bytes (cursor + 1) + registerSibAt bytes (cursor + 1)))
        ((if opcode = 0xC7 then Immediate.z else .b).length prefixes.rex.w
          prefixes.operandOverride address reg))
      (decodeMovRmImm prefixes opcode bytes cursor) where
  pushes := by
    refine .bind_lift fun _ _ => .bind_lift fun modrm hm => .bind_lift fun _ _ => ?_
    refine .bind_lift fun used hu => .bind_lift fun n hn => .bind_lift fun imm himm => ?_
    rw [← bytesForModrm_eq hm hu, ← movRmImmBytes_eq hn]
    refine .here (pushRef_holds himm ?_)
    split
    case isTrue h =>
      rw [h.right, h.left] at hn
      cases hn
      exact sameBytes_signExtendImm32 imm
    case isFalse => exact .refl

theorem pushImm_sameBytes (h : pushImm prefixes opcode bytes cursor = .ok imm) :
    ∃ imm', readImm bytes (cursor + 1) (pushImmBytes prefixes opcode) = .ok imm' ∧
      SameBytes (pushImmBytes prefixes opcode) imm imm' := by
  unfold pushImm at h
  split at h
  case isTrue h6A =>
    have hn : pushImmBytes prefixes opcode = 1 := if_pos h6A
    cases hb : byteAt bytes (cursor + 1) with
    | error e => rw [hb] at h; cases h
    | ok b =>
      rw [hb] at h
      cases h
      rw [hn]
      exact ⟨_, readImm_of_byteAt hb, sameBytes_signExtend b⟩
  case isFalse =>
    cases hr : readImm bytes (cursor + 1) (pushImmBytes prefixes opcode) with
    | error e => rw [hr] at h; cases h
    | ok imm' =>
      rw [hr] at h
      cases h
      refine ⟨imm', rfl, ?_⟩
      split
      case isTrue h4 => rw [h4]; exact sameBytes_signExtendImm32 imm'
      case isFalse => exact .refl

theorem decodePushImm_holds (hw : prefixes.rex.w → prefixes.rex.present) (address : Bool)
    (reg : BitVec 3) :
    Pushes [] (HoldsImmediate next bytes (cursor + 1)
        ((if opcode = 0x6A then Immediate.b else .z).length prefixes.rex.w
          prefixes.operandOverride address reg))
      (decodePushImm prefixes opcode bytes cursor) := by
  refine .bind_lift fun _ hrej => .bind_lift fun imm himm => ?_
  have hrex : prefixes.rex.present = false := by
    have := rejectIf_eq_ok.mp hrej
    simp only [PrefixSet.rexLockSegment, Bool.or_eq_false_iff] at this
    exact this.left.left
  rw [← pushImmBytes_eq (by simpa [hrex] using hw)]
  have ⟨imm', hr, hs⟩ := pushImm_sameBytes _ _ _ _ himm
  exact .here (pushRef_holds hr hs)

end Move

section Shift

variable {next : U64} {Γ : List Ref} {opcode}

theorem emitShiftCount_holds {offset : Nat} (h : opcode = 0xC0 ∨ opcode = 0xC1) :
    Pushes Γ (HoldsImmediate next bytes offset 1) (emitShiftCount opcode bytes offset) := by
  unfold emitShiftCount
  cases h with
  | inl h =>
    subst h
    exact .bind_lift fun b hb => .here (pushRef_holds (readImm_of_byteAt hb) .refl)
  | inr h =>
    subst h
    exact .bind_lift fun b hb => .here (pushRef_holds (readImm_of_byteAt hb) .refl)

theorem emitRclRcrImm_holds (hb : byteAt bytes offset = .ok b) :
    Pushes Γ (HoldsImmediate next bytes offset 1) (emitRclRcrImm isRcr dstReg b size) :=
  .here (pushRef_holds (readImm_of_byteAt hb) .refl)

theorem decodeGroup2RclRcr_holds {used : Nat} {size : OpSize} (h : opcode = 0xC0 ∨ opcode = 0xC1) :
    Pushes [] (HoldsImmediate next bytes (cursor + 1 + used) 1)
      (decodeGroup2RclRcr prefixes opcode bytes cursor modrm used size) := by
  have hD : ¬(opcode = 0xD0 ∨ opcode = 0xD1) ∧ ¬(opcode = 0xD2 ∨ opcode = 0xD3) := by
    obtain rfl | rfl := h <;> decide
  unfold decodeGroup2RclRcr
  simp only [hD.left, hD.right, h, false_and, true_and, if_false]
  split
  case isTrue =>
    exact .bind_lift fun b hb => .here (emitRclRcrImm_holds _ hb)
  case isFalse =>
    refine .skip fun ⟨addr, _⟩ => .skip fun _ => ?_
    exact .here (emitShiftCount_holds _ h)

theorem decodeGroup2_holds (h : opcode = 0xC0 ∨ opcode = 0xC1) :
    Pushes [] (HoldsImmediate next bytes
        (cursor + 1 + (rmLengthAt bytes (cursor + 1) + registerSibAt bytes (cursor + 1))) 1)
      (decodeGroup2 prefixes opcode bytes cursor) := by
  refine .bind_lift fun modrm hm => .bind_lift fun used hu => ?_
  rw [← bytesForModrm_eq hm hu]
  split
  case isTrue => exact decodeGroup2RclRcr_holds _ _ _ _ h
  case isFalse =>
    refine .bind_lift fun _ _ => ?_
    exact .here (emitShiftCount_holds _ h)

end Shift

section Control

variable {Γ : List Ref} {bytes opcodeGuestPc} {offset : Nat} {rel : U64}

theorem readRel8_sameBytes (h : readRel8 bytes offset = .ok rel) :
    ∃ imm, readImm bytes offset 1 = .ok imm ∧ SameBytes 1 rel imm := by
  unfold readRel8 at h
  cases hb : byteAt bytes offset with
  | error e => rw [hb] at h; cases h
  | ok b =>
    rw [hb] at h
    cases h
    exact ⟨_, readImm_of_byteAt hb, sameBytes_signExtend b⟩

theorem readRel32_sameBytes (h : readRel32 bytes offset = .ok rel) :
    ∃ imm, readImm bytes offset 4 = .ok imm ∧ SameBytes 4 rel imm := by
  unfold readRel32 at h
  cases hr : readImm bytes offset 4 with
  | error e => rw [hr] at h; cases h
  | ok imm =>
    rw [hr] at h
    cases h
    exact ⟨imm, rfl, sameBytes_signExtendImm32 imm⟩

theorem relative_eq (len : U64) :
    addSignedDisp (addSignedDisp opcodeGuestPc len) rel - (opcodeGuestPc + len) = rel := by
  rw [addSignedDisp_eq, addSignedDisp_eq, BitVec.add_comm _ rel, BitVec.add_sub_cancel]

theorem pushStmt_relative (h : ∃ imm, readImm bytes offset n = .ok imm ∧ SameBytes n rel imm)
    (hop : literal (opcodeGuestPc + len) op =
      some (addSignedDisp (addSignedDisp opcodeGuestPc len) rel - (opcodeGuestPc + len))) :
    Pushes Γ (HoldsImmediate (opcodeGuestPc + len) bytes offset n) (pushStmt op) := by
  have ⟨imm, hr, hs⟩ := h
  exact pushStmt_holds hr (hop.trans (congrArg some (relative_eq len))) hs

instance decodeCondJumpRel8_holds :
    PushesSpec (HoldsImmediate (opcodeGuestPc + 2) bytes (cursor + 1) 1)
      (decodeCondJumpRel8 bytes cursor opcodeGuestPc) where
  pushes := by
    refine .bind_lift fun _ _ => .bind_lift fun _ _ => .bind_lift fun rel hrel => ?_
    exact .here (pushStmt_relative (readRel8_sameBytes hrel) rfl)

instance decodeCondJumpRel32_holds :
    PushesSpec (HoldsImmediate (opcodeGuestPc + 6) bytes (cursor + 2) 4)
      (decodeCondJumpRel32 opcode bytes cursor opcodeGuestPc) where
  pushes := by
    refine .bind_lift fun _ _ => .bind_lift fun rel hrel => ?_
    exact .here (pushStmt_relative (readRel32_sameBytes hrel) rfl)

instance decodeCallRel32_holds :
    PushesSpec (HoldsImmediate (opcodeGuestPc + 5) bytes (cursor + 1) 4)
      (decodeCallRel32 bytes cursor opcodeGuestPc) where
  pushes := by
    refine .bind_lift fun rel hrel => ?_
    exact .here (pushStmt_relative (readRel32_sameBytes hrel) rfl)

instance decodeJumpRel8_holds :
    PushesSpec (HoldsImmediate (opcodeGuestPc + 2) bytes (cursor + 1) 1)
      (decodeJumpRel8 bytes cursor opcodeGuestPc) where
  pushes := by
    refine .bind_lift fun rel hrel => ?_
    exact .here (pushStmt_relative (readRel8_sameBytes hrel) rfl)

instance decodeJumpRel32_holds :
    PushesSpec (HoldsImmediate (opcodeGuestPc + 5) bytes (cursor + 1) 4)
      (decodeJumpRel32 bytes cursor opcodeGuestPc) where
  pushes := by
    refine .bind_lift fun rel hrel => ?_
    exact .here (pushStmt_relative (readRel32_sameBytes hrel) rfl)

instance decodeJrcxzRel8_holds :
    PushesSpec (HoldsImmediate (opcodeGuestPc + 2) bytes (cursor + 1) 1)
      (decodeJrcxzRel8 prefixes bytes cursor opcodeGuestPc) where
  pushes := by
    refine .bind_lift fun _ _ => .bind_lift fun rel hrel => ?_
    refine .skip fun _ => .skip fun _ => .skip fun _ => ?_
    exact .here (pushStmt_relative (readRel8_sameBytes hrel) rfl)

instance decodeLoopRel8_holds :
    PushesSpec (HoldsImmediate (opcodeGuestPc + 2) bytes (cursor + 1) 1)
      (decodeLoopRel8 prefixes bytes cursor opcodeGuestPc) where
  pushes := by
    refine .bind_lift fun _ _ => .bind_lift fun rel hrel => ?_
    refine .skip fun _ => .skip fun _ => .skip fun _ => ?_
    refine .skip fun _ => .skip fun _ => .skip fun _ => ?_
    exact .here (pushStmt_relative (readRel8_sameBytes hrel) rfl)

instance decodeRetImm16_holds :
    PushesSpec (HoldsImmediate next bytes (cursor + 1) 2) (decodeRetImm16 prefixes bytes cursor) where
  pushes := by
    refine .bind_lift fun _ _ => .bind_lift fun imm himm => ?_
    exact .here (pushStmt_holds himm (by simp [literal]) .refl)

end Control

-- The forms of 0F BA keep the bit index within the operand.
def HoldsBitIndex (bytes : List U8) (offset : Nat) (s : Stmt) : Prop :=
  ∃ imm, readImm bytes offset 1 = .ok imm ∧ s.op = .constant (imm &&& 63) .i64

instance decodeBtGroupImm8_holds :
    PushesSpec (HoldsBitIndex bytes (cursor + 1 + rmLengthAt bytes (cursor + 1)))
      (decodeBtGroupImm8 prefixes opcode bytes cursor) where
  pushes := by
    refine .bind_lift fun modrm hm => .skip_run (by simp) fun stmts ⟨operand, used⟩ stmts' h => ?_
    have ⟨b, hb, hmodrm⟩ := parseModrm_eq_ok.mp hm
    have hat : modrmAt bytes (cursor + 1) = some modrm := by simp [modrmAt, hb, hmodrm]
    have ⟨_, hu, _⟩ := (@rmOperand_reads 0 prefixes (cursor + 1) modrm).reads (Nat.zero_le _) bytes
      trivial _ _ _ h
    have hlen : rmLengthAt bytes (cursor + 1) = used := by
      simp only [rmLengthAt, hat]
      exact hu.left.symm
    rw [hlen]
    refine .bind_lift fun imm himm => .skip fun dst => .skip (fun _ => ?_) (by simp +contextual)
    exact .here (.fresh_push fun _ => ⟨imm, himm, rfl⟩)

-- ENTER allocates the frame that its first immediate gives, and accepts only a zero second one.
def HoldsFrame (bytes : List U8) (offset : Nat) (s : Stmt) : Prop :=
  ∃ imm, readImm bytes offset 2 = .ok imm ∧ readImm bytes (offset + 2) 1 = .ok 0 ∧
    (s.op = .rspAdjust (-imm) ∨ imm = 0)

instance decodeEnter_holds :
    PushesSpec (HoldsFrame bytes (cursor + 1)) (decodeEnter prefixes bytes cursor) where
  pushes := by
    refine .bind_lift fun _ _ => .bind_lift fun imm himm => .bind_lift fun nesting hn => ?_
    refine .bind_lift fun _ h0 => ?_
    have hn : readImm bytes (cursor + 3) 1 = .ok 0 := by
      have h0 : nesting = 0 := by simpa using h0
      rw [readImm_of_byteAt hn, h0]
      rfl
    by_cases h : imm = 0
    case pos => exact .here (.fresh_push fun _ => ⟨imm, himm, hn, .inr h⟩)
    case neg =>
      refine .skip fun _ => .skip fun _ => .skip fun _ => ?_
      refine .skip fun _ => .skip fun _ => ?_
      refine .here ?_ (by simp)
      rw [emitAllocFrame, if_neg h]
      exact .push ⟨imm, himm, hn, .inl rfl⟩

section Dispatch

inductive ImmediateUse
  | literal | bitIndex | frame | ignored

-- INT and the port instructions trap whatever their immediate is.
def OneByteOpcode.immediateUse : OneByteOpcode → ImmediateUse
  | enter => .frame
  | intImm8 | ioTrapImm8 => .ignored
  | _ => .literal

def TwoByteOpcode.immediateUse : TwoByteOpcode → ImmediateUse
  | btGroup => .bitIndex
  | _ => .literal

-- The statement has been made from the `n` bytes at `offset`.
def Carries (next : U64) (bytes : List U8) (offset n : Nat) : ImmediateUse → Stmt → Prop
  | .literal => HoldsImmediate next bytes offset n
  | .bitIndex => HoldsBitIndex bytes offset
  | .frame => HoldsFrame bytes offset
  | .ignored => fun _ => True

-- The bytes before the immediate, as the decoders count them.
def operandBytes (format : Format) (countsSib : Bool) (bytes : List U8) (offset : Nat) : Nat :=
  rmBytes format bytes offset + if countsSib then registerSibAt bytes offset else 0

variable {prefixes opcode}

theorem decodeOneByteOpcode_carries (hw : prefixes.rex.w → prefixes.rex.present) {format : Format}
    (hf : oneByteFormat opcode = some format)
    (hpos : 0 < immLength prefixes format bytes (cursor + 1)) :
    Pushes []
      (Carries (opcodeGuestPc + BitVec.ofNat 64
          (1 + operandLength prefixes format bytes (cursor + 1))) bytes
        (cursor + 1 + operandBytes format ((classifyOneByte opcode).countsSib
          prefixes.operandOverride (regAt bytes (cursor + 1))) bytes (cursor + 1))
        (immLength prefixes format bytes (cursor + 1)) (classifyOneByte opcode).immediateUse)
      (decodeOneByteOpcode prefixes opcode bytes cursor opcodeGuestPc) := by
  have hc := format_classifyOneByte opcode
  rw [hf] at hc
  unfold decodeOneByteOpcode
  cases hop : classifyOneByte opcode
  all_goals simp only [hop, OneByteOpcode.format, reduceCtorEq, false_or] at hc
  case unsupported => exact .throw
  all_goals obtain rfl := Option.some.inj hc
  case accImm => exact (decodeAccImm_holds prefixes opcode bytes cursor).pushes
  case aluRmImm | aluRmImm8 =>
    exact (decodeAluRmImm_holds prefixes opcode bytes cursor opcodeGuestPc).pushes
  case imulRmImm =>
    have hlen : immLength prefixes ⟨true, .z⟩ bytes (cursor + 1) = imulImmBytes prefixes 0x69 :=
      (imulImmBytes_eq prefixes prefixes.addrOverride (regAt bytes (cursor + 1))).symm
    rw [hlen]
    exact (decodeImulImm_holds prefixes 0x69 bytes cursor).pushes
  case imulRmImm8 => exact (decodeImulImm_holds prefixes 0x6B bytes cursor).pushes
  case movRmImm => exact (decodeMovRmImm_holds prefixes opcode bytes cursor).pushes
  case movRI => exact (decodeMovRi_holds prefixes opcode bytes cursor).pushes
  case movR8I8 => exact (decodeMovR8I8_holds prefixes opcode bytes cursor).pushes
  case pushImm => exact decodePushImm_holds prefixes opcode bytes cursor hw _ _
  case movMoffsToAcc | movAccToMoffs =>
    exact (decodeMovMoffs_holds prefixes opcode bytes cursor).pushes
  case retImm16 => exact (decodeRetImm16_holds prefixes cursor).pushes
  case enter => exact (decodeEnter_holds prefixes bytes cursor).pushes
  case condJumpRel8 => exact .bind_lift fun _ _ => (decodeCondJumpRel8_holds cursor).pushes
  case callRel32 => exact .bind_lift fun _ _ => (decodeCallRel32_holds cursor).pushes
  case jumpRel8 => exact .bind_lift fun _ _ => (decodeJumpRel8_holds cursor).pushes
  case jumpRel32 => exact .bind_lift fun _ _ => (decodeJumpRel32_holds cursor).pushes
  case jrcxzRel8 => exact (decodeJrcxzRel8_holds prefixes cursor).pushes
  case loopRel8 => exact (decodeLoopRel8_holds prefixes cursor).pushes
  case intImm8 | ioTrapImm8 =>
    exact .bind_lift fun _ _ => .bind_lift fun _ _ => .here (.push trivial)
  case group2 =>
    by_cases h : opcode = 0xC0 ∨ opcode = 0xC1
    case pos =>
      have hlen : immLength prefixes ⟨true, if opcode = 0xC0 ∨ opcode = 0xC1 then .b else .none⟩
          bytes (cursor + 1) = 1 := by
        simp only [immLength, if_pos h]
        rfl
      rw [hlen]
      exact decodeGroup2_holds prefixes bytes cursor h
    case neg =>
      simp only [immLength, if_neg h] at hpos
      exact absurd hpos (Nat.lt_irrefl 0)
  case group3 => exact decodeGroup3_holds prefixes opcode bytes cursor hpos
  all_goals try exact absurd hpos (Nat.lt_irrefl 0)

theorem decodeTwoByteOpcode_carries {op2 : U8} {format : Format} (hf : twoByteFormat op2 = some format)
    (hpos : 0 < immLength prefixes format bytes (cursor + 2)) :
    Pushes []
      (Carries (opcodeGuestPc + BitVec.ofNat 64
          (2 + operandLength prefixes format bytes (cursor + 2))) bytes
        (cursor + 2 + operandBytes format ((classifyTwoByte op2).countsSib
          (regAt bytes (cursor + 2))) bytes (cursor + 2))
        (immLength prefixes format bytes (cursor + 2)) (classifyTwoByte op2).immediateUse)
      (decodeTwoByteOpcode prefixes bytes cursor opcodeGuestPc op2) := by
  have hc := format_classifyTwoByte op2
  rw [hf] at hc
  unfold decodeTwoByteOpcode
  cases hop : classifyTwoByte op2
  all_goals simp only [hop, TwoByteOpcode.format, reduceCtorEq, false_or] at hc
  case unsupported => exact .throw
  all_goals obtain rfl := Option.some.inj hc
  case btGroup => exact (decodeBtGroupImm8_holds prefixes op2 bytes (cursor + 1)).pushes
  case condJumpRel32 =>
    dsimp only
    split
    case isTrue => exact .throw
    case isFalse => exact (decodeCondJumpRel32_holds op2 cursor).pushes
  all_goals try exact absurd hpos (Nat.lt_irrefl 0)

end Dispatch

section Instruction

variable {bytes} {offset : Nat} {pc : U64} {d : Decoded} {l : Layout}

def immediateUse (bytes : List U8) (offset : Nat) : ImmediateUse :=
  let cursor := offset + (prefixesAt bytes offset).count
  match bytes[cursor]? with
  | some opcode =>
    if opcode = 0x0F then
      match bytes[cursor + 1]? with
      | some op2 => (classifyTwoByte op2).immediateUse
      | none => .literal
    else (classifyOneByte opcode).immediateUse
  | none => .literal

theorem next_eq (m n : Nat) :
    pc + BitVec.ofNat 64 m + BitVec.ofNat 64 n = pc + BitVec.ofNat 64 (m + n) := by
  rw [BitVec.add_assoc, BitVec.ofNat_add_ofNat]

theorem decodeOpcode_of_vex_none {prefixes : PrefixSet} {opcode : U8} (cursor : Nat)
    (h : prefixes.vex.map VexPrefix.mmmm = none) :
    decodeOpcode prefixes opcode bytes cursor opcodeGuestPc =
      decodeOneByteOpcode prefixes opcode bytes cursor opcodeGuestPc := by
  have hv : prefixes.vex = none := Option.map_eq_none_iff.mp h
  simp [decodeOpcode, hv]

-- Some statement has been made from the immediate, which the decoder looks for behind the operand and
-- the byte that it counts beyond it.
theorem decodeOneAt_carries (h : decodeOneAt bytes offset pc = .ok d)
    (hl : layout bytes offset = some l) (himm : 0 < l.imm) :
    ∃ s ∈ d.stmts, Carries (pc + BitVec.ofNat 64 l.length) bytes
      (offset + l.immOffset + countedSib bytes offset) l.imm (immediateUse bytes offset) s := by
  obtain ⟨k, format, hf, hoff, hlen⟩ := layout_eq_some hl
  obtain ⟨q, opcode, n, hp, hq, hop, hrun, hd⟩ := decodeOneAt_run h hl
  have hlen := hlen q hq
  have hend : (prefixesAt bytes offset).count + (k + operandLength q format bytes
      (offset + (prefixesAt bytes offset).count + k)) = l.length := by
    rw [Layout.length, operandLength]
    omega
  obtain ⟨opcode', hop', hc⟩ := opcodeFormat_eq_some hf
  cases hop.symm.trans hop'
  obtain ⟨hv, rfl, hvf⟩ | ⟨hv, h0F, h38, rfl, rfl⟩ | ⟨op2, hv, rfl, hop2, rfl, htf⟩ |
    ⟨hv, h0F, rfl, hof⟩ := hc
  · cases vexFormat_eq_some _ hvf
    rw [hlen] at himm
    exact absurd himm (Nat.lt_irrefl 0)
  · rw [hlen] at himm
    exact absurd himm (Nat.lt_irrefl 0)
  · rw [decodeOpcode_of_vex_none _ _ (hq.vexMap.trans hv)] at hrun
    obtain ⟨op2', hop2', hrun⟩ := lift_bind_eq_ok.mp hrun
    cases hop2.symm.trans (byteAt_eq_ok.mp hop2')
    obtain ⟨m, stmts, hrun, hret⟩ := bind_eq_ok.mp hrun
    cases hret
    obtain ⟨s, hs, hcarries⟩ := decodeTwoByteOpcode_carries bytes _ _ htf (hlen ▸ himm) [] .nil _ _ hrun
    refine ⟨s, hs, ?_⟩
    have hat : offset + (prefixesAt bytes offset).count + 2 + operandBytes format
        ((classifyTwoByte op2).countsSib
          (regAt bytes (offset + (prefixesAt bytes offset).count + 2))) bytes
        (offset + (prefixesAt bytes offset).count + 2) =
          offset + l.immOffset + countedSib bytes offset := by
      simp only [operandBytes, countedSib, countsRegisterSib, hv, hop, hop2, if_true, toNat_and,
        ← registerSibAt_eq]
      omega
    have huse : immediateUse bytes offset = (classifyTwoByte op2).immediateUse := by
      simp only [immediateUse, hop, hop2, if_true]
    rw [next_eq, hend, hat, ← hlen, ← huse] at hcarries
    exact hcarries
  · rw [decodeOpcode_of_vex_none _ _ (hq.vexMap.trans hv)] at hrun
    obtain ⟨s, hs, hcarries⟩ := decodeOneByteOpcode_carries bytes _ _ hq.present hof (hlen ▸ himm) []
      .nil _ _ hrun
    refine ⟨s, hs, ?_⟩
    have hat : offset + (prefixesAt bytes offset).count + 1 + operandBytes format
        ((classifyOneByte opcode).countsSib q.operandOverride
          (regAt bytes (offset + (prefixesAt bytes offset).count + 1))) bytes
        (offset + (prefixesAt bytes offset).count + 1) =
          offset + l.immOffset + countedSib bytes offset := by
      simp only [operandBytes, countedSib, countsRegisterSib, hv, hop, if_neg h0F,
        ← hq.operandSize, toNat_and, ← registerSibAt_eq]
      omega
    have huse : immediateUse bytes offset = (classifyOneByte opcode).immediateUse := by
      simp only [immediateUse, hop, if_neg h0F]
    rw [next_eq, hend, hat, ← hlen, ← huse] at hcarries
    exact hcarries

-- The decoder consumes the bytes of the instruction and has read the immediate behind the
-- displacement, and it has looked at nothing else.
structure ConsumesInstruction (bytes : List U8) (offset : Nat) (pc : U64) (d : Decoded) (l : Layout) :
    Prop where
  length : d.bytesConsumed = l.length
  immediate : 0 < l.imm → ∃ s ∈ d.stmts, Carries (pc + BitVec.ofNat 64 l.length) bytes
    (offset + l.immOffset) l.imm (immediateUse bytes offset) s
  footprint : ∀ bytes', (∀ i < l.length, bytes[offset + i]? = bytes'[offset + i]?) →
    decodeOneAt bytes' offset pc = .ok d

theorem decodeOneAt_consumes_iff (h : decodeOneAt bytes offset pc = .ok d)
    (hl : layout bytes offset = some l) :
    ConsumesInstruction bytes offset pc d l ↔ ¬countsRegisterSib bytes offset := by
  have hlen := decodeOneAt_layout h hl
  have ⟨_, hlocal⟩ := decodeOneAt_reads h
  constructor
  case mp =>
    intro hc hsib
    have hcount : countedSib bytes offset = 1 := congrArg Bool.toNat hsib
    have := hc.length
    omega
  case mpr =>
    intro hsib
    have hcount : countedSib bytes offset = 0 := congrArg Bool.toNat (eq_false_of_ne_true hsib)
    rw [hcount, Nat.add_zero] at hlen
    refine ⟨hlen, fun himm => ?_, fun bytes' ha => hlocal bytes' fun i hi => ha i (hlen ▸ hi)⟩
    have hcarries := decodeOneAt_carries h hl himm
    rwa [hcount, Nat.add_zero] at hcarries

-- ADD EAX, imm32 with the opcode 81.
theorem decodeOneAt_consumes_iff_add :
    ∃ d l, decodeOneAt [0x81, 0xC0, 0x78, 0x56, 0x34, 0x12] 0 0 = .ok d ∧
      layout [0x81, 0xC0, 0x78, 0x56, 0x34, 0x12] 0 = some l ∧
      (ConsumesInstruction [0x81, 0xC0, 0x78, 0x56, 0x34, 0x12] 0 0 d l ↔
        ¬countsRegisterSib [0x81, 0xC0, 0x78, 0x56, 0x34, 0x12] 0) :=
  ⟨_, _, rfl, rfl, decodeOneAt_consumes_iff rfl rfl⟩

-- ADD SPL, imm8 has three bytes, and the decoder consumes four of them.
theorem decodeOneAt_not_consumes :
    ∃ d l, decodeOneAt [0x80, 0xC4, 0x25, 0x90] 0 0 = .ok d ∧
      layout [0x80, 0xC4, 0x25, 0x90] 0 = some l ∧
      ¬ConsumesInstruction [0x80, 0xC4, 0x25, 0x90] 0 0 d l :=
  ⟨_, _, rfl, rfl, fun h => absurd h.length (by decide)⟩

end Instruction

end Prisma.Decoder
