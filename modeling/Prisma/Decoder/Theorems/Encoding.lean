import Prisma.Decoder.Theorems.Length

namespace Prisma.Decoder

open Emission

section Classes

-- The format of the opcodes in a category.
def OneByteOpcode.format (opcode : U8) : OneByteOpcode → Option Format
  | accImm => withImm (if isAccImmByte opcode then .b else .z)
  | aluRmImm | aluRmImm8 => withRm (if opcode = 0x81 then .z else .b)
  | movRmImm => withRm (if opcode = 0xC7 then .z else .b)
  | group2 => withRm (if opcode = 0xC0 ∨ opcode = 0xC1 then .b else .none)
  | group3 => withRm (if opcode = 0xF6 then .testB else .testZ)
  | imulRmImm => withRm .z
  | imulRmImm8 => withRm .b
  | movRI => withImm .v
  | movR8I8 | ioTrapImm8 | intImm8 => withImm .b
  | pushImm => withImm (if opcode = 0x6A then .b else .z)
  | movMoffsToAcc | movAccToMoffs => withImm .moffs
  | retImm16 => withImm .w
  | enter => withImm .wb
  | jumpRel8 | loopRel8 | jrcxzRel8 | condJumpRel8 => withImm .rel8
  | callRel32 | jumpRel32 => withImm .rel32
  | movsb | cmpsb | stosb | lodsb | scasb | nop | fwait | cld | xchgAcc | signExtendAcc
  | signExtendAccToDx | xlat | ret | iretTrap | leave | int3 | ioTrapDx | pushReg | popReg | icebp
  | hlt | privilegedTrap | pushfq | popfq | sahf | lahf => plain
  | legacyInvalidTrap | legacyInvalidImm8 | twoBytePrefix | unsupported => none
  | _ => withRm .none

theorem format_classifyOneByte (opcode : U8) :
    classifyOneByte opcode = .unsupported ∨
      (classifyOneByte opcode).format opcode = oneByteFormat opcode := by
  revert opcode
  decide +kernel

def TwoByteOpcode.format : TwoByteOpcode → Option Format
  | systemTrap | syscall | ud2 | cacheTrap | rdtsc | mmxStateNoop | cpuid | bswap => plain
  | condJumpRel32 => withImm .rel32
  | btGroup => withRm .b
  | threeByte0F38 | threeByte0F3A | unsupported => none
  | _ => withRm .none

theorem format_classifyTwoByte (opcode : U8) :
    classifyTwoByte opcode = .unsupported ∨
      (classifyTwoByte opcode).format = twoByteFormat opcode := by
  revert opcode
  decide +kernel

-- The forms that take the length of a register operand from `bytes_for_modrm`.
def OneByteOpcode.countsSib (operand : Bool) (reg : BitVec 3) : OneByteOpcode → Bool
  | imulRmImm | imulRmImm8 | aluRmImm | aluRmImm8 | group2 | movRmImm => true
  | movsxd => operand
  | group3 => reg = 0
  | _ => false

def TwoByteOpcode.countsSib (reg : BitVec 3) : TwoByteOpcode → Bool
  | descriptorGroup | nopRm | systemTrapRm | undefinedRm => true
  | systemGroup => reg = 6
  | _ => false

end Classes

section Dispatch

variable {start : Nat} (prefixes : PrefixSet) (opcode : U8) (cursor : Nat) (opcodeGuestPc : U64)

def regAt (bytes : List U8) (offset : Nat) : BitVec 3 :=
  ((modrmAt bytes offset).map ModRm.reg).getD 0

-- The bytes of ModR/M, SIB and displacement behind an opcode of the given format.
def rmBytes (format : Format) (bytes : List U8) (offset : Nat) : Nat :=
  if format.modrm then rmLengthAt bytes offset else 0

def immLength (format : Format) (bytes : List U8) (offset : Nat) : Nat :=
  format.imm.length prefixes.rex.w prefixes.operandOverride prefixes.addrOverride
    (if format.modrm then regAt bytes offset else 0)

-- The bytes behind an opcode of the given format.
def operandLength (format : Format) (bytes : List U8) (offset : Nat) : Nat :=
  rmBytes format bytes offset + immLength prefixes format bytes offset

@[simp]
theorem operandLength_imm (imm : Immediate) (bytes : List U8) (offset : Nat) :
    operandLength prefixes ⟨false, imm⟩ bytes offset =
      imm.length prefixes.rex.w prefixes.operandOverride prefixes.addrOverride 0 :=
  Nat.zero_add _

@[simp]
theorem operandLength_rm (imm : Immediate) (bytes : List U8) (offset : Nat) :
    operandLength prefixes ⟨true, imm⟩ bytes offset = rmLengthAt bytes offset +
      imm.length prefixes.rex.w prefixes.operandOverride prefixes.addrOverride
        (regAt bytes offset) := rfl

instance :
    ReadsSpec (sameByte start) (fun bytes => decodeThreeByte0F38 prefixes bytes cursor)
      (start ≤ cursor) (fun n => cursor + n)
      fun bytes n => n = 2 + rmLengthAt bytes (cursor + 2) where
  reads hs := by
    unfold decodeThreeByte0F38
    refine .bind (by omega) fun opcode => ?_
    split
    case h_1 | h_2 =>
      split
      all_goals
        refine .tail (by omega) fun bytes n h hn => ?_
        exact ⟨by omega, by omega, hn⟩
    case h_3 => exact .throw

instance :
    ReadsSpec (sameByte start) (fun bytes => decodeThreeByte0F3A prefixes bytes cursor)
      (start ≤ cursor) (fun n => cursor + n) fun _ n => 1 ≤ n where
  reads hs := by
    unfold decodeThreeByte0F3A
    refine .bind (by omega) fun opcode => ?_
    split
    case h_6 => exact .throw
    all_goals
      refine .tail (by omega) fun bytes n h hn => ?_
      exact ⟨by omega, by omega, by omega⟩

-- What the decoder consumes behind the escape byte 0F at `cursor`.
structure TwoByteLength (op2 : U8) (bytes : List U8) (n : Nat) : Prop where
  pos : 1 ≤ n
  format : ∀ format, twoByteFormat op2 = some format →
    n = 1 + operandLength prefixes format bytes (cursor + 2) +
      if (classifyTwoByte op2).countsSib (regAt bytes (cursor + 2)) then
        registerSibAt bytes (cursor + 2)
      else 0
  threeByte : op2 = 0x38 → n = 2 + rmLengthAt bytes (cursor + 3)

theorem TwoByteLength.of_format {prefixes : PrefixSet} {cursor n : Nat} {op2 : U8} {bytes : List U8}
    {format : Format} (hf : some format = twoByteFormat op2)
    (hn : n = 1 + operandLength prefixes format bytes (cursor + 2) +
      if (classifyTwoByte op2).countsSib (regAt bytes (cursor + 2)) then
        registerSibAt bytes (cursor + 2)
      else 0) : TwoByteLength prefixes cursor op2 bytes n where
  pos := by omega
  format := by
    intro format' h
    cases hf.trans h
    exact hn
  threeByte := by
    intro h
    subst h
    cases hf

theorem systemExtra_eq (bytes : List U8) :
    systemExtra cursor bytes =
      if regAt bytes (cursor + 1) = 6 then registerSibAt bytes (cursor + 1) else 0 := by
  unfold systemExtra regAt registerSibAt
  split
  case h_1 modrm h => simp [h]
  case h_2 h => simp [h]

instance :
    ReadsSpec (sameByte start)
      (fun bytes => decodeTwoByteOpcode prefixes bytes cursor opcodeGuestPc op2) (start ≤ cursor)
      (fun n => cursor + 1 + n) (TwoByteLength prefixes cursor op2) where
  reads hs := by
    unfold decodeTwoByteOpcode
    have hf := format_classifyTwoByte op2
    cases hc : classifyTwoByte op2
    case threeByte0F38 =>
      refine .tail (by omega) fun bytes n _ hn => ⟨by omega, by omega, by omega, ?_, fun _ => hn⟩
      simp only [hc, TwoByteOpcode.format, reduceCtorEq, false_or] at hf
      simp [← hf]
    case threeByte0F3A =>
      refine .tail (by omega) fun bytes n _ hn => ⟨by omega, by omega, hn, ?_, ?_⟩
      · simp only [hc, TwoByteOpcode.format, reduceCtorEq, false_or] at hf
        simp [← hf]
      · intro h
        subst h
        cases hc
    all_goals
      dsimp only
      simp only [hc, TwoByteOpcode.format, plain, withRm, withImm, reduceCtorEq, false_or] at hf
      repeat' with_reducible first | apply Reads.throw | apply Reads.tail | split
    all_goals first
      | omega
      | trivial
      | intro bytes n _ hn
        refine ⟨by omega, by omega, .of_format hf ?_⟩
        simp [hc, hn, TwoByteOpcode.countsSib, systemExtra_eq, Immediate.length,
          Nat.add_assoc]

instance :
    Consumes start cursor (fun bytes => decodeTwoByte prefixes bytes cursor opcodeGuestPc)
      fun bytes n => ∃ op2 m, bytes[cursor + 1]? = some op2 ∧
        TwoByteLength prefixes cursor op2 bytes m ∧ n = 1 + m where
  reads hs := by
    unfold decodeTwoByte
    refine .bind (by omega) fun op2 => .bind hs fun m => .pure fun bytes h => ?_
    have hpos := h.right.pos
    exact ⟨by omega, op2, m, h.left.right, h.right, rfl⟩

section Immediates

theorem fullImmBytes_eq (address : Bool) (reg : BitVec 3) :
    fullImmBytes (operandSize prefixes) =
      Immediate.length prefixes.rex.w prefixes.operandOverride address reg .z := by
  cases hw : prefixes.rex.w <;> cases ho : prefixes.operandOverride <;>
    simp [fullImmBytes, operandSize, Immediate.length, hw, ho]

theorem accImmBytes_eq (address : Bool) (reg : BitVec 3) :
    accImmBytes prefixes opcode = (if isAccImmByte opcode then Immediate.b else .z).length
      prefixes.rex.w prefixes.operandOverride address reg := by
  unfold accImmBytes accImmSize
  cases isAccImmByte opcode
  case true => rfl
  case false => exact fullImmBytes_eq prefixes address reg

theorem imulImmBytes_eq (address : Bool) (reg : BitVec 3) :
    imulImmBytes prefixes 0x69 = Immediate.length prefixes.rex.w prefixes.operandOverride address
      reg .z :=
  fullImmBytes_eq prefixes address reg

theorem movRiBytes_eq (address : Bool) (reg : BitVec 3) :
    (operandSize prefixes).bitWidth / 8 =
      Immediate.length prefixes.rex.w prefixes.operandOverride address reg .v := by
  cases hw : prefixes.rex.w <;> cases ho : prefixes.operandOverride <;>
    simp [operandSize, Immediate.length, hw, ho, OpSize.bitWidth]

variable {prefixes opcode}

theorem aluRmImmBytes_eq {n : Nat} (h : aluRmImmBytes prefixes opcode = .ok n) (address : Bool)
    (reg : BitVec 3) :
    n = (if opcode = 0x81 then Immediate.z else .b).length prefixes.rex.w
      prefixes.operandOverride address reg := by
  unfold aluRmImmBytes at h
  split at h
  case h_1 | h_2 => cases h; rfl
  case h_3 => cases h; exact fullImmBytes_eq prefixes address reg
  case h_4 => cases h

theorem movRmImmBytes_eq {n : Nat}
    (h : movRmImmBytes opcode (movRmImmSize prefixes opcode) = .ok n) (address : Bool)
    (reg : BitVec 3) :
    n = (if opcode = 0xC7 then Immediate.z else .b).length prefixes.rex.w
      prefixes.operandOverride address reg := by
  have hz := fullImmBytes_eq prefixes address reg
  unfold movRmImmBytes at h
  split at h
  case h_1 => cases h; rfl
  case h_5 => cases h
  all_goals
    cases h
    rename_i hsize
    have hsize : operandSize prefixes = _ := hsize
    rw [hsize] at hz
    exact hz

theorem pushImmBytes_eq (hw : prefixes.rex.w = false) (address : Bool) (reg : BitVec 3) :
    pushImmBytes prefixes opcode = (if opcode = 0x6A then Immediate.b else .z).length
      prefixes.rex.w prefixes.operandOverride address reg := by
  unfold pushImmBytes
  split <;> simp [Immediate.length, hw]

theorem shiftImmBytes_eq (wide operand address : Bool) (reg : BitVec 3) :
    shiftImmBytes opcode =
      (if opcode = 0xC0 ∨ opcode = 0xC1 then Immediate.b else .none).length wide operand address
        reg := by
  unfold shiftImmBytes
  split <;> rfl

end Immediates

-- What the decoder consumes from an opcode at `cursor` on.
structure OneByteLength (bytes : List U8) (n : Nat) : Prop where
  pos : 1 ≤ n
  format : ∀ format, oneByteFormat opcode = some format →
    n = 1 + operandLength prefixes format bytes (cursor + 1) +
      if (classifyOneByte opcode).countsSib prefixes.operandOverride (regAt bytes (cursor + 1)) then
        registerSibAt bytes (cursor + 1)
      else 0
  twoByte : opcode = 0x0F → ∃ op2 m, bytes[cursor + 1]? = some op2 ∧
    TwoByteLength prefixes cursor op2 bytes m ∧ n = 1 + m

theorem OneByteLength.of_format {prefixes : PrefixSet} {opcode : U8} {cursor n : Nat}
    {bytes : List U8} {format : Format} (hf : some format = oneByteFormat opcode)
    (hn : n = 1 + operandLength prefixes format bytes (cursor + 1) +
      if (classifyOneByte opcode).countsSib prefixes.operandOverride
          (regAt bytes (cursor + 1)) then
        registerSibAt bytes (cursor + 1)
      else 0) : OneByteLength prefixes opcode cursor bytes n where
  pos := by omega
  format := by
    intro format' h
    cases hf.trans h
    exact hn
  twoByte := by
    intro h
    subst h
    cases hf

theorem OneByteLength.of_none {prefixes : PrefixSet} {opcode : U8} {cursor n : Nat}
    {bytes : List U8} (hf : none = oneByteFormat opcode) (hop : opcode ≠ 0x0F) (hn : 1 ≤ n) :
    OneByteLength prefixes opcode cursor bytes n where
  pos := hn
  format _ h := by cases hf.trans h
  twoByte h := absurd h hop

theorem length_test (address : Bool) :
    (if opcode = 0xF6 then Immediate.testB else .testZ).length prefixes.rex.w
        prefixes.operandOverride address 0 =
      if opcode = 0xF6 then 1 else fullImmBytes (group3Size prefixes opcode) := by
  unfold group3Size
  by_cases h : opcode = 0xF6
  case pos => simp only [if_pos h]; rfl
  case neg =>
    simp only [if_neg h, fullImmBytes_eq prefixes address 0]
    rfl

theorem length_test_of_ne (h₀ : reg ≠ 0) (h₁ : reg ≠ 1) :
    (if opcode = 0xF6 then Immediate.testB else .testZ).length wide operand address reg = 0 := by
  by_cases h : opcode = 0xF6
  case pos => simp only [if_pos h, Immediate.length, h₀, h₁, or_false, if_false]
  case neg => simp only [if_neg h, Immediate.length, h₀, h₁, or_false, if_false]

theorem group3Extra_eq {modrm : ModRm} {bytes : List U8}
    (hm : modrmAt bytes (cursor + 1) = some modrm) (h : modrm.reg ≠ 1) :
    group3Extra prefixes opcode cursor bytes =
      (if opcode = 0xF6 then Immediate.testB else .testZ).length prefixes.rex.w
          prefixes.operandOverride prefixes.addrOverride (regAt bytes (cursor + 1)) +
        if regAt bytes (cursor + 1) = 0 then registerSibAt bytes (cursor + 1) else 0 := by
  simp only [group3Extra, regAt, registerSibAt, hm, Option.map_some, Option.getD_some]
  by_cases h₀ : modrm.reg = 0
  case pos => simp only [h₀, if_true, length_test, Nat.add_comm (registerSib modrm)]
  case neg => simp only [if_neg h₀, length_test_of_ne opcode h₀ h]

-- No decoder takes REX.W from a byte other than a REX prefix.
theorem decodeOneByteOpcode_reads (hw : prefixes.rex.w → prefixes.rex.present) :
    Consumes start cursor
      (fun bytes => decodeOneByteOpcode prefixes opcode bytes cursor opcodeGuestPc)
      (OneByteLength prefixes opcode cursor) where
  reads hs := by
    unfold decodeOneByteOpcode
    have hf := format_classifyOneByte opcode
    cases hc : classifyOneByte opcode
    case twoBytePrefix =>
      refine .tail hs fun bytes n _ hn => ?_
      have ⟨op2, m, hop, hm, h⟩ := hn
      have hpos := hm.pos
      simp only [hc, OneByteOpcode.format, reduceCtorEq, false_or] at hf
      exact ⟨by omega, by omega, by omega, by simp [← hf], fun _ => hn⟩
    all_goals
      dsimp only
      simp only [hc, OneByteOpcode.format, plain, withRm, withImm, reduceCtorEq, false_or] at hf
      repeat' with_reducible first
        | intro _ | apply Reads.bind_lift | apply Reads.throw | apply Reads.tail | split
    case legacyInvalidTrap.h _ hn | legacyInvalidImm8.h _ hn =>
      refine ⟨by omega, by omega, .of_none hf (fun h => ?_) (by omega)⟩
      subst h
      cases hc
    case aluRmImm.h _ hn | aluRmImm8.h _ hn =>
      obtain ⟨imm, himm, hn⟩ := hn
      refine ⟨by omega, by omega, .of_format hf ?_⟩
      simp only [hc, OneByteOpcode.countsSib, operandLength_rm, ← aluRmImmBytes_eq himm, if_true]
      omega
    case movRmImm.h _ hn =>
      obtain ⟨imm, himm, hn⟩ := hn
      refine ⟨by omega, by omega, .of_format hf ?_⟩
      simp only [hc, OneByteOpcode.countsSib, operandLength_rm, ← movRmImmBytes_eq himm, if_true]
      omega
    case group3.h _ hn =>
      obtain ⟨hn, hsome, hreg⟩ := hn
      obtain ⟨modrm, hm⟩ := Option.isSome_iff_exists.mp hsome
      refine ⟨by omega, by omega, .of_format hf ?_⟩
      rw [group3Extra_eq _ _ _ hm (by simpa [hm] using hreg)] at hn
      simp only [hc, OneByteOpcode.countsSib, operandLength_rm, decide_eq_true_eq]
      omega
    case pushImm.h _ hn =>
      obtain ⟨hn, hrex⟩ := hn
      have hw : prefixes.rex.w = false := by simpa [hrex] using hw
      refine ⟨by omega, by omega, .of_format hf ?_⟩
      rw [hc, hn, operandLength_imm, pushImmBytes_eq hw]
      rfl
    case accImm.h _ hn =>
      refine ⟨by omega, by omega, .of_format hf ?_⟩
      rw [hc, hn, operandLength_imm, accImmBytes_eq]
      rfl
    case movRI.h _ hn =>
      refine ⟨by omega, by omega, .of_format hf ?_⟩
      rw [hc, hn, operandLength_imm, movRiBytes_eq]
      rfl
    case movMoffsToAcc.h _ hn | movAccToMoffs.h _ hn =>
      refine ⟨by omega, by omega, .of_format hf ?_⟩
      rw [hc, hn, operandLength_imm, moffsBytes]
      rfl
    case imulRmImm.h _ hn =>
      refine ⟨by omega, by omega, .of_format hf ?_⟩
      simp only [hc, OneByteOpcode.countsSib, operandLength_rm, if_true, ← imulImmBytes_eq]
      omega
    case imulRmImm8.h _ hn =>
      refine ⟨by omega, by omega, .of_format hf ?_⟩
      have himm : imulImmBytes prefixes 0x6B = 1 := rfl
      simp only [hc, OneByteOpcode.countsSib, operandLength_rm, if_true, Immediate.length]
      omega
    case group2.h _ hn =>
      refine ⟨by omega, by omega, .of_format hf ?_⟩
      simp only [hc, OneByteOpcode.countsSib, operandLength_rm, if_true, ← shiftImmBytes_eq]
      omega
    all_goals first
      | omega
      | trivial
      | rename_i bytes n _ hn
        refine ⟨by omega, by omega, .of_format hf ?_⟩
        simp [hc, hn, OneByteOpcode.countsSib, Immediate.length]

-- What the decoder consumes from an opcode behind a VEX prefix on.
structure VexLength (bytes : List U8) (n : Nat) : Prop where
  pos : 1 ≤ n
  format : ∀ format, prefixes.vex.map VexPrefix.mmmm = some 2 → vexFormat opcode = some format →
    n = 1 + operandLength prefixes format bytes (cursor + 1)

theorem vexFormat_eq_some (h : vexFormat opcode = some format) : format = ⟨true, .none⟩ := by
  unfold vexFormat at h
  split at h <;> cases h
  rfl

instance :
    Consumes start cursor (fun bytes => decodeVex prefixes opcode bytes cursor)
      (VexLength prefixes opcode cursor) where
  reads hs := by
    unfold decodeVex
    split
    case h_1 => exact .throw
    case h_2 vex hvex =>
      refine .bind_lift fun _ _ => ?_
      split
      case h_6 => exact .throw
      case h_1 | h_5 =>
        refine .tail hs fun bytes n _ hn => ⟨by omega, by omega, by omega, ?_⟩
        intro format _ hf
        cases hf
      all_goals
        refine .tail hs fun bytes n _ hn => ⟨by omega, by omega, by omega, ?_⟩
        intro format _ hf
        rw [hn, vexFormat_eq_some _ hf]
        rfl

theorem decodeOpcode_reads (hw : prefixes.rex.w → prefixes.rex.present) :
    Consumes start cursor (fun bytes => decodeOpcode prefixes opcode bytes cursor opcodeGuestPc)
      fun bytes n => if prefixes.vex.isSome then VexLength prefixes opcode cursor bytes n
        else OneByteLength prefixes opcode cursor bytes n where
  reads hs := by
    have := @decodeOneByteOpcode_reads start prefixes opcode cursor opcodeGuestPc hw
    unfold decodeOpcode
    split
    case isTrue => exact ReadsSpec.reads hs
    case isFalse => exact ReadsSpec.reads hs

end Dispatch

end Prisma.Decoder
