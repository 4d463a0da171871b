import Prisma.Decoder.Theorems.Operand

-- How many bytes each decoder consumes and which bytes it looks at.

namespace Prisma.Decoder

open Emission

variable {start : Nat} (prefixes : PrefixSet) (vex : VexPrefix) (opcode : U8) (cursor offset : Nat)
  (opcodeGuestPc : U64) (modrm : ModRm) (size : OpSize)

def registerSibAt (bytes : List U8) (offset : Nat) : Nat :=
  match modrmAt bytes offset with
  | some modrm => registerSib modrm
  | none => 0

-- The bytes that a decoder consumes from its opcode at `cursor` on.
abbrev Consumes (start cursor : Nat) (m : List U8 → Emit Nat) (Q : List U8 → Nat → Prop) : Prop :=
  ReadsSpec (sameByte start) m (start ≤ cursor) (fun n => cursor + n) Q

-- Decoders of an opcode and an r/m operand.
abbrev ConsumesRm (start cursor : Nat) (m : List U8 → Emit Nat) : Prop :=
  Consumes start cursor m fun bytes n => n = 1 + rmLengthAt bytes (cursor + 1)

-- Decoders that count a SIB byte also in the register form.
abbrev ConsumesRmSib (start cursor : Nat) (m : List U8 → Emit Nat) : Prop :=
  Consumes start cursor m fun bytes n =>
    n = 1 + rmLengthAt bytes (cursor + 1) + registerSibAt bytes (cursor + 1)

-- Decoders that look at no byte behind the opcode.
abbrev ConsumesConst (start : Nat) (m : Emit Nat) (k : Nat) : Prop :=
  ReadsSpec (sameByte start) (fun _ => m) True (fun _ => 0) fun _ n => n = k

@[simp]
theorem rejectIf_eq_ok : rejectIf condition error = .ok u ↔ condition = false := by
  cases condition <;> simp [rejectIf]

theorem fullImmBytes_pos : 0 < fullImmBytes size := by
  unfold fullImmBytes
  split <;> omega

theorem accImmBytes_pos : 0 < accImmBytes prefixes opcode := by
  unfold accImmBytes
  split
  case isTrue => omega
  case isFalse => exact fullImmBytes_pos _

theorem imulImmBytes_pos : 0 < imulImmBytes prefixes opcode := by
  unfold imulImmBytes
  split
  case isTrue => omega
  case isFalse => exact fullImmBytes_pos _

theorem pushImmBytes_pos : 0 < pushImmBytes prefixes opcode := by
  unfold pushImmBytes
  split
  case isTrue => omega
  case isFalse => split <;> omega

theorem moffsBytes_pos : 0 < moffsBytes prefixes := by
  unfold moffsBytes
  split <;> omega

theorem bitWidth_pos : 0 < size.bitWidth / 8 := by
  cases size <;> decide

theorem sibLength_of_reg {modrm : ModRm} (h : modrm.mod = 3#2) : sibLength modrm = 0 :=
  if_neg fun h' => h'.left h

theorem dispLength_of_reg {modrm : ModRm} (h : modrm.mod = 3#2) : dispLength modrm base = 0 := by
  simp [dispLength, h]

theorem registerSib_of_mem {modrm : ModRm} (h : ¬modrm.mod = 3#2) : registerSib modrm = 0 :=
  if_neg fun h' => h h'.left

theorem aluRmImmBytes_pos {prefixes : PrefixSet} {opcode : U8} {n : Nat}
    (h : aluRmImmBytes prefixes opcode = .ok n) : 0 < n := by
  unfold aluRmImmBytes at h
  split at h
  case h_1 | h_2 => cases h; omega
  case h_3 => cases h; exact fullImmBytes_pos _
  case h_4 => cases h

theorem movRmImmBytes_pos {opcode : U8} {size : OpSize} {n : Nat}
    (h : movRmImmBytes opcode size = .ok n) : 0 < n := by
  unfold movRmImmBytes at h
  split at h
  all_goals cases h
  all_goals omega

attribute [local simp] rmLengthAt registerSibAt rmLength fullImmBytes_pos accImmBytes_pos
  imulImmBytes_pos pushImmBytes_pos moffsBytes_pos sibLength_of_reg dispLength_of_reg
  registerSib_of_mem isCacheLineHint

-- What TEST r/m, imm consumes behind the operand.
def group3Extra (bytes : List U8) : Nat :=
  match modrmAt bytes (cursor + 1) with
  | some modrm =>
    if modrm.reg = 0 then
      registerSib modrm +
        if opcode = 0xF6 then 1 else fullImmBytes (group3Size prefixes opcode)
    else 0
  | none => 0

attribute [local simp] group3Extra PrefixSet.rexLockSegment

-- The forms of 0F 01 with an r/m operand count the byte also in the register form.
def systemExtra (bytes : List U8) : Nat :=
  match modrmAt bytes (cursor + 1) with
  | some modrm => if modrm.reg = 6 then registerSib modrm else 0
  | none => 0

attribute [local simp] systemExtra

section Alu

instance : ConsumesRm start cursor (decodeBinopRmRWithSize prefixes · cursor kind size) := .derive

instance : ConsumesRm start cursor (decodeBinopRRmWithSize prefixes · cursor kind size) := .derive

instance : ConsumesRm start cursor (decodeBinopRmR prefixes · cursor kind) := .derive

instance : ConsumesRm start cursor (decodeBinopRRm prefixes · cursor kind) := .derive

instance : ConsumesRm start cursor (decodeAdcSbbRmR prefixes · cursor isSbb size) := .derive

instance : ConsumesRm start cursor (decodeAdcSbbRRm prefixes · cursor isSbb size) := .derive

instance : ConsumesRm start cursor (decodeCmpRmRWithSize prefixes · cursor size) := .derive

instance : ConsumesRm start cursor (decodeCmpRRmWithSize prefixes · cursor size) := .derive

instance : ConsumesRm start cursor (decodeTestRmRWithSize prefixes · cursor size) := .derive

instance : ConsumesRm start cursor (decodeCmpRmR prefixes · cursor) := .derive

instance : ConsumesRm start cursor (decodeTestRmR prefixes · cursor) := .derive

instance :
    Consumes start cursor (decodeAccImm prefixes opcode · cursor) fun _ n =>
      n = 1 + accImmBytes prefixes opcode := .derive

instance :
    ReadsSpec (sameByte start)
      (fun bytes => (liftM (aluRmImm prefixes opcode bytes offset immBytes) : Emit U64))
      (start ≤ offset ∧ 0 < immBytes) (fun _ => offset + immBytes) fun _ _ => True := by
  refine readsSpec_of_window offset And.left fun hp bytes bytes' h => ?_
  unfold aluRmImm
  split
  case isTrue => rw [byteAt_congr offset (h 0 hp.right)]
  case isFalse => rw [readImm_congr offset hp.right h]

instance :
    Consumes start cursor (decodeAluRmImm prefixes opcode · cursor opcodeGuestPc)
      fun bytes n =>
      ∃ imm, aluRmImmBytes prefixes opcode = .ok imm ∧
        n = 1 + rmLengthAt bytes (cursor + 1) + registerSibAt bytes (cursor + 1) + imm where
  reads hs := by
    unfold decodeAluRmImm
    refine .bind (by omega) fun modrm => .bind (by omega) fun modrmBytes => ?_
    refine .bind_lift fun immBytes himm => ?_
    have hpos : 0 < immBytes := aluRmImmBytes_pos himm
    refine .bind ⟨by omega, hpos⟩ fun imm => .bind_const fun _ => ?_
    refine .bind (by omega) fun _ => .bind_const fun _ => .bind_const fun _ => .pure ?_
    intro bytes h
    obtain ⟨⟨⟨⟨_, hm⟩, hn, _⟩, _⟩, hu, _⟩ := h
    refine ⟨by omega, immBytes, himm, ?_⟩
    simp only [rmLengthAt, registerSibAt, hm, hn]
    omega

instance :
    Consumes start cursor (decodeImulImm prefixes opcode · cursor) fun bytes n =>
      n = 1 + rmLengthAt bytes (cursor + 1) + registerSibAt bytes (cursor + 1) +
        imulImmBytes prefixes opcode := .derive

instance :
    Consumes start cursor (decodeGroup3Test prefixes opcode · cursor modrm size) fun bytes n =>
      n = 1 + rmLength modrm bytes (cursor + 1) + registerSib modrm +
        if opcode = 0xF6 then 1 else fullImmBytes size := .derive

instance :
    Consumes start cursor (decodeGroup3Unary prefixes · cursor modrm size) fun bytes n =>
      n = 1 + rmLength modrm bytes (cursor + 1) := .derive

instance :
    Consumes start cursor (decodeGroup3MulDiv prefixes · cursor modrm size) fun bytes n =>
      n = 1 + rmLength modrm bytes (cursor + 1) := .derive

instance :
    Consumes start cursor (decodeGroup3 prefixes opcode · cursor) fun bytes n =>
      n = 1 + rmLengthAt bytes (cursor + 1) + group3Extra prefixes opcode cursor bytes ∧
        (modrmAt bytes (cursor + 1)).isSome ∧
        (modrmAt bytes (cursor + 1)).map ModRm.reg ≠ some 1 := .derive

instance :
    Consumes start cursor (emitIncDec prefixes · cursor modrm kind size) fun bytes n =>
      n = 1 + rmLength modrm bytes (cursor + 1) := .derive

instance : ConsumesRm start cursor (decodeGroup4 prefixes · cursor) := .derive

instance :
    ReadsSpec (sameByte start) (emitIndirectTarget prefixes · cursor modrm)
      (start ≤ cursor) (fun p => cursor + 1 + p.2)
      fun bytes p => p.2 = rmLength modrm bytes (cursor + 1) ∧ 1 ≤ p.2 := .derive

instance : ConsumesRm start cursor (decodeGroup5 prefixes · cursor opcodeGuestPc) := .derive

end Alu

section Move

instance : ConsumesRm start cursor (decodeMovRmRWithSize prefixes · cursor size) := .derive

instance : ConsumesRm start cursor (decodeMovRRmWithSize prefixes · cursor size) := .derive

instance : ConsumesRm start cursor (decodeMovRmR prefixes · cursor) := .derive

instance : ConsumesRm start cursor (decodeMovRRm prefixes · cursor) := .derive

instance : ConsumesRm start cursor (decodeLea prefixes · cursor) := .derive

instance : ConsumesRm start cursor (decodePopRm prefixes · cursor) := .derive

instance :
    Consumes start cursor (decodeMovMoffs prefixes opcode · cursor) fun _ n =>
      n = 1 + moffsBytes prefixes := .derive

instance : Consumes start cursor (decodeMovRi prefixes opcode · cursor) fun _ n =>
      n = 1 + (operandSize prefixes).bitWidth / 8 where
  reads hs := by
    unfold decodeMovRi
    refine .bind ⟨by omega, bitWidth_pos _⟩ fun _ => .bind_const fun _ => .bind_const fun _ => ?_
    exact .pure fun _ _ => ⟨by omega, rfl⟩

instance : Consumes start cursor (decodeMovR8I8 prefixes opcode · cursor) fun _ n => n = 2 :=
  .derive

instance :
    Consumes start cursor (decodeMovRmImm prefixes opcode · cursor) fun bytes n =>
      ∃ imm, movRmImmBytes opcode (movRmImmSize prefixes opcode) = .ok imm ∧
        n = 1 + rmLengthAt bytes (cursor + 1) + registerSibAt bytes (cursor + 1) + imm where
  reads hs := by
    unfold decodeMovRmImm
    refine .bind_lift fun _ _ => .bind (by omega) fun modrm => .bind_lift fun _ _ => ?_
    refine .bind (by omega) fun modrmBytes => .bind_lift fun immBytes himm => ?_
    have hpos : 0 < immBytes := movRmImmBytes_pos himm
    refine .bind ⟨by omega, hpos⟩ fun imm => .bind_const fun _ => ?_
    refine .bind (by omega) fun _ => .bind_const fun _ => .pure ?_
    intro bytes h
    obtain ⟨⟨⟨⟨_, hm⟩, hn, _⟩, _⟩, hu, _⟩ := h
    refine ⟨by omega, immBytes, himm, ?_⟩
    simp only [rmLengthAt, registerSibAt, hm, hn]
    omega

instance : ConsumesRm start cursor (decodeMovzx prefixes · cursor src) := .derive

instance : ConsumesRm start cursor (decodeMovsx prefixes · cursor src) := .derive

instance : Consumes start cursor (decodeMovsxd prefixes · cursor) fun bytes n =>
      n = 1 + rmLengthAt bytes (cursor + 1) +
        if prefixes.operandOverride then registerSibAt bytes (cursor + 1) else 0 := .derive

instance :
    ReadsSpec (sameByte start) (fun bytes => (liftM (pushImm prefixes opcode bytes cursor) : Emit U64))
      (start ≤ cursor) (fun _ => cursor + 1 + pushImmBytes prefixes opcode) fun _ _ => True := by
  refine readsSpec_of_window (cursor + 1) (by omega) fun hp bytes bytes' h => ?_
  have hpos := pushImmBytes_pos prefixes opcode
  unfold pushImm
  split
  case isTrue => rw [byteAt_congr (cursor + 1) (h 0 hpos)]
  case isFalse => rw [readImm_congr (cursor + 1) hpos h]

instance :
    Consumes start cursor (decodePushImm prefixes opcode · cursor) fun _ n =>
      n = 1 + pushImmBytes prefixes opcode ∧ prefixes.rex.present = false := .derive

instance : Consumes start cursor (decodeEnter prefixes · cursor) fun _ n => n = 4 := .derive

end Move

section Shift

def shiftImmBytes : Nat :=
  if opcode = 0xC0 ∨ opcode = 0xC1 then 1 else 0

attribute [local simp] shiftImmBytes

instance :
    ReadsSpec (sameByte start) (emitShiftCount opcode · offset)
      (start ≤ offset) (fun p => offset + p.2) fun _ p => p.2 = shiftImmBytes opcode :=
  .derive fun _ => emitShiftCount.eq_def ..

theorem shiftImmBytes_of_ne {opcode : U8} (h : opcode = 0xD0 ∨ opcode = 0xD1 ∨ opcode = 0xD2 ∨
    opcode = 0xD3) : shiftImmBytes opcode = 0 := by
  obtain h | h | h | h := h <;> simp [h]

theorem decodeGroup2RclRcr_reads {P : List U8 → Prop} {need modrmBytes : Nat}
    (hP : ∀ bytes, P bytes → need ≤ cursor + 1 + modrmBytes ∧
      rmLength modrm bytes (cursor + 1) ≤ modrmBytes) (hs : start ≤ cursor) :
    Reads (sameByte start) P need
      (decodeGroup2RclRcr prefixes opcode · cursor modrm modrmBytes size)
      (fun n => cursor + n) fun _ n => n = 1 + modrmBytes + shiftImmBytes opcode := by
  unfold decodeGroup2RclRcr
  dsimp only
  split
  case isTrue h =>
    have : shiftImmBytes opcode = 0 := shiftImmBytes_of_ne (by tauto)
    exact .bind_const fun _ => .pure fun bytes h => by have := hP bytes h; omega
  case isFalse =>
  split
  case isTrue h =>
    have : shiftImmBytes opcode = 1 := if_pos h.left
    refine .bind (by omega) fun _ => .bind_const fun _ => .pure fun bytes h => ?_
    have := hP bytes h.left
    omega
  case isFalse =>
  split
  case isTrue h =>
    have : shiftImmBytes opcode = 0 := shiftImmBytes_of_ne (by tauto)
    exact .bind_const fun _ => .pure fun bytes h => by have := hP bytes h; omega
  case isFalse =>
    refine .bind (by omega) fun ⟨addr, used⟩ => .bind_const fun _ => ?_
    refine .bind (by omega) fun ⟨count, extraBytes⟩ => .bind_const fun ⟨_, _⟩ => ?_
    refine .bind_const fun _ => .bind_const fun _ => .pure fun bytes h => ?_
    obtain ⟨⟨hp, hu, _⟩, he⟩ := h
    have := hP bytes hp
    dsimp only at hu he ⊢
    omega

instance :
    Consumes start cursor (decodeGroup2 prefixes opcode · cursor) fun bytes n =>
      n = 1 + rmLengthAt bytes (cursor + 1) + registerSibAt bytes (cursor + 1) +
        shiftImmBytes opcode where
  reads hs := by
    unfold decodeGroup2
    refine .bind (by omega) fun modrm => .bind (by omega) fun modrmBytes => ?_
    split
    case isTrue =>
      refine (decodeGroup2RclRcr_reads _ _ _ _ _ (fun bytes h => by omega) hs).mono ?_
      intro bytes n h hn
      simp only [rmLengthAt, registerSibAt, h.left.right]
      omega
    case isFalse =>
      refine .bind_lift fun _ _ => .bind (by omega) fun ⟨_, extraBytes⟩ => ?_
      refine .bind (by omega) fun ⟨_, _⟩ => .bind_const fun _ => .bind_const fun _ => ?_
      refine .bind_const fun _ => .pure fun bytes h => ?_
      obtain ⟨⟨⟨⟨_, hm⟩, hn, _⟩, he⟩, hu, _⟩ := h
      dsimp only at he hu ⊢
      simp only [rmLengthAt, registerSibAt, hm]
      omega

end Shift

section Atomic

instance : ConsumesRm start cursor (decodeXadd prefixes opcode · cursor) := .derive

instance :
    ReadsSpec (sameByte start)
      (emitCmpxchgDst prefixes · cursor modrm acc src size) (start ≤ cursor)
      (fun p => cursor + 1 + p.2.2)
      fun bytes p => p.2.2 = rmLength modrm bytes (cursor + 1) ∧ 1 ≤ p.2.2 := .derive

instance : ConsumesRm start cursor (decodeCmpxchg prefixes opcode · cursor) := .derive

instance : ConsumesRm start cursor (decodeCmpxchg8b16b prefixes opcode · cursor opcodeGuestPc) where
  reads hs := by
    unfold decodeCmpxchg8b16b
    refine .bind_lift fun _ _ => .bind (by omega) fun modrm => .bind_lift fun _ _ => ?_
    refine .bind (by omega) fun modrmBytes => .bind (by omega) fun ⟨addr, used⟩ => ?_
    dsimp only
    split
    all_goals
      refine .bind_const fun _ => .pure fun bytes h => ?_
      obtain ⟨⟨⟨_, hm⟩, hn, _⟩, hu, hu1, hmod⟩ := h
      have hreg := registerSib_of_mem hmod
      refine ⟨by omega, ?_⟩
      simp only [rmLengthAt, hm, hu]

instance : ConsumesRm start cursor (decodeMovnti prefixes opcode · cursor) := .derive

instance : ConsumesRm start cursor (decodeXchg prefixes opcode · cursor) := .derive

end Atomic

section Control

instance :
    ReadsSpec (sameByte start) (fun bytes => (liftM (readRel8 bytes offset) : Emit U64))
      (start ≤ offset) (fun _ => offset + 1) fun _ _ => True := by
  refine readsSpec_of_window offset id fun _ bytes bytes' h => ?_
  rw [readRel8, readRel8, byteAt_congr offset (h 0 (by omega))]

instance :
    ReadsSpec (sameByte start) (fun bytes => (liftM (readRel32 bytes offset) : Emit U64))
      (start ≤ offset) (fun _ => offset + 4) fun _ _ => True := by
  refine readsSpec_of_window offset id fun _ bytes bytes' h => ?_
  rw [readRel32, readRel32, readImm_congr offset (by omega) h]

instance : Consumes start cursor (decodeCondJumpRel8 · cursor opcodeGuestPc) fun _ n => n = 2 :=
  .derive

instance :
    ReadsSpec (sameByte start) (decodeCondJumpRel32 opcode · cursor opcodeGuestPc)
      (start ≤ cursor) (fun n => cursor + 1 + n) fun _ n => n = 5 := .derive

instance : Consumes start cursor (decodeCallRel32 · cursor opcodeGuestPc) fun _ n => n = 5 :=
  .derive

instance : Consumes start cursor (decodeJumpRel8 · cursor opcodeGuestPc) fun _ n => n = 2 := .derive

instance : Consumes start cursor (decodeJumpRel32 · cursor opcodeGuestPc) fun _ n => n = 5 :=
  .derive

instance :
    Consumes start cursor (decodeJrcxzRel8 prefixes · cursor opcodeGuestPc) fun _ n => n = 2 :=
  .derive

instance :
    Consumes start cursor (decodeLoopRel8 prefixes · cursor opcodeGuestPc) fun _ n => n = 2 :=
  .derive

instance : Consumes start cursor (decodeRetImm16 prefixes · cursor) fun _ n => n = 3 := .derive

instance : Consumes start cursor (decodeIntImm8 prefixes opcode · cursor) fun _ n => n = 2 :=
  .derive

instance :
    Consumes start cursor (decodeLegacyInvalidImm8 prefixes opcode · cursor) fun _ n => n = 2 :=
  .derive

instance : Consumes start cursor (decodeIoTrapImm8 prefixes opcode · cursor) fun _ n => n = 2 :=
  .derive

instance : ConsumesRmSib start cursor (decodeDescriptorGroup prefixes opcode · cursor) := .derive

instance : ConsumesRmSib start cursor (decodeTwoByteRmTrap prefixes opcode · cursor kind) := .derive

instance : ConsumesRmSib start cursor (decodeTwoByteAnyRmTrap prefixes opcode · cursor kind) :=
  .derive

instance : ConsumesConst start (decodeRdtsc prefixes opcode) 1 := .derive

instance : ConsumesConst start (decodeXgetbv prefixes opcode) 2 := .derive

theorem systemRegisterTrap_eq {modrm : ModRm} (h : systemRegisterTrap modrm) :
    modrm.mod = 3 ∧ modrm.reg ≠ 6 := by
  simp only [systemRegisterTrap, decide_eq_true_eq] at h
  refine ⟨h.left, fun h6 => ?_⟩
  simp [h6] at h

theorem systemOperandTrap_eq {modrm : ModRm} (h : systemOperandTrap modrm) :
    modrm.reg = 6 ∨ modrm.mod ≠ 3 := by
  simp only [systemOperandTrap, decide_eq_true_eq] at h
  tauto

instance :
    Consumes start cursor (decodeSystemGroup prefixes opcode · cursor) fun bytes n =>
      n = 1 + rmLengthAt bytes (cursor + 1) + systemExtra cursor bytes where
  reads hs := by
    unfold decodeSystemGroup
    refine .bind (by omega) fun modrm => ?_
    split
    case isTrue h =>
      refine .tail trivial fun bytes n hm hn => ?_
      simp [hm.right, hn, h]
    case isFalse =>
    split
    case isTrue h =>
      have ⟨hmod, hreg⟩ := systemRegisterTrap_eq h
      refine .bind_lift fun _ _ => .bind_const fun _ => .pure fun bytes hm => ⟨by omega, ?_⟩
      simp only [rmLengthAt, systemExtra, hm.right, if_neg hreg, rmLength, sibLength_of_reg hmod,
        dispLength_of_reg hmod]
    case isFalse =>
    split
    case isTrue h =>
      refine .bind_lift fun _ _ => .bind (by omega) fun n => .bind_const fun _ => .pure ?_
      intro bytes hn
      have hreg : (if modrm.reg = 6 then registerSib modrm else 0) = registerSib modrm := by
        cases systemOperandTrap_eq h with
        | inl h => rw [if_pos h]
        | inr h => rw [registerSib_of_mem h, ite_self]
      simp only [rmLengthAt, systemExtra, hn.left.right, hreg]
      omega
    case isFalse => exact .throw

instance : ConsumesRmSib start cursor (decodeNopRm opcode · cursor) := .derive

instance : ConsumesRm start cursor (decodePrefetch opcode · cursor) := .derive

instance : ConsumesRm start cursor (decodePrefetchw opcode · cursor) := .derive

instance : ConsumesRm start cursor (decodeEndbr prefixes opcode · cursor) where
  reads hs := by
    unfold decodeEndbr
    refine .bind_lift fun _ _ => .bind (by omega) fun b => .bind_lift fun _ hb => .pure ?_
    intro bytes h
    have hlen : rmLength (.ofByte b) bytes (cursor + 1) = 1 := by
      have hb : b = 0xFA ∨ b = 0xFB := by simpa [Decidable.or_iff_not_imp_left] using hb
      cases hb with
      | inl hb => subst hb; rfl
      | inr hb => subst hb; rfl
    refine ⟨by omega, ?_⟩
    simp only [rmLengthAt, modrmAt, h.right, Option.map_some, hlen]

instance : ConsumesRm start cursor (decodeFence prefixes opcode · cursor) := .derive

instance : ConsumesRm start cursor (decodeX87D9 prefixes opcode · cursor) := .derive

instance : ConsumesRm start cursor (decodeX87DB prefixes opcode · cursor) := .derive

end Control

section BitOps

instance : ConsumesRm start cursor (decodeCmov prefixes opcode · cursor) := .derive

instance : ConsumesRm start cursor (decodeSetcc prefixes opcode · cursor) := .derive

instance : ConsumesRm start cursor (decodePopcnt prefixes · cursor) := .derive

instance : ConsumesRm start cursor (decodeLzcnt prefixes · cursor) := .derive

instance : ConsumesRm start cursor (decodeTzcnt prefixes · cursor) := .derive

instance : ConsumesRm start cursor (decodeBsfBsr prefixes · cursor isBsr) := .derive

instance :
    Consumes start cursor (decodeBtGroupImm8 prefixes opcode · cursor) fun bytes n =>
      n = 1 + rmLengthAt bytes (cursor + 1) + 1 := .derive

instance :
    ReadsSpec (sameByte start) (decodeMovbe prefixes opcode · cursor)
      (start ≤ cursor) (fun n => cursor + n - 1)
      fun bytes n => n = 2 + rmLengthAt bytes (cursor + 1) := .derive

instance :
    ReadsSpec (sameByte start) (decodeCrc32c prefixes opcode · cursor)
      (start ≤ cursor) (fun n => cursor + n - 1)
      fun bytes n => n = 2 + rmLengthAt bytes (cursor + 1) := .derive

end BitOps

section Vector

instance :
    ReadsSpec (sameByte start) (loadVexRm prefixes vex · cursor modrm size)
      (start ≤ cursor) (fun p => cursor + 1 + p.2)
      fun bytes p => p.2 = rmLength modrm bytes (cursor + 1) ∧ 1 ≤ p.2 := .derive

instance : ConsumesRm start cursor (decodeVexBmi1Andn prefixes vex opcode · cursor) := .derive

instance : ConsumesRm start cursor (decodeVexBmi1BlsGroup prefixes vex opcode · cursor) := .derive

instance : ConsumesRm start cursor (decodeVexBmi1Bextr prefixes vex opcode · cursor) := .derive

section Counted

variable {P : List U8 → Prop} {need : Nat} (used : Nat)
  (hP : ∀ bytes, P bytes → need ≤ cursor + 1 + used ∧ rmLength modrm bytes (cursor + 1) ≤ used)
  (hs : start ≤ cursor)

include hP hs

theorem counted_reads {α : Type} {c : Prop} [Decidable c] {m : Emit α} {f : Ref × Nat → Emit α} :
    Reads (sameByte start) P need
      (fun bytes => if c then m else emitAddrWithSize modrm prefixes bytes (cursor + 1) >>= f)
      (fun _ => cursor + 1 + used) fun _ _ => True := by
  split
  case isTrue => exact .const fun bytes _ h => ⟨(hP bytes h).left, trivial⟩
  case isFalse =>
    refine .bind (by omega) fun ⟨addr, n⟩ => .const fun bytes _ h => ⟨?_, trivial⟩
    have := hP bytes h.left
    have hn : n = rmLength modrm bytes (cursor + 1) := h.right.left
    omega

theorem loadXmmRm_reads : Reads (sameByte start) P need (loadXmmRm prefixes · cursor modrm)
    (fun _ => cursor + 1 + used) fun _ _ => True :=
  counted_reads _ _ _ _ hP hs

theorem loadF16cSrc_reads : Reads (sameByte start) P need (loadF16cSrc prefixes vex · cursor modrm)
    (fun _ => cursor + 1 + used) fun _ _ => True :=
  counted_reads _ _ _ _ hP hs

theorem storeF16cDst_reads (result : Ref) :
    Reads (sameByte start) P need (storeF16cDst prefixes vex · cursor modrm result)
      (fun _ => cursor + 1 + used) fun _ _ => True :=
  counted_reads _ _ _ _ hP hs

end Counted

instance : ConsumesRmSib start cursor (decodeVexVcvtph2ps prefixes vex opcode · cursor) where
  reads hs := by
    unfold decodeVexVcvtph2ps
    refine .bind_lift fun _ _ => .bind (by omega) fun modrm => .bind (by omega) fun used => ?_
    refine .andThen (n := 0) (loadF16cSrc_reads _ _ _ _ used (fun _ _ => by omega) hs) fun _ => ?_
    refine .bind_const fun _ => .bind_const fun _ => .pure fun bytes h => ⟨by omega, ?_⟩
    simp only [rmLengthAt, registerSibAt, h.left.left.right]
    omega

instance :
    Consumes start cursor (decodeVexVcvtps2ph prefixes vex opcode · cursor) fun bytes n =>
      n = 1 + rmLengthAt bytes (cursor + 1) + registerSibAt bytes (cursor + 1) + 1 where
  reads hs := by
    unfold decodeVexVcvtps2ph
    refine .bind_lift fun _ _ => .bind (by omega) fun modrm => .bind (by omega) fun used => ?_
    refine .bind (by omega) fun imm => .bind_const fun _ => .bind_const fun _ => ?_
    refine .andThen (n := 0) (storeF16cDst_reads _ _ _ _ (used + 1) (fun _ _ => by omega) hs _) fun _ => ?_
    refine .pure fun bytes h => ⟨by omega, ?_⟩
    simp only [rmLengthAt, registerSibAt, h.left.left.left.right]
    omega

instance :
    ReadsSpec (sameByte start) (decodePclmulqdq prefixes opcode · cursor)
      (start ≤ cursor) (fun n => cursor + n - 1) fun bytes n =>
        n = 2 + rmLengthAt bytes (cursor + 1) + registerSibAt bytes (cursor + 1) + 1 where
  reads hs := by
    unfold decodePclmulqdq
    refine .bind_lift fun _ _ => .bind (by omega) fun modrm => .bind (by omega) fun used => ?_
    refine .bind (by omega) fun imm => .bind_const fun _ => ?_
    refine .andThen (n := 0) (loadXmmRm_reads _ _ _ (used + 1) (fun _ _ => by omega) hs) fun _ => ?_
    refine .bind_const fun _ => .bind_const fun _ => .pure fun bytes h => ⟨by omega, ?_⟩
    simp only [rmLengthAt, registerSibAt, h.left.left.left.right]
    omega

instance :
    ReadsSpec (sameByte start) (decodePcmpxstr prefixes opcode · cursor)
      (start ≤ cursor) (fun n => cursor + n - 1) fun bytes n =>
        n = 2 + rmLengthAt bytes (cursor + 1) + registerSibAt bytes (cursor + 1) + 1 where
  reads hs := by
    unfold decodePcmpxstr
    refine .bind_lift fun _ _ => .bind (by omega) fun modrm => .bind (by omega) fun used => ?_
    refine .bind (by omega) fun imm => .bind_const fun _ => ?_
    refine .andThen (n := 0) (loadXmmRm_reads _ _ _ (used + 1) (fun _ _ => by omega) hs) fun _ => ?_
    refine .bind_const fun ⟨_, _⟩ => .bind_const fun _ => .bind_const fun _ => .pure ?_
    refine fun bytes h => ⟨by omega, ?_⟩
    simp only [rmLengthAt, registerSibAt, h.left.left.left.right]
    omega

end Vector

section Plain

instance : ConsumesConst start (decodePushR prefixes opcode) 1 := .derive

instance : ConsumesConst start (decodePopR prefixes opcode) 1 := .derive

instance : ConsumesConst start (decodeLeave prefixes) 1 := .derive

instance : ConsumesConst start decodePushfq 1 := .derive

instance : ConsumesConst start decodePopfq 1 := .derive

instance : ConsumesConst start decodeLahf 1 := .derive

instance : ConsumesConst start decodeSahf 1 := .derive

instance : ConsumesConst start (decodeXchgAcc prefixes opcode) 1 := .derive

instance : ConsumesConst start (decodeXlat prefixes) 1 := .derive

instance : ConsumesConst start (decodeSignExtendAcc prefixes) 1 := .derive

instance : ConsumesConst start (decodeSignExtendAccToDx prefixes) 1 := .derive

instance : ConsumesConst start (decodeLods prefixes opcode) 1 := .derive

instance : ConsumesConst start (decodeStos prefixes opcode) 1 := .derive

instance : ConsumesConst start (decodeScas prefixes opcode) 1 := .derive

instance : ConsumesConst start (decodeCmps prefixes opcode) 1 := .derive

instance : ConsumesConst start (decodeMovs prefixes opcode) 1 := .derive

instance : ConsumesConst start (decodeRet prefixes) 1 := .derive

instance : ConsumesConst start (decodeSyscall prefixes opcode) 1 := .derive

instance : ConsumesConst start (decodeUd2 prefixes opcode) 1 := .derive

instance : ConsumesConst start (decodeOneByteTrap prefixes opcode kind) 1 := .derive

instance : ConsumesConst start (decodeTwoByteTrap prefixes opcode kind) 1 := .derive

instance : ConsumesConst start (decodeCpuid prefixes opcode) 1 := .derive

instance : ConsumesConst start (decodeCacheTrap prefixes opcode) 1 := .derive

instance : ConsumesConst start (decodeMmxStateNoop prefixes opcode) 1 := .derive

instance : ConsumesConst start (decodeBswap prefixes opcode) 1 := .derive

instance : ConsumesConst start (decodeNop prefixes opcode) 1 where
  reads _ := by
    unfold decodeNop
    split
    case isTrue => exact .pure fun _ _ => ⟨Nat.zero_le _, rfl⟩
    case isFalse => exact .bind_lift fun _ _ => .pure fun _ _ => ⟨Nat.zero_le _, rfl⟩

instance : ConsumesConst start (decodeNoop prefixes opcode) 1 := .derive

end Plain

end Prisma.Decoder
