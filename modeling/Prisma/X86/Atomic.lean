import Prisma.X86.Address
import Prisma.Interp.Memory

-- CMPXCHG16B.

namespace Prisma.X86

open Decoder

-- The instruction 0F C7 /1 with REX.W and a memory operand, without a prefix that would change its
-- meaning.
def cmpxchg16bAt (bytes : List U8) (offset : Nat) : Option (Instruction × MemOperand) := do
  let insn ← instructionAt bytes offset
  let modrm ← ModRm.ofByte <$> bytes[insn.cursor + 2]?
  let operand ← memOperandAt insn.prefixes.rex bytes (insn.cursor + 2)
  if insn.opcode = 0x0F ∧ bytes[insn.cursor + 1]? = some 0xC7 ∧ modrm.reg = 1 ∧
      insn.prefixes.rex.w ∧ insn.prefixes.operandOverride = false ∧ insn.prefixes.rep = none then
    some (insn, operand)
  else none

-- The two halves of 16 bytes of memory.
structure Halves where
  low : U64
  high : U64
  deriving DecidableEq, Repr

def halvesAt (mem : Memory) (addr : U64) : Halves where
  low := loadScalar mem addr .i64
  high := loadScalar mem (addr + 8) .i64

def storeHalves (mem : Memory) (addr : U64) (halves : Halves) : Memory :=
  storeScalar (storeScalar mem addr halves.low .i64) (addr + 8) halves.high .i64

def zeroFlag (regs : GuestRegs) : Bool :=
  regs.rflags.getLsbD 6

-- The effect of the instruction on registers, memory and ZF: it compares memory with RDX:RAX, and
-- either replaces it by RCX:RBX or loads RDX:RAX.
def Cmpxchg16b (addr : U64) (regs : GuestRegs) (mem : Memory) (regs' : GuestRegs) (mem' : Memory) :
    Prop :=
  let old := halvesAt mem addr
  if old = ⟨regs.gpr .rax, regs.gpr .rdx⟩ then
    mem' = storeHalves mem addr ⟨regs.gpr .rbx, regs.gpr .rcx⟩ ∧
      regs'.gpr = regs.gpr ∧ zeroFlag regs' = true
  else
    mem' = mem ∧ regs'.gpr = ((setGpr (setGpr regs .rax old.low) .rdx old.high)).gpr ∧
      zeroFlag regs' = false

end Prisma.X86
