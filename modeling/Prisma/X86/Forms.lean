import Prisma.X86.Basic
import Prisma.Decoder.Encoding

-- Which instruction is encoded at an offset, for the instructions whose meaning is compared with
-- what the decoder emits.

namespace Prisma.X86

open Decoder

-- An opcode behind its prefixes, which do not include a VEX prefix.
structure Instruction where
  prefixes : PrefixSet
  cursor : Nat
  opcode : U8

def instructionAt (bytes : List U8) (offset : Nat) : Option Instruction := do
  let p := prefixesAt bytes offset
  let opcode ← bytes[offset + p.count]?
  if p.vexMap = none ∧ isOpcodeByte opcode then
    some { prefixes := p.set, cursor := offset + p.count, opcode }
  else none

-- The size of the operands that have 16, 32 or 64 bits. REX.W goes before the prefix 66.
def wordSize (prefixes : PrefixSet) : OpSize :=
  match prefixes.rex.w, prefixes.operandOverride with
  | true, _ => .i64
  | false, true => .i16
  | false, false => .i32

-- The register with a number of four bits.
def register (extension : Bool) (field : BitVec 3) : Gpr :=
  gprFromIndex (extendIndex extension field)

-- Whether an 8-bit register operand is the low byte of a register, and not AH, CH, DH or BH.
def namesLowByte (prefixes : PrefixSet) (field : BitVec 3) : Bool :=
  prefixes.rex.present || !field.getLsbD 2

-- A register operand: the low part of a register, or one of AH, CH, DH and BH.
inductive Operand
  | low (reg : Gpr) (size : OpSize)
  | highByte (number : BitVec 2)
  deriving DecidableEq, Repr

namespace Operand

def size (operand : Operand) : OpSize :=
  match operand with
  | low _ size => size
  | highByte _ => .i8

-- The register that a high byte belongs to.
def highByteReg (number : BitVec 2) : Gpr :=
  register false (number.setWidth 3)

def read (regs : GuestRegs) (operand : Operand) : BitVec operand.size.bitWidth :=
  match operand with
  | low reg size => readGpr regs reg size
  | highByte number => (regs.gpr (highByteReg number)).extractLsb' 8 8

-- A write of bits 8 to 15.
def writeHighByte (old : U64) (v : U8) : U64 :=
  (old >>> 16 <<< 16) ||| (v.setWidth 64 <<< 8) ||| (old.setWidth 8).setWidth 64

def write (regs : GuestRegs) (operand : Operand) (v : BitVec operand.size.bitWidth) : GuestRegs :=
  match operand with
  | low reg _ => writeGpr regs reg v
  | highByte number =>
    setGpr regs (highByteReg number) (writeHighByte (regs.gpr (highByteReg number)) v)

-- The operand of a register field, whose number has the given extension.
def ofField (prefixes : PrefixSet) (extension : Bool) (field : BitVec 3) (size : OpSize) : Operand :=
  if size = .i8 ∧ !namesLowByte prefixes field then highByte (field.setWidth 2)
  else low (register extension field) size

end Operand

structure AluForm where
  kind : Alu
  dst : Gpr
  src : Gpr
  size : OpSize
  deriving DecidableEq, Repr

-- The operands in the order that the opcode gives, where both are registers.
def AluForm.ofOpcode (opcode : U8) (rm reg : Gpr) (size : OpSize) : Option AluForm :=
  let kind := Alu.ofNumber (opcode.extractLsb' 3 3)
  match opcode.extractLsb' 0 3 with
  | 1 => some { kind, dst := rm, src := reg, size }
  | 3 => some { kind, dst := reg, src := rm, size }
  | _ => none

-- The instructions 01, 03, ..., 39, 3B with two registers of 16, 32 or 64 bits.
def aluFormAt (bytes : List U8) (offset : Nat) : Option AluForm := do
  let insn ← instructionAt bytes offset
  let modrm ← ModRm.ofByte <$> bytes[insn.cursor + 1]?
  let rm := register insn.prefixes.rex.b modrm.rm
  let reg := register insn.prefixes.rex.r modrm.reg
  if insn.opcode.extractLsb' 6 2 = 0 ∧ modrm.mod = 3 then
    AluForm.ofOpcode insn.opcode rm reg (wordSize insn.prefixes)
  else none

section Effect

variable (form : AluForm) (regs : GuestRegs)

def AluForm.lhs : BitVec form.size.bitWidth := readGpr regs form.dst form.size

def AluForm.rhs : BitVec form.size.bitWidth := readGpr regs form.src form.size

-- The carry that ADC and SBB find.
def carry : Bool := regs.cf.getLsbD 0

def AluForm.flags : StatusFlags :=
  form.kind.flags (form.lhs regs) (form.rhs regs) (carry regs)

-- The registers behind the instruction, without the flags. CMP does not write its result.
def AluForm.written : GuestRegs :=
  if form.kind = .cmp then regs
  else writeGpr regs form.dst (form.kind.result (form.lhs regs) (form.rhs regs) (carry regs))

end Effect

end Prisma.X86
