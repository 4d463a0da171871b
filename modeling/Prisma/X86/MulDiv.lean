import Prisma.X86.Forms
import Prisma.Interp.Block

-- MUL, IMUL, DIV and IDIV of the accumulator and a register.

namespace Prisma.X86

open Decoder

-- The number that an operand stands for.
def integer (signed : Bool) {w : Nat} (x : BitVec w) : Int :=
  if signed then x.toInt else x.toNat

-- Whether a number is in the range of the operands of `w` bits.
def Fits (signed : Bool) (w : Nat) (z : Int) : Prop :=
  if signed then -2 ^ (w - 1) ≤ z ∧ z < 2 ^ (w - 1) else 0 ≤ z ∧ z < 2 ^ w

instance (signed : Bool) (w : Nat) (z : Int) : Decidable (Fits signed w z) :=
  inferInstanceAs (Decidable (if signed then _ else _))

-- AX from its bytes.
def ax (ah al : BitVec 8) : BitVec OpSize.i16.bitWidth :=
  ah ++ al

structure MulDivForm where
  divides : Bool
  signed : Bool
  src : Gpr
  size : OpSize
  deriving DecidableEq, Repr

-- The operand size of F6 and F7. An 8-bit operand is to be the low byte of its register.
def mulDivSize (insn : Instruction) (modrm : ModRm) : Option OpSize :=
  match insn.opcode with
  | 0xF6 => if namesLowByte insn.prefixes modrm.rm then some .i8 else none
  | 0xF7 => some (wordSize insn.prefixes)
  | _ => none

-- F6 and F7 with the numbers 4 to 7 and a register.
def mulDivFormAt (bytes : List U8) (offset : Nat) : Option MulDivForm := do
  let insn ← instructionAt bytes offset
  let modrm ← ModRm.ofByte <$> bytes[insn.cursor + 1]?
  let size ← mulDivSize insn modrm
  if modrm.mod = 3 ∧ modrm.reg.getLsbD 2 then
    some {
      divides := modrm.reg.getLsbD 1
      signed := modrm.reg.getLsbD 0
      src := register insn.prefixes.rex.b modrm.rm
      size }
  else none

namespace MulDivForm

variable (form : MulDivForm) (regs : GuestRegs)

section Multiply

def product : Int :=
  integer form.signed (readGpr regs .rax form.size) *
    integer form.signed (readGpr regs form.src form.size)

-- The registers behind a multiplication: the two halves of the product in RAX and RDX.
def multiplied : GuestRegs :=
  writeGpr (writeGpr regs .rax (.ofInt form.size.bitWidth (form.product regs))) .rdx
    (.ofInt form.size.bitWidth (form.product regs / 2 ^ form.size.bitWidth))

end Multiply

section Divide

-- AX, or the registers RDX and RAX together.
def dividendBits : BitVec (form.size.bitWidth + form.size.bitWidth) :=
  if form.size = .i8 then (regs.gpr .rax).setWidth _
  else readGpr regs .rdx form.size ++ readGpr regs .rax form.size

def dividend : Int := integer form.signed (form.dividendBits regs)

def divisor : Int := integer form.signed (readGpr regs form.src form.size)

-- The quotient is truncated, so that the remainder has the sign of the dividend.
def quotient : Int := (form.dividend regs).tdiv (form.divisor regs)

def remainder : Int := (form.dividend regs).tmod (form.divisor regs)

-- Whether a division raises a divide error.
def Faults : Prop :=
  form.divisor regs = 0 ∨ ¬Fits form.signed form.size.bitWidth (form.quotient regs)

instance : Decidable (form.Faults regs) :=
  inferInstanceAs (Decidable (_ ∨ _))

-- The registers behind a division: quotient and remainder in AL and AH, or in RAX and RDX.
def divided : GuestRegs :=
  match form.size with
  | .i8 => writeGpr regs .rax (ax (.ofInt 8 (form.remainder regs)) (.ofInt 8 (form.quotient regs)))
  | size =>
    writeGpr (writeGpr regs .rax (.ofInt size.bitWidth (form.quotient regs))) .rdx
      (.ofInt size.bitWidth (form.remainder regs))

-- How a division ends.
def outcome : BlockOutcome × GuestRegs :=
  if form.Faults regs then (.trap .sigfpe, regs) else (.fallthrough, form.divided regs)

end Divide

end MulDivForm

end Prisma.X86
