import Prisma.X86.Forms

-- Shifts and rotations through the carry.

namespace Prisma.X86

open Decoder

-- The count is cut to 5 bits, or to 6 bits for 64-bit operands.
def maskedCount (size : OpSize) (count : U8) : Nat :=
  count.toNat % (if size = .i64 then 64 else 32)

-- Where the count of a shift comes from.
inductive CountSource
  | one
  | cl
  | imm8 (imm : U8)
  deriving DecidableEq, Repr

def CountSource.count (source : CountSource) (regs : GuestRegs) : U8 :=
  match source with
  | one => 1
  | cl => (regs.gpr .rcx).setWidth 8
  | imm8 imm => imm

-- The bytes of the count in the instruction.
def CountSource.length : CountSource → Nat
  | one | cl => 0
  | imm8 _ => 1

-- The count with another byte in place of the immediate.
def CountSource.replace (source : CountSource) (imm : U8) : CountSource :=
  match source with
  | imm8 _ => imm8 imm
  | source => source

inductive ShiftKind
  | shl | shr | sar
  deriving DecidableEq, Repr

namespace ShiftKind

def ofNumber (n : BitVec 3) : Option ShiftKind :=
  match n with
  | 4 => some shl
  | 5 => some shr
  | 7 => some sar
  | _ => none

def apply (kind : ShiftKind) {w : Nat} (x : BitVec w) (count : Nat) : BitVec w :=
  match kind with
  | shl => x <<< count
  | shr => x >>> count
  | sar => x.sshiftRight count

end ShiftKind

-- SHL, SHR and SAR of a register.
structure ShiftForm where
  kind : ShiftKind
  dst : Operand
  source : CountSource
  deriving DecidableEq, Repr

-- The operand size and the count, where `imm` is the byte behind the operand.
def shiftSource (prefixes : PrefixSet) (opcode : U8) (imm : Option U8) :
    Option (OpSize × CountSource) :=
  match opcode with
  | 0xC0 => imm.map fun imm => (.i8, .imm8 imm)
  | 0xC1 => imm.map fun imm => (wordSize prefixes, .imm8 imm)
  | 0xD0 => some (.i8, .one)
  | 0xD1 => some (wordSize prefixes, .one)
  | 0xD2 => some (.i8, .cl)
  | 0xD3 => some (wordSize prefixes, .cl)
  | _ => none

-- The form, and where the instruction ends.
def shiftFormAt (bytes : List U8) (offset : Nat) : Option (ShiftForm × Nat) := do
  let insn ← instructionAt bytes offset
  let modrm ← ModRm.ofByte <$> bytes[insn.cursor + 1]?
  let (size, source) ← shiftSource insn.prefixes insn.opcode bytes[insn.cursor + 2]?
  let kind ← ShiftKind.ofNumber modrm.reg
  if modrm.mod = 3 then
    some (⟨kind, .ofField insn.prefixes insn.prefixes.rex.b modrm.rm size, source⟩,
      insn.cursor + 2 + source.length)
  else none

-- The registers behind the instruction, without the flags.
def ShiftForm.shifted (form : ShiftForm) (regs : GuestRegs) : GuestRegs :=
  form.dst.write regs <| form.kind.apply (form.dst.read regs) <|
    maskedCount form.dst.size (form.source.count regs)

-- RCL and RCR rotate the ring of the operand and CF above it.
structure RotateForm where
  right : Bool
  dst : Gpr
  size : OpSize
  source : CountSource
  deriving DecidableEq, Repr

namespace RotateForm

variable (form : RotateForm) (regs : GuestRegs)

def ring : BitVec (form.size.bitWidth + 1) :=
  BitVec.cons (carry regs) (readGpr regs form.dst form.size)

def count : Nat :=
  maskedCount form.size (form.source.count regs) % (form.size.bitWidth + 1)

def rotated : BitVec (form.size.bitWidth + 1) :=
  if form.right then (form.ring regs).rotateRight (form.count regs)
  else (form.ring regs).rotateLeft (form.count regs)

-- What the instruction does to the registers.
structure Does (regs' : GuestRegs) : Prop where
  gpr : regs'.gpr = (writeGpr regs form.dst ((form.rotated regs).setWidth form.size.bitWidth)).gpr
  xmm : regs'.xmm = regs.xmm
  carry : X86.carry regs' = (form.rotated regs).msb
  cf : regs'.rflags.getLsbD 0 = (form.rotated regs).msb

end RotateForm

end Prisma.X86
