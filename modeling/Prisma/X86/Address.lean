import Prisma.X86.Forms

-- The addresses of memory operands.

namespace Prisma.X86

open Decoder

inductive AddressBase
  | none
  | reg (reg : Gpr)
  | rip
  deriving DecidableEq, Repr

-- The sum that a memory operand stands for.
structure MemOperand where
  base : AddressBase
  index : Option (Gpr × BitVec 2)
  disp : U64
  deriving DecidableEq, Repr

def AddressBase.value (base : AddressBase) (regs : GuestRegs) (rip : U64) : U64 :=
  match base with
  | .none => 0
  | .reg r => regs.gpr r
  | .rip => rip

-- The effective address, where `rip` is the address of the next instruction.
def MemOperand.effective (m : MemOperand) (regs : GuestRegs) (rip : U64) : U64 :=
  let index := match m.index with
    | none => 0
    | some (reg, scale) => regs.gpr reg * BitVec.ofNat 64 (2 ^ scale.toNat)
  m.base.value regs rip + index + m.disp

-- The length of the displacement. With mod 0 there is one only in place of a base register.
def dispBytes (mod : BitVec 2) (hasBase : Bool) : Nat :=
  match mod with
  | 0 => if hasBase then 0 else 4
  | 1 => 1
  | _ => 4

-- The displacement of the given length, extended with its sign.
def dispAt (bytes : List U8) (offset n : Nat) : Option U64 :=
  if offset + n ≤ bytes.length then
    some ((leValue (8 * n) ((bytes.drop offset).take n)).signExtend 64)
  else none

-- The operand with a SIB byte. RBP and R13 are no base with mod 0, and RSP is no index.
def sibOperand (rex : RexPrefix) (mod : BitVec 2) (sib : Sib) (disp : U64) : MemOperand where
  base := if mod = 0 ∧ sib.base = 5 then .none else .reg (register rex.b sib.base)
  index :=
    if register rex.x sib.index = .rsp then none else some (register rex.x sib.index, sib.scale)
  disp := disp

-- The memory operand of the ModR/M byte at `offset`.
def memOperandAt (rex : RexPrefix) (bytes : List U8) (offset : Nat) : Option MemOperand := do
  let modrm ← ModRm.ofByte <$> bytes[offset]?
  if modrm.mod = 3 then none
  else if modrm.rm = 4 then
    let sib ← Sib.ofByte <$> bytes[offset + 1]?
    let disp ← dispAt bytes (offset + 2) (dispBytes modrm.mod (sib.base ≠ 5))
    return sibOperand rex modrm.mod sib disp
  else
    let disp ← dispAt bytes (offset + 1) (dispBytes modrm.mod (modrm.rm ≠ 5))
    let base := if modrm.mod = 0 ∧ modrm.rm = 5 then .rip else .reg (register rex.b modrm.rm)
    return { base, index := none, disp }

end Prisma.X86
