import Prisma.Interp.Flags

-- What the guest instructions are to do, in terms of bit vectors of the operand size.

namespace Prisma.X86

-- The status flags that an instruction computes. The logical instructions leave AF undefined.
structure StatusFlags where
  cf : Bool
  pf : Bool
  af : Option Bool
  zf : Bool
  sf : Bool
  of : Bool
  deriving DecidableEq, Repr

namespace StatusFlags

-- The flag at a bit of RFLAGS.
def bit (f : StatusFlags) (i : Nat) : Option Bool :=
  match i with
  | 0 => some f.cf
  | 2 => some f.pf
  | 4 => f.af
  | 6 => some f.zf
  | 7 => some f.sf
  | 11 => some f.of
  | _ => none

-- RFLAGS have the flags.
def SetIn (f : StatusFlags) (rflags : U64) : Prop :=
  ∀ i b, f.bit i = some b → rflags.getLsbD i = b

-- The other bits of RFLAGS stay as they were.
def KeepOthers (f : StatusFlags) (old new : U64) : Prop :=
  ∀ i, f.bit i = none → new.getLsbD i = old.getLsbD i

end StatusFlags

section Results

variable {w : Nat} (x y r : BitVec w) (c : Bool)

-- PF is set if the low byte has an even number of ones.
def evenParity : Bool :=
  (List.range 8).countP (r.getLsbD ·) % 2 == 0

-- Whether the integer is out of the range of signed numbers.
def signedOverflow (w : Nat) (z : Int) : Bool :=
  z < -2 ^ (w - 1) || 2 ^ (w - 1) ≤ z

-- The flags of `x + y + c` with the result `r`.
def addFlags : StatusFlags where
  cf := 2 ^ w ≤ x.toNat + y.toNat + c.toNat
  pf := evenParity r
  af := some (16 ≤ x.toNat % 16 + y.toNat % 16 + c.toNat)
  zf := r == 0
  sf := r.msb
  of := signedOverflow w (x.toInt + y.toInt + c.toNat)

-- The flags of `x - y - c` with the result `r`.
def subFlags : StatusFlags where
  cf := x.toNat < y.toNat + c.toNat
  pf := evenParity r
  af := some (x.toNat % 16 < y.toNat % 16 + c.toNat)
  zf := r == 0
  sf := r.msb
  of := signedOverflow w (x.toInt - y.toInt - c.toNat)

def logicFlags : StatusFlags where
  cf := false
  pf := evenParity r
  af := none
  zf := r == 0
  sf := r.msb
  of := false

end Results

-- What a register holds after a write of the operand size: a 32-bit write clears the upper half, a
-- narrower one leaves the bits above alone.
def writeTo (size : OpSize) (old : U64) (v : BitVec size.bitWidth) : U64 :=
  match size with
  | .i64 | .i32 => v.setWidth 64
  | .i16 | .i8 => (old >>> size.bitWidth <<< size.bitWidth) ||| v.setWidth 64

def setGpr (regs : GuestRegs) (reg : Gpr) (v : U64) : GuestRegs :=
  { regs with gpr := Function.update regs.gpr reg v }

def readGpr (regs : GuestRegs) (reg : Gpr) (size : OpSize) : BitVec size.bitWidth :=
  (regs.gpr reg).setWidth size.bitWidth

def writeGpr (regs : GuestRegs) (reg : Gpr) {size : OpSize} (v : BitVec size.bitWidth) : GuestRegs :=
  setGpr regs reg (writeTo size (regs.gpr reg) v)

-- The eight instructions that share an encoding, in the order of their numbers.
inductive Alu
  | add | or | adc | sbb | and | sub | xor | cmp
  deriving DecidableEq, Repr

namespace Alu

def ofNumber (n : BitVec 3) : Alu :=
  match n with
  | 0 => add
  | 1 => or
  | 2 => adc
  | 3 => sbb
  | 4 => and
  | 5 => sub
  | 6 => xor
  | _ => cmp

variable {w : Nat} (kind : Alu) (x y : BitVec w) (c : Bool)

def result : BitVec w :=
  match kind with
  | add => x + y
  | or => x ||| y
  | adc => x + y + (BitVec.ofBool c).setWidth w
  | sbb => x - y - (BitVec.ofBool c).setWidth w
  | and => x &&& y
  | sub | cmp => x - y
  | xor => x ^^^ y

def flags : StatusFlags :=
  let r := kind.result x y c
  match kind with
  | add => addFlags x y r false
  | adc => addFlags x y r c
  | sub | cmp => subFlags x y r false
  | sbb => subFlags x y r c
  | and | or | xor => logicFlags r

end Alu

end Prisma.X86
