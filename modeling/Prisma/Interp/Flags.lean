import Prisma.IR.Basic

namespace Prisma

-- Guest integer register file. `cf` mirrors the runtime's persistent carry slot and `rflags` the
-- persisted RFLAGS subset.
structure GuestRegs where
  gpr : Gpr → U64
  xmm : Fin 16 → U128
  cf : U64
  rflags : U64

def GuestRegs.default : GuestRegs where
  gpr _ := 0
  xmm _ := 0
  cf := 0
  rflags := 2

-- NZCV condition flags, as an ARM64 `SUBS` sets them.
structure Flags where
  n : Bool := false
  z : Bool := false
  c : Bool := false
  v : Bool := false
  deriving DecidableEq, Repr

def mask (value : U64) (size : OpSize) : U64 :=
  match size with
  | .i64 => value
  | _ => value &&& ((1 <<< size.bitWidth) - 1)

def msb (value : U64) (size : OpSize) : Bool :=
  (value >>> (size.bitWidth - 1)) &&& 1 == 1

-- The `i128` of the source is an integer here: no value it holds leaves the range.
def signExtendToI128 (value : U64) (size : OpSize) : Int :=
  let bits := size.bitWidth
  let masked := mask value size
  if masked.getLsbD (bits - 1) then masked.toNat - 2 ^ bits else masked.toNat

def signExtendToU64 (value : U64) (size : OpSize) : U64 :=
  BitVec.ofInt 64 (signExtendToI128 value size)

-- NZCV for `a - b`: C is "no borrow".
def subFlags (a b : U64) (size : OpSize) : Flags :=
  let a := mask a size
  let b := mask b size
  let result := mask (a - b) size
  { n := msb result size
    z := result == 0
    c := b ≤ a
    v := msb a size != msb b size && msb result size != msb a size }

def addFlags (a b : U64) (size : OpSize) : Flags :=
  let a := mask a size
  let b := mask b size
  let result := mask (a + b) size
  { n := msb result size
    z := result == 0
    c := result < a
    v := msb a size == msb b size && msb result size != msb a size }

def logicFlags (result : U64) (size : OpSize) : Flags where
  n := msb result size
  z := mask result size == 0
  c := false
  v := false

def flagsFromRflags (rflags : U64) : Flags where
  n := rflags &&& (1 <<< 7) != 0
  z := rflags &&& (1 <<< 6) != 0
  c := rflags &&& 1 != 0
  v := rflags &&& (1 <<< 11) != 0

def evalCc (cc : CondCode) (f : Flags) : Bool :=
  match cc with
  | .eq => f.z
  | .ne => !f.z
  | .uge | .nc => f.c
  | .ult | .cc => !f.c
  | .ugt => f.c && !f.z
  | .ule => !f.c || f.z
  | .sge => f.n == f.v
  | .slt => f.n != f.v
  | .sgt => !f.z && (f.n == f.v)
  | .sle => f.z || (f.n != f.v)
  | .mi => f.n
  | .pl => !f.n
  | .ov => f.v
  | .noOv => !f.v

-- 32-bit writes zero-extend to 64 bits, 8- and 16-bit writes preserve the upper bits.
def storeReg (regs : GuestRegs) (reg : Gpr) (value : U64) (size : OpSize) : GuestRegs :=
  let v := mask value size
  let stored := match size with
    | .i32 | .i64 => v
    | .i16 => (regs.gpr reg &&& ~~~0xFFFF) ||| v
    | .i8 => (regs.gpr reg &&& ~~~0xFF) ||| v
  { regs with gpr := fun r => if r = reg then stored else regs.gpr r }

def storeCarry (regs : GuestRegs) (value : U64) : GuestRegs :=
  let bit := value &&& 1
  { regs with cf := bit, rflags := (regs.rflags &&& ~~~1) ||| 2 ||| bit }

def storeRflags (regs : GuestRegs) (value : U64) : GuestRegs :=
  { regs with rflags := value ||| 2, cf := (value ||| 2) &&& 1 }

namespace Rflags

def cf : U64 := 1 <<< 0
def pf : U64 := 1 <<< 2
def af : U64 := 1 <<< 4
def zf : U64 := 1 <<< 6
def sf : U64 := 1 <<< 7
def of : U64 := 1 <<< 11

-- The bits a publication of NZCV or of explicit bits replaces: ZF, SF and OF always, PF and AF when
-- the statement has a value for them.
def clearMask (pf? af? : Option U64) : U64 :=
  (zf ||| sf ||| of) ||| (if pf?.isSome then pf else 0) ||| (if af?.isSome then af else 0)

-- `rflags |= bit` under a condition.
def setIf (cond : Bool) (bit rflags : U64) : U64 :=
  if cond then rflags ||| bit else rflags

def isOne (value : U64) : Bool :=
  value &&& 1 == 1

end Rflags

open Rflags in
def storeRflagsFromFlags (regs : GuestRegs) (flags : Flags) (carry : RflagsCarryMode)
    (pf? af? : Option U64) : GuestRegs :=
  let kept := match carry with
    | .preserve => regs.rflags &&& ~~~(clearMask pf? af?)
    | .armCarry | .invertArmCarry | .clear => regs.rflags &&& ~~~(cf ||| clearMask pf? af?)
  let rflags := setIf (pf?.any isOne) pf (kept ||| 2)
  let rflags := setIf (af?.any isOne) af rflags
  let rflags := setIf flags.z zf rflags
  let rflags := setIf flags.n sf rflags
  let rflags := setIf flags.v of rflags
  let rflags := match carry with
    | .armCarry => setIf flags.c cf rflags
    | .invertArmCarry => setIf (!flags.c) cf rflags
    | .preserve => setIf (isOne regs.cf) cf rflags
    | .clear => rflags
  { regs with rflags := rflags, cf := rflags &&& 1 }

open Rflags in
def storeRflagsFromBits (regs : GuestRegs) (pf? af? : Option U64) (zf' sf' of' : U64) :
    GuestRegs :=
  let rflags := (regs.rflags &&& ~~~(clearMask pf? af?)) ||| 2
  let rflags := (rflags &&& ~~~cf) ||| (regs.cf &&& 1)
  let rflags := setIf (pf?.any isOne) pf rflags
  let rflags := setIf (af?.any isOne) af rflags
  let rflags := setIf (isOne zf') zf rflags
  let rflags := setIf (isOne sf') sf rflags
  let rflags := setIf (isOne of') of rflags
  { regs with rflags := rflags }

end Prisma
