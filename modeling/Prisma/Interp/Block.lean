import Prisma.Lib.Run
import Prisma.IR.Refs
import Prisma.Interp.Arith
import Prisma.Interp.Vector

namespace Prisma

open Machine

inductive BlockOutcome
  | branch (pc : U64)
  | syscall
  | dynamicTransfer
  | trap (kind : TrapKind)
  | fallthrough
  | unsupported (what : String)
  deriving DecidableEq, Repr

-- Whether interpreting stopped for another reason than an operation outside the interpreted subset.
def BlockOutcome.supported : BlockOutcome → Bool
  | .unsupported _ => false
  | _ => true

-- The SSA values computed so far. Scalar and vector values live in separate tables, and a ref that
-- has no entry reads as zero.
@[ext]
structure Env where
  vals : Ref → U64
  vecVals : Ref → U128

-- The part of the interpreter's state that outlives a statement: the register file, the transient
-- NZCV flags, and whether these were written since the persisted RFLAGS were last changed.
@[ext]
structure Cpu where
  regs : GuestRegs
  flags : Flags
  nzcvLive : Bool

-- What a statement writes to the tables of SSA values if it has a result.
inductive Value
  | none
  | scalar (v : U64)
  | vector (v : U128)

def Env.empty : Env where
  vals _ := 0
  vecVals _ := 0

def Env.define (env : Env) (result : Option Ref) (value : Value) : Env :=
  match result, value with
  | some d, .scalar v => { env with vals := Function.update env.vals d v }
  | some d, .vector v => { env with vecVals := Function.update env.vecVals d v }
  | _, _ => env

namespace Cpu

def entry (regs : GuestRegs) : Cpu where
  regs := regs
  flags := {}
  nzcvLive := false

-- Condition consumers restore NZCV from the persisted RFLAGS if no flag writer ran.
def restoreFlags (cpu : Cpu) : Cpu :=
  if cpu.nzcvLive then cpu else { cpu with flags := flagsFromRflags cpu.regs.rflags }

def writeFlags (cpu : Cpu) (flags : Flags) : Cpu :=
  { cpu with flags := flags, nzcvLive := true }

-- Persisting RFLAGS invalidates the transient flags, except for `storeRflagsFromNzcv`.
def persist (cpu : Cpu) (regs : GuestRegs) : Cpu :=
  { cpu with regs := regs, nzcvLive := false }

end Cpu

-- NZCV of the operations that `WriteFlags` and `AluFlags` accept.
def flagsOfBinop (op : BinOpKind) (l r : U64) (size : OpSize) : Option Flags :=
  match op with
  | .sub => some (subFlags l r size)
  | .add => some (addFlags l r size)
  | .and => some (logicFlags (l &&& r) size)
  | .or => some (logicFlags (l ||| r) size)
  | .xor => some (logicFlags (l ^^^ r) size)
  | _ => none

def bit (b : Bool) : U64 :=
  if b then 1 else 0

abbrev OpStep := Step (Cpu × Value) (BlockOutcome × GuestRegs)

-- One arm of the interpreter's loop. Computing a value has no effect on the `cpu`, so the arms yield
-- the value also when the statement has no result to hold it. Where an arm does something else
-- without a result, it asks for `hasResult`.
def evalOp (op : Op) (hasResult : Bool) (env : Env) (cpu : Cpu) : OpStep :=
  let unsupported (what : String) : OpStep := .halt (.unsupported what, cpu.regs)
  match op with
  | .constant value size => .next (cpu, .scalar (mask value size))
  | .loadReg reg size => .next (cpu, .scalar (mask (cpu.regs.gpr reg) size))
  | .storeReg reg value size =>
    .next ({ cpu with regs := storeReg cpu.regs reg (env.vals value) size }, .none)
  | .vecConstant lo hi => .next (cpu, .vector (hi ++ lo))
  | .loadVecReg xmmIndex =>
    if hasResult then
      -- An index beyond the register file is an out-of-bounds panic.
      if h : xmmIndex.toNat < 16 then .next (cpu, .vector (cpu.regs.xmm ⟨xmmIndex.toNat, h⟩))
      else .panic
    else .next (cpu, .none)
  | .storeVecReg xmmIndex value =>
    if h : xmmIndex.toNat < 16 then
      let xmm := Function.update cpu.regs.xmm ⟨xmmIndex.toNat, h⟩ (env.vecVals value)
      .next ({ cpu with regs := { cpu.regs with xmm := xmm } }, .none)
    else .panic
  | .vecClMul lhs rhs lhsHigh rhsHigh =>
    .next (cpu, .vector (carrylessMulU64 (vecLaneU64 (env.vecVals lhs) lhsHigh)
      (vecLaneU64 (env.vecVals rhs) rhsHigh)))
  | .vecF16Cvt kind src rounding =>
    match kind with
    | .phToPs => .next (cpu, .vector (f16cPhToPs (env.vecVals src)))
    | .psToPh => .next (cpu, .vector (f16cPsToPh (env.vecVals src) rounding))
  | .binOp op lhs rhs size =>
    match evalBinop op (env.vals lhs) (env.vals rhs) size with
    | some r => .next (cpu, .scalar r)
    | none => unsupported "binop kind"
  | .wideDiv high low divisor signed result =>
    match evalWideDiv (env.vals high) (env.vals low) (env.vals divisor) signed result with
    | some (some r) => .next (cpu, .scalar r)
    | some none => unsupported "wide div trap"
    | none => .panic
  | .pcmpStrIndex lhs rhs lhsLen rhsLen imm8 =>
    let eval := evalPcmpStr (env.vecVals lhs) (env.vecVals rhs)
      (lhsLen.map env.vals) (rhsLen.map env.vals) imm8
    .next (cpu, .scalar (pcmpStrIndex eval imm8))
  | .pcmpStrMask lhs rhs lhsLen rhsLen imm8 =>
    let eval := evalPcmpStr (env.vecVals lhs) (env.vecVals rhs)
      (lhsLen.map env.vals) (rhsLen.map env.vals) imm8
    .next (cpu, .vector (pcmpStrMask eval imm8))
  | .pcmpStrFlags lhs rhs lhsLen rhsLen imm8 =>
    let eval := evalPcmpStr (env.vecVals lhs) (env.vecVals rhs)
      (lhsLen.map env.vals) (rhsLen.map env.vals) imm8
    .next (cpu, .scalar (pcmpStrFlags eval))
  | .extend value fromSize toSize isSigned =>
    let extended :=
      if isSigned then signExtendToU64 (env.vals value) fromSize
      else mask (env.vals value) fromSize
    .next (cpu, .scalar (mask extended toSize))
  | .truncate value toSize => .next (cpu, .scalar (mask (env.vals value) toSize))
  | .compare cc lhs rhs size =>
    -- Without a result the flags keep their value and only become live.
    if hasResult then
      let f := subFlags (env.vals lhs) (env.vals rhs) size
      .next (cpu.writeFlags f, .scalar (bit (evalCc cc f)))
    else .next (cpu.writeFlags cpu.flags, .none)
  | .cmpFlags lhs rhs size =>
    .next (cpu.writeFlags (subFlags (env.vals lhs) (env.vals rhs) size), .none)
  | .writeFlags op lhs rhs size =>
    match flagsOfBinop op (env.vals lhs) (env.vals rhs) size with
    | some flags => .next (cpu.writeFlags flags, .none)
    | none => unsupported "writeflags kind"
  | .aluFlags op lhs rhs size =>
    match flagsOfBinop op (env.vals lhs) (env.vals rhs) size with
    | some flags => .next (cpu.writeFlags flags, .none)
    | none => unsupported "aluflags kind"
  | .aluFlagsPreserveCarry op lhs rhs size =>
    let carry := cpu.regs.cf &&& 1 == 1
    match op with
    | .sub =>
      .next (cpu.writeFlags { subFlags (env.vals lhs) (env.vals rhs) size with c := carry }, .none)
    | .add =>
      .next (cpu.writeFlags { addFlags (env.vals lhs) (env.vals rhs) size with c := carry }, .none)
    | _ => unsupported "aluflags-preserve-carry kind"
  | .loadCarry => .next (cpu, .scalar (cpu.regs.cf &&& 1))
  | .readCarryOut _ fromSub =>
    let carry := if fromSub then !cpu.flags.c else cpu.flags.c
    .next (cpu, .scalar (bit carry))
  | .storeCarry value => .next (cpu.persist (storeCarry cpu.regs (env.vals value)), .none)
  | .loadRflags => .next (cpu, .scalar (cpu.regs.rflags ||| 2))
  | .storeRflags value => .next (cpu.persist (storeRflags cpu.regs (env.vals value)), .none)
  | .storeRflagsFromNzcv carry pf af =>
    let regs := storeRflagsFromFlags cpu.regs cpu.flags carry (pf.map env.vals) (af.map env.vals)
    .next ({ cpu with regs := regs }, .none)
  | .storeRflagsFromBits pf af zf sf of =>
    .next (cpu.persist (storeRflagsFromBits cpu.regs (pf.map env.vals) (af.map env.vals)
      (env.vals zf) (env.vals sf) (env.vals of)), .none)
  | .select cc trueValue falseValue size =>
    let cpu := cpu.restoreFlags
    let selected := if evalCc cc cpu.flags then env.vals trueValue else env.vals falseValue
    .next (cpu, .scalar (mask selected size))
  | .condJumpRel cc targetGuestPc fallthroughGuestPc =>
    let taken := evalCc cc cpu.restoreFlags.flags
    .halt (.branch (if taken then targetGuestPc else fallthroughGuestPc), cpu.regs)
  | .jumpRel targetGuestPc => .halt (.branch targetGuestPc, cpu.regs)
  | .syscall => .halt (.syscall, cpu.regs)
  | .trap kind => .halt (.trap kind, cpu.regs)
  | .trapIf condition kind =>
    if env.vals condition ≠ 0 then .halt (.trap kind, cpu.regs) else .next (cpu, .none)
  | .ret | .jumpReg _ | .callReg _ _ => .halt (.dynamicTransfer, cpu.regs)
  | _ => unsupported "op"

structure State where
  env : Env
  cpu : Cpu

namespace State

def entry (regs : GuestRegs) : State where
  env := .empty
  cpu := .entry regs

def fallthrough (s : State) : BlockOutcome × GuestRegs :=
  (.fallthrough, s.cpu.regs)

end State

def step (stmt : Stmt) (s : State) : Step State (BlockOutcome × GuestRegs) :=
  (evalOp stmt.op stmt.result.isSome s.env s.cpu).bind fun (cpu, value) =>
    .next { env := s.env.define stmt.result value, cpu }

-- Interprets one block's statements. `none` is a panic of the source.
def interpretBlock (stmts : List Stmt) (regs : GuestRegs) : Option (BlockOutcome × GuestRegs) :=
  run step State.fallthrough stmts (.entry regs)

end Prisma
