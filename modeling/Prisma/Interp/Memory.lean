import Prisma.Lib.ByteMemory
import Prisma.Interp.Block

namespace Prisma

open Machine ByteMemory

-- The block interpreter extended by guest memory. The interpreter of the source stops at operations
-- that access memory; here they have the meaning that the IR documents for them.

abbrev Memory := ByteMemory.Memory 64

def OpSize.bytes (size : OpSize) : Nat :=
  size.bitWidth / 8

def loadScalar (mem : Memory) (addr : U64) (size : OpSize) : U64 :=
  load 64 mem addr size.bytes

def storeScalar (mem : Memory) (addr value : U64) (size : OpSize) : Memory :=
  store mem addr value size.bytes

def loadVector (mem : Memory) (addr : U64) : U128 :=
  load 128 mem addr 16

def storeVector (mem : Memory) (addr : U64) (value : U128) : Memory :=
  store mem addr value 16

-- Lane `i` of a vector, widened without sign.
def lane (v : U128) (size : OpSize) (i : Nat) : U64 :=
  (v.extractLsb' (i * size.bitWidth) size.bitWidth).setWidth 64

def setLane (v : U128) (size : OpSize) (i : Nat) (x : U64) : U128 :=
  let shift := i * size.bitWidth
  (v &&& ~~~(size.mask.setWidth 128 <<< shift)) ||| ((x &&& size.mask).setWidth 128 <<< shift)

-- A gather reads the elements of the lanes whose mask has its top bit set. The other lanes do not
-- touch memory.
structure Gather where
  base : U64
  index : U128
  mask : U128
  scaleShift : U8
  elemSize : OpSize
  indexSize : OpSize
  laneCount : U8
  destLaneBase : U8
  indexLaneBase : U8

namespace Gather

-- The gathered lanes with the addresses of their elements.
def elements (g : Gather) : List (Nat × U64) :=
  (List.range g.laneCount.toNat).filterMap fun i =>
    let d := g.destLaneBase.toNat + i
    let x := g.indexLaneBase.toNat + i
    if msb (lane g.mask g.elemSize d) g.elemSize then
      some (d, g.base + (signExtendToU64 (lane g.index g.indexSize x) g.indexSize <<<
        g.scaleShift.toNat))
    else none

def result (g : Gather) (mem : Memory) (prev : U128) : U128 :=
  g.elements.foldl (fun dst (d, addr) => setLane dst g.elemSize d (loadScalar mem addr g.elemSize))
    prev

end Gather

-- The string operations run a bounded number of iterations before they go back to the dispatcher.
def repMaxBytesPerCall : Nat := 16 <<< 20

def repCount (rcx : U64) (size : OpSize) : Nat :=
  min rcx.toNat (repMaxBytesPerCall / size.bytes)

def repStep (size : OpSize) (reverse : Bool) : U64 :=
  if reverse then -BitVec.ofNat 64 size.bytes else BitVec.ofNat 64 size.bytes

def repStosLoop (value : U64) (size : OpSize) (step : U64) : Nat → U64 → Memory → Memory
  | 0, _, mem => mem
  | n + 1, rdi, mem => repStosLoop value size step n (rdi + step) (storeScalar mem rdi value size)

-- The memory afterwards and the elements read.
def repMovsLoop (size : OpSize) (step : U64) : Nat → U64 → U64 → Memory → Memory × List U64
  | 0, _, _, mem => (mem, [])
  | n + 1, rsi, rdi, mem =>
    let x := loadScalar mem rsi size
    let (mem, xs) := repMovsLoop size step n (rsi + step) (rdi + step) (storeScalar mem rdi x size)
    (mem, x :: xs)

-- The registers after `n` iterations. `RCX` holds the count that remains.
def repRegs (regs : GuestRegs) (n : Nat) (step : U64) (movs : Bool) : GuestRegs :=
  let advance := BitVec.ofNat 64 n * step
  { regs with gpr := fun r =>
      match r with
      | .rcx => regs.gpr .rcx - BitVec.ofNat 64 n
      | .rdi => regs.gpr .rdi + advance
      | .rsi => if movs then regs.gpr .rsi + advance else regs.gpr .rsi
      | r => regs.gpr r }

def repExit (regs : GuestRegs) (pcOfRep pcAfterRep : U64) : BlockOutcome :=
  .branch (if regs.gpr .rcx = 0 then pcAfterRep else pcOfRep)

-- What the operations without access to memory do. All that matters of it is that `Or x, x` copies.
structure OpSemantics where
  evalOp : Op → Bool → Env → Cpu → OpStep
  copy : ∀ r size env cpu, evalOp (.binOp .or r r size) true env cpu =
    .next (cpu, .scalar (mask (env.vals r) size))

-- The semantics of the block interpreter.
def OpSemantics.interp : OpSemantics where
  evalOp := Prisma.evalOp
  copy r size env cpu := by
    have h : mask (mask (env.vals r) size) size = mask (env.vals r) size := by
      cases size
      case i64 => rfl
      all_goals simp [mask, BitVec.and_assoc]
    simp [Prisma.evalOp, evalBinop, h]

@[ext]
structure MemState where
  env : Env
  cpu : Cpu
  mem : Memory

structure MemOutcome where
  outcome : BlockOutcome
  regs : GuestRegs
  mem : Memory

namespace MemState

def entry (regs : GuestRegs) (mem : Memory) : MemState where
  env := .empty
  cpu := .entry regs
  mem := mem

def fallthrough (s : MemState) : MemOutcome where
  outcome := .fallthrough
  regs := s.cpu.regs
  mem := s.mem

def define (s : MemState) (result : Option Ref) (value : Value) : MemState :=
  { s with env := s.env.define result value }

end MemState

def gatherOf (base index mask : Ref) (scaleShift elemIs64 indexIs64 laneCount destLaneBase
    indexLaneBase : U8) (env : Env) : Gather where
  base := env.vals base
  index := env.vecVals index
  mask := env.vecVals mask
  scaleShift := scaleShift
  elemSize := if elemIs64 = 0 then .i32 else .i64
  indexSize := if indexIs64 = 0 then .i32 else .i64
  laneCount := laneCount
  destLaneBase := destLaneBase
  indexLaneBase := indexLaneBase

def memStep (sem : OpSemantics) (stmt : Stmt) (s : MemState) : Step MemState MemOutcome :=
  let val := s.env.vals
  let gpr := s.cpu.regs.gpr
  match stmt.op with
  | .loadMem addr size | .loadMemTSO addr size =>
    .next (s.define stmt.result (.scalar (loadScalar s.mem (val addr) size)))
  | .loadVec addr => .next (s.define stmt.result (.vector (loadVector s.mem (val addr))))
  | .vecGather base index mask prev scaleShift elemIs64 indexIs64 laneCount destLaneBase
      indexLaneBase =>
    let g := gatherOf base index mask scaleShift elemIs64 indexIs64 laneCount destLaneBase
      indexLaneBase s.env
    .next (s.define stmt.result (.vector (g.result s.mem (s.env.vecVals prev))))
  | .storeMem addr value size | .storeMemTSO addr value size =>
    .next { s with mem := storeScalar s.mem (val addr) (val value) size }
  | .storeVec addr value =>
    .next { s with mem := storeVector s.mem (val addr) (s.env.vecVals value) }
  | .atomicCmpxchg addr expected newValue size =>
    let old := loadScalar s.mem (val addr) size
    let mem := if old = mask (val expected) size
      then storeScalar s.mem (val addr) (val newValue) size else s.mem
    .next ({ s with mem }.define stmt.result (.scalar old))
  | .atomicCmpxchgPair addr expectedLow expectedHigh newLow newHigh oldHigh =>
    let low := loadScalar s.mem (val addr) .i64
    let high := loadScalar s.mem (val addr + 8) .i64
    let mem := if low = val expectedLow ∧ high = val expectedHigh
      then storeScalar (storeScalar s.mem (val addr) (val newLow) .i64) (val addr + 8)
        (val newHigh) .i64
      else s.mem
    .next (({ s with mem }.define stmt.result (.scalar low)).define (some oldHigh) (.scalar high))
  | .fence _ => .next s
  | .repStos size reverse pcOfRep pcAfterRep =>
    let n := repCount (gpr .rcx) size
    let step := repStep size reverse
    let regs := repRegs s.cpu.regs n step false
    let mem := repStosLoop (gpr .rax) size step n (gpr .rdi) s.mem
    .halt { outcome := repExit regs pcOfRep pcAfterRep, regs, mem }
  | .repMovs size reverse pcOfRep pcAfterRep =>
    let n := repCount (gpr .rcx) size
    let step := repStep size reverse
    let regs := repRegs s.cpu.regs n step true
    let mem := (repMovsLoop size step n (gpr .rsi) (gpr .rdi) s.mem).1
    .halt { outcome := repExit regs pcOfRep pcAfterRep, regs, mem }
  | op =>
    match sem.evalOp op stmt.result.isSome s.env s.cpu with
    | .next (cpu, value) => .next ({ s with cpu }.define stmt.result value)
    | .halt (outcome, regs) => .halt { outcome, regs, mem := s.mem }
    | .panic => .panic

def interpretMem (sem : OpSemantics) (stmts : List Stmt) (regs : GuestRegs) (mem : Memory) :
    Option MemOutcome :=
  run (memStep sem) MemState.fallthrough stmts (.entry regs mem)

-- The values that an operation loads from memory.
def loaded (op : Op) (s : MemState) : List U128 :=
  let val := s.env.vals
  match op with
  | .loadMem addr size | .loadMemTSO addr size | .atomicCmpxchg addr _ _ size =>
    [(loadScalar s.mem (val addr) size).setWidth 128]
  | .loadVec addr => [loadVector s.mem (val addr)]
  | .vecGather base index mask _ scaleShift elemIs64 indexIs64 laneCount destLaneBase
      indexLaneBase =>
    let g := gatherOf base index mask scaleShift elemIs64 indexIs64 laneCount destLaneBase
      indexLaneBase s.env
    g.elements.map fun (_, addr) => (loadScalar s.mem addr g.elemSize).setWidth 128
  | .atomicCmpxchgPair addr _ _ _ _ _ =>
    [loadScalar s.mem (val addr + 8) .i64 ++ loadScalar s.mem (val addr) .i64]
  | .repMovs size reverse _ _ =>
    let gpr := s.cpu.regs.gpr
    let n := repCount (gpr .rcx) size
    (repMovsLoop size (repStep size reverse) n (gpr .rsi) (gpr .rdi) s.mem).2.map (·.setWidth 128)
  | _ => []

-- A run that records the values of all loads.
structure LogState where
  state : MemState
  log : List U128

def logStep (sem : OpSemantics) (stmt : Stmt) (s : LogState) :
    Step LogState (MemOutcome × List U128) :=
  let log := s.log ++ loaded stmt.op s.state
  match memStep sem stmt s.state with
  | .next state => .next { state, log }
  | .halt o => .halt (o, log)
  | .panic => .panic

def observe (sem : OpSemantics) (stmts : List Stmt) (regs : GuestRegs) (mem : Memory) :
    Option (MemOutcome × List U128) :=
  run (logStep sem) (fun s => (s.state.fallthrough, s.log)) stmts ⟨.entry regs mem, []⟩

end Prisma
