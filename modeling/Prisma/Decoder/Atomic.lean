import Prisma.Decoder.Alu

namespace Prisma.Decoder

variable (prefixes : PrefixSet) (opcode : U8) (bytes : List U8) (cursor : Nat)

section Xadd

def xaddSize : OpSize :=
  if opcode = 0xC0 then .i8 else operandSize prefixes

def decodeXadd : Emit Nat := do
  rejectIf (prefixes.rep.isSome || prefixes.lock || prefixes.segment.isSome)
    (.unsupportedOpcode opcode)
  let size := xaddSize prefixes opcode
  let modrm ← parseModrm bytes (cursor + 1)
  let srcReg := mapReg modrm.reg prefixes.rex true
  let src ← pushRef (.loadReg srcReg size)
  let (operand, used) ← rmOperand modrm prefixes bytes (cursor + 1)
  let dst ← operand.load size
  let result ← pushRef (.binOp .add dst src size)
  pushAluFlags .add dst src size
  pushStmt (.storeReg srcReg dst size)
  operand.store result size
  return 1 + used

end Xadd

section Cmpxchg

def cmpxchgSize : OpSize :=
  if opcode = 0xB0 then .i8 else operandSize prefixes

-- What a successful comparison leaves in the accumulator, and at which size it is written: AL and AX
-- alone, the whole of RAX otherwise.
def emitRaxKeep (acc : Ref) (size : OpSize) : Emit (Ref × OpSize) := do
  match size with
  | .i8 | .i16 => return (acc, size)
  | .i32 | .i64 =>
    let raxFull ← pushRef (.loadReg .rax .i64)
    return (raxFull, .i64)

-- The old value of the destination and its register. Memory is exchanged atomically here.
def emitCmpxchgDst (modrm : ModRm) (acc src : Ref) (size : OpSize) :
    Emit (Ref × Option Gpr × Nat) := do
  if modrm.mod = 3 then
    let dstReg := mapReg modrm.rm prefixes.rex false
    let dst ← pushRef (.loadReg dstReg size)
    return (dst, some dstReg, 1)
  else
    let (addr, used) ← emitAddrWithSize modrm prefixes bytes (cursor + 1)
    let dst ← pushRef (.atomicCmpxchg addr acc src size)
    return (dst, none, used)

-- The new value of a register destination.
def emitNewDst (dstReg : Option Gpr) (src dst : Ref) (size : OpSize) :
    Emit (Option (Gpr × Ref)) := do
  match dstReg with
  | some dstReg =>
    let newDst ← pushRef (.select .eq src dst size)
    return some (dstReg, newDst)
  | none => return none

def emitStoreDst (newDst : Option (Gpr × Ref)) (size : OpSize) : Emit Unit := do
  match newDst with
  | some (dstReg, newDst) => pushStmt (.storeReg dstReg newDst size)
  | none => return ()

-- `if RAX == dst { dst = src } else { RAX = dst }`
def decodeCmpxchg : Emit Nat := do
  rejectIf (prefixes.rep = some 0xF2 ∨ prefixes.rep = some 0xF3) (.unsupportedOpcode opcode)
  rejectIf (prefixes.rex.w && prefixes.operandOverride) (.unsupportedOpcode opcode)
  let size := cmpxchgSize prefixes opcode
  let modrm ← parseModrm bytes (cursor + 1)
  rejectIf (prefixes.lock ∧ modrm.mod = 3) (.unsupportedOpcode opcode)
  let acc ← pushRef (.loadReg .rax size)
  let (raxKeep, raxSize) ← emitRaxKeep acc size
  let src ← pushRef (.loadReg (mapReg modrm.reg prefixes.rex true) size)
  let (dst, dstReg, used) ← emitCmpxchgDst prefixes bytes cursor modrm acc src size
  let _ ← pushRef (.cmpFlags acc dst size)
  let newDst ← emitNewDst dstReg src dst size
  let newRax ← pushRef (.select .eq raxKeep dst raxSize)
  pushStmt (.storeReg .rax newRax raxSize)
  emitStoreDst newDst size
  pushStoreRflagsFromNzcv .invertArmCarry none none
  return 1 + used

-- CMPXCHG16B. The refs for both halves of the old value are allocated before the statement that
-- defines them, so that they are the same ref.
def emitCmpxchg16b (addr : Ref) : Emit Unit := do
  let rax ← pushRef (.loadReg .rax .i64)
  let rdx ← pushRef (.loadReg .rdx .i64)
  let rbx ← pushRef (.loadReg .rbx .i64)
  let rcx ← pushRef (.loadReg .rcx .i64)
  let oldLow ← allocRef
  let oldHigh ← allocRef
  push (some oldLow) (.atomicCmpxchgPair addr rax rdx rbx rcx oldHigh)
  let lowEq ← pushRef (.compare .eq oldLow rax .i64)
  let highEq ← pushRef (.compare .eq oldHigh rdx .i64)
  let pairEq ← pushBinopRef .and lowEq highEq .i64
  let one ← pushConstantRef 1 .i64
  let _ ← pushRef (.cmpFlags pairEq one .i64)
  let newRax ← pushRef (.select .eq rax oldLow .i64)
  let newRdx ← pushRef (.select .eq rdx oldHigh .i64)
  pushStmt (.storeReg .rax newRax .i64)
  pushStmt (.storeReg .rdx newRdx .i64)
  pushStoreRflagsFromNzcv .preserve none none

-- CMPXCHG8B.
def emitCmpxchg8b (addr : Ref) : Emit Unit := do
  let c32 ← pushRef (.constant 32 .i64)
  let eax ← pushRef (.loadReg .rax .i32)
  let edx ← pushRef (.loadReg .rdx .i32)
  let ebx ← pushRef (.loadReg .rbx .i32)
  let ecx ← pushRef (.loadReg .rcx .i32)
  let raxFull ← pushRef (.loadReg .rax .i64)
  let rdxFull ← pushRef (.loadReg .rdx .i64)
  let cmpHi ← pushRef (.binOp .shl edx c32 .i64)
  let cmpVal ← pushRef (.binOp .or cmpHi eax .i64)
  let newHi ← pushRef (.binOp .shl ecx c32 .i64)
  let newVal ← pushRef (.binOp .or newHi ebx .i64)
  let oldMem ← pushRef (.atomicCmpxchg addr cmpVal newVal .i64)
  let _ ← pushRef (.cmpFlags cmpVal oldMem .i64)
  let memLo ← pushRef (.truncate oldMem .i32)
  let memHi ← pushRef (.binOp .shr oldMem c32 .i64)
  let newRax ← pushRef (.select .eq raxFull memLo .i64)
  let newRdx ← pushRef (.select .eq rdxFull memHi .i64)
  pushStmt (.storeReg .rax newRax .i64)
  pushStmt (.storeReg .rdx newRdx .i64)
  pushStoreRflagsFromNzcv .preserve none none

def decodeCmpxchg8b16b (opcodeGuestPc : U64) : Emit Nat := do
  rejectIf (prefixes.operandOverride || prefixes.rep.isSome) (.unsupportedOpcode opcode)
  let modrm ← parseModrm bytes (cursor + 1)
  rejectIf (modrm.reg ≠ 1 ∨ modrm.mod = 3) (.unsupportedOpcode opcode)
  let modrmBytes ← bytesForModrm modrm bytes (cursor + 1)
  let ripAfter := opcodeGuestPc + BitVec.ofNat 64 (1 + modrmBytes)
  let (addr, used) ← emitAddrWithSizeAt modrm prefixes bytes (cursor + 1) ripAfter
  if prefixes.rex.w then
    emitCmpxchg16b addr
    return 1 + used
  else
    emitCmpxchg8b addr
    return 1 + used

end Cmpxchg

def decodeMovnti : Emit Nat := do
  rejectIf (prefixes.rep.isSome || prefixes.lock || prefixes.segment.isSome)
    (.unsupportedOpcode opcode)
  let size := operandSize prefixes
  let modrm ← parseModrm bytes (cursor + 1)
  rejectIf (modrm.mod = 3) (.unsupportedOpcode opcode)
  let value ← pushRef (.loadReg (mapReg modrm.reg prefixes.rex true) size)
  let (addr, used) ← emitAddrWithSize modrm prefixes bytes (cursor + 1)
  pushStmt (.storeMem addr value size)
  return 1 + used

end Prisma.Decoder
