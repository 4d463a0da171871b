import Mathlib.Logic.Function.Basic
import Prisma.Passes.Basic

namespace Prisma.Cse

open Machine

-- The first result of each binary operation.
abbrev Seen := BinOpKind × Ref × Ref × OpSize → Option Ref

def noneSeen : Seen :=
  fun _ => none

def isFlushingOp : Op → Bool
  | .storeReg .. | .storeMem .. | .storeMemTSO .. | .atomicCmpxchg .. | .atomicCmpxchgPair ..
  | .storeRflags .. | .storeRflagsFromNzcv .. | .storeRflagsFromBits .. | .cmpFlags ..
  | .aluFlags .. | .aluFlagsPreserveCarry .. | .writeFlagsPopcnt .. | .writeFlagsCountZero ..
  | .syscall .. => true
  | _ => false

-- A repeated operation becomes a copy of the earlier result.
def eliminateStmt (seen : Seen) (stmt : Stmt) : Seen × Stmt :=
  if isFlushingOp stmt.op then (noneSeen, stmt)
  else
    match stmt.result, stmt.op with
    | some result, .binOp op lhs rhs size =>
      match seen (op, lhs, rhs, size) with
      | some prev => (seen, { stmt with op := .binOp .or prev prev size })
      | none => (Function.update seen (op, lhs, rhs, size) (some result), stmt)
    | _, _ => (seen, stmt)

def commonSubexpressionEliminate (func : Function) : Function :=
  func.mapBlocks <| rewrite (fun seen stmt => (eliminateStmt seen stmt).map id some) noneSeen

end Prisma.Cse
