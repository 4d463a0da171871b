import Prisma.IR.Refs
import Prisma.Passes.Basic

namespace Prisma.Dce

-- The operations that may be dropped when their result is unused.
def isPureForDce : Op → Bool
  | .constant .. | .loadReg .. | .binOp .. | .wideDiv .. | .compare .. | .select .. | .loadMem ..
  | .writeFlags .. | .readFlag .. | .writeFlagsFp .. | .vecConstant .. | .vecBinOp ..
  | .vecClMul .. | .vecF16Cvt .. | .loadVecReg .. | .loadVecRegHi .. | .pcmpStrIndex ..
  | .pcmpStrMask .. | .pcmpStrFlags .. | .writeFlagsPtest .. | .writeFlagsPtestYmm ..
  | .vecTbl2 .. | .vecAes .. | .vecAesKeygenAssist .. | .vecSha .. | .bswap .. | .crc32c ..
  | .vecGather .. | .x87Load .. | .loadCarry | .loadRflags | .readCarryOut .. => true
  | _ => false

-- A statement stays if it is impure or its result is live.
def keeps (live : List Ref) (stmt : Stmt) : Bool :=
  !isPureForDce stmt.op || stmt.result.any live.contains

-- The reverse sweep: the operands of the statements that stay are live.
def liveRefs : List Stmt → List Ref
  | [] => []
  | stmt :: stmts =>
    let live := liveRefs stmts
    if keeps live stmt then stmt.op.operandRefs ++ live else live

-- The sweep runs over all blocks of the function, the filter over each of them.
def deadCodeEliminate (func : Function) : Function :=
  func.mapBlocks (List.filter (keeps (liveRefs func.stmts)))

end Prisma.Dce
