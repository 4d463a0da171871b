import Prisma.Passes.Basic

namespace Prisma.BranchFold

open Machine

-- The closure of `eval_cond` that sign-extends a value of the size.
def sext (size : OpSize) (v : U64) : Int :=
  let bits := size.bitWidth
  if bits = 64 then v.toInt
  else if v &&& (1#64 <<< (bits - 1)) ≠ 0 then (v ||| ~~~((1#64 <<< bits) - 1)).toInt
  else v.toInt

-- Evaluates `a cc b` at the size, or yields nothing for a condition on a single flag.
def evalCond (cc : CondCode) (a b : U64) (size : OpSize) : Option Bool :=
  let a := a &&& size.mask
  let b := b &&& size.mask
  let sa := sext size a
  let sb := sext size b
  match cc with
  | .eq => some (a == b)
  | .ne => some (a != b)
  | .ult => some (a < b)
  | .ule => some (a ≤ b)
  | .ugt => some (b < a)
  | .uge => some (b ≤ a)
  | .slt => some (sa < sb)
  | .sle => some (sa ≤ sb)
  | .sgt => some (sb < sa)
  | .sge => some (sb ≤ sa)
  | .cc | .nc | .ov | .noOv | .mi | .pl => none

structure LastCmp where
  lhs : Ref
  rhs : Ref
  size : OpSize

-- What the pass tracks within a block.
structure Tracked where
  consts : Consts
  lastCmp : Option LastCmp

def Tracked.none : Tracked where
  consts := noConsts
  lastCmp := .none

-- The operands of the last comparison, if they are constants.
def Tracked.operands (t : Tracked) : Option (U64 × U64 × OpSize) := do
  let lc ← t.lastCmp
  let a ← t.consts lc.lhs
  let b ← t.consts lc.rhs
  return (a, b, lc.size)

def foldStmt (t : Tracked) (stmt : Stmt) : Tracked × Stmt :=
  match stmt.op with
  | .constant value size =>
    match stmt.result with
    | some r => ({ t with consts := Function.update t.consts r (some (value &&& size.mask)) }, stmt)
    | none => (t, stmt)
  | .cmpFlags lhs rhs size => ({ t with lastCmp := some { lhs, rhs, size } }, stmt)
  | .aluFlags .. | .aluFlagsPreserveCarry .. | .writeFlagsPopcnt .. | .writeFlagsCountZero .. =>
    ({ t with lastCmp := none }, stmt)
  | .condJumpRel cc targetGuestPc fallthroughGuestPc =>
    match t.operands with
    | some (a, b, size) =>
      let chooseTaken := (evalCond cc a b size).getD false
      let target := if chooseTaken then targetGuestPc else fallthroughGuestPc
      ({ t with lastCmp := none }, { result := none, op := .jumpRel target })
    | none => ({ t with lastCmp := none }, stmt)
  | _ => (t, stmt)

def branchFold (func : Function) : Function :=
  func.mapBlocks <| rewrite (fun t stmt => (foldStmt t stmt).map id some) .none

end Prisma.BranchFold
