import Prisma.Passes.Basic

namespace Prisma.ConstProp

open Machine

def evalPopcnt (v : U64) (size : OpSize) : U64 :=
  (v &&& size.mask).cpop

def evalLzcnt (v : U64) (size : OpSize) : U64 :=
  let masked := v &&& size.mask
  if masked = 0 then BitVec.ofNat 64 size.bitWidth
  else masked.clz - BitVec.ofNat 64 (64 - size.bitWidth)

def evalTzcnt (v : U64) (size : OpSize) : U64 :=
  let masked := v &&& size.mask
  if masked = 0 then BitVec.ofNat 64 size.bitWidth else masked.ctz

-- The loops of `bit_deposit` and `bit_extract` clear the lowest bit of `remaining` in each
-- iteration, so 64 iterations are enough.
def bitDeposit (src mask : U64) : U64 :=
  go 64 0 mask src
where
  go : Nat → U64 → U64 → U64 → U64
    | 0, out, _, _ => out
    | fuel + 1, out, remaining, value =>
      if remaining = 0 then out else
        let low := remaining &&& -remaining
        let out := if value &&& 1 ≠ 0 then out ||| low else out
        go fuel out (remaining &&& (remaining - 1)) (value >>> 1)

def bitExtract (src mask : U64) : U64 :=
  go 64 0 0 mask
where
  go : Nat → U64 → Nat → U64 → U64
    | 0, out, _, _ => out
    | fuel + 1, out, i, remaining =>
      if remaining = 0 then out else
        let low := remaining &&& -remaining
        let out := if src &&& low ≠ 0 then out ||| (1 <<< i) else out
        go fuel out (i + 1) (remaining &&& (remaining - 1))

-- The folder's arithmetic. It does not know the operand size, and `SMulHi` widens its operands
-- without their sign (`a as i128` of an unsigned `a`). The product then can leave the `i128`, which
-- is a panic.
def evalBinop (op : BinOpKind) (a b : U64) : Option U64 :=
  if op = .sMulHi ∧ 2 ^ 127 ≤ a.toNat * b.toNat then none else some (value op a b)
where value (op : BinOpKind) (a b : U64) : U64 :=
  let n := (b &&& 0x3f).toNat
  match op with
  | .add => a + b
  | .sub => a - b
  | .mul => a * b
  | .and => a &&& b
  | .or => a ||| b
  | .xor => a ^^^ b
  | .shl => a <<< n
  | .shr => a >>> n
  | .sar => a.sshiftRight n
  | .rol => if n = 0 then a else a.rotateLeft n
  | .ror => if n = 0 then a else a.rotateRight n
  | .rcl => if n = 0 then a else (a <<< n) ||| (a >>> (64 - n))
  | .rcr => if n = 0 then a else (a >>> n) ||| (a <<< (64 - n))
  | .uMulHi => ((a.setWidth 128 * b.setWidth 128) >>> 64).setWidth 64
  | .sMulHi => ((a.setWidth 128 * b.setWidth 128).sshiftRight 64).setWidth 64
  | .uDiv => if b = 0 then 0 else a / b
  | .sDiv =>
    if b.toInt = 0 then 0
    else if a.toInt = -2 ^ 63 ∧ b.toInt = -1 then a
    else BitVec.ofInt 64 (a.toInt.tdiv b.toInt)
  | .uMod => if b = 0 then a else a % b
  | .sMod =>
    if b.toInt = 0 then a
    else if a.toInt = -2 ^ 63 ∧ b.toInt = -1 then 0
    else BitVec.ofInt 64 (a.toInt.tmod b.toInt)
  | .pdep => bitDeposit a b
  | .pext => bitExtract a b

def signExtend (v : U64) (fromSize toSize : OpSize) : U64 :=
  let masked := v &&& fromSize.mask
  if 64 ≤ fromSize.bitWidth then masked &&& toSize.mask else
    let signBit : U64 := 1 <<< (fromSize.bitWidth - 1)
    let out := if masked &&& signBit ≠ 0 then masked ||| ~~~((1#64 <<< fromSize.bitWidth) - 1)
      else masked
    out &&& toSize.mask

-- One iteration of the pass: `stmt` becomes a constant if its operands are known.
def foldStmt (consts : Consts) (stmt : Stmt) : Option (Consts × Stmt) :=
  match stmt.result with
  | none => some (consts, stmt)
  | some result =>
    let constant (value : U64) (size : OpSize) : Option (Consts × Stmt) :=
      some (Function.update consts result (some value), { stmt with op := .constant value size })
    match stmt.op with
    | .constant value size => constant (value &&& size.mask) size
    | .binOp op lhs rhs size =>
      match consts lhs, consts rhs with
      | some a, some b => do constant ((← evalBinop op a b) &&& size.mask) size
      | _, _ => some (consts, stmt)
    | .extend value fromSize toSize isSigned =>
      match consts value with
      | some v =>
        if isSigned then constant (signExtend v fromSize toSize) toSize
        else constant ((v &&& fromSize.mask) &&& toSize.mask) toSize
      | none => some (consts, stmt)
    | .truncate value toSize =>
      match consts value with
      | some v => constant (v &&& toSize.mask) toSize
      | none => some (consts, stmt)
    | .popcnt value size =>
      match consts value with
      | some v => constant (evalPopcnt v size) size
      | none => some (consts, stmt)
    | .lzcnt value size =>
      match consts value with
      | some v => constant (evalLzcnt v size) size
      | none => some (consts, stmt)
    | .tzcnt value size =>
      match consts value with
      | some v => constant (evalTzcnt v size) size
      | none => some (consts, stmt)
    | _ => some (consts, stmt)

def foldStmts (consts : Consts) : List Stmt → Option (List Stmt)
  | [] => some []
  | stmt :: stmts => do
    let (consts, stmt) ← foldStmt consts stmt
    return stmt :: (← foldStmts consts stmts)

-- There is no result if the pass panics.
def constantPropagate (func : Function) : Option Function := do
  let blocks ← func.blocks.mapM fun block => do
    return { block with stmts := ← foldStmts noConsts block.stmts }
  return { func with blocks }

end Prisma.ConstProp
