import Prisma.Passes.Basic

namespace Prisma.Algebraic

open Machine

-- The masked all-ones value of a size.
def allOnes (size : OpSize) : U64 :=
  size.mask

def zero (size : OpSize) : Op :=
  .constant 0 size

-- The identities for a known right operand.
def simplifyRhs (op : BinOpKind) (rv : U64) (size : OpSize) : Option Op :=
  if (op = .mul ∨ op = .and) ∧ rv = 0 then some (zero size)
  else if op = .or ∧ rv = allOnes size then some (.constant (allOnes size) size)
  else if (op = .uMulHi ∨ op = .sMulHi) ∧ rv = 0 then some (zero size)
  else if op = .uMulHi ∧ rv = 1 then some (zero size)
  else if (op = .uMod ∨ op = .sMod) ∧ rv = 1 then some (zero size)
  else none

-- The identities for a known left operand.
def simplifyLhs (op : BinOpKind) (lv : U64) (size : OpSize) : Option Op :=
  if (op = .mul ∨ op = .and) ∧ lv = 0 then some (zero size)
  else if op = .or ∧ lv = allOnes size then some (.constant (allOnes size) size)
  else if (op = .uMulHi ∨ op = .sMulHi ∨ op = .uDiv ∨ op = .sDiv ∨ op = .uMod ∨ op = .sMod) ∧
      lv = 0 then some (zero size)
  else none

def trySimplify (op : BinOpKind) (lhs rhs : Ref) (size : OpSize) (consts : Consts) : Option Op :=
  if lhs = rhs ∧ (op = .sub ∨ op = .xor) then some (zero size)
  else
    match (consts rhs).bind (simplifyRhs op · size) with
    | some simp => some simp
    | none => (consts lhs).bind (simplifyLhs op · size)

-- The table after a statement with this result.
def learn (consts : Consts) (result : Ref) : Op → Consts
  | .constant value size => Function.update consts result (some (value &&& size.mask))
  | _ => consts

-- One iteration of the pass.
def simplifyStmt (consts : Consts) (stmt : Stmt) : Consts × Stmt :=
  match stmt.result with
  | none => (consts, stmt)
  | some result =>
    match stmt.op with
    | .constant value size => (learn consts result (.constant value size), stmt)
    | .binOp op lhs rhs size =>
      match trySimplify op lhs rhs size consts with
      | some simp => (learn consts result simp, { stmt with op := simp })
      | none => (consts, stmt)
    | _ => (consts, stmt)

def algebraicSimplify (func : Function) : Function :=
  func.mapBlocks <| rewrite (fun consts stmt => (simplifyStmt consts stmt).map id some) noConsts

end Prisma.Algebraic
