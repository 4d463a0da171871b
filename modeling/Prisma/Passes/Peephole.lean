import Prisma.Passes.Basic

namespace Prisma.Peephole

open Machine

-- Statements before a position are listed from the latest to the first.
abbrev Before := List Stmt

-- The constant that the latest definition of a ref binds, as it is written there.
def tryConst (before : Before) (r : Ref) : Option U64 :=
  match before.find? (·.result = some r) with
  | some ⟨_, .constant value _⟩ => some value
  | _ => none

-- The rules for operations on two refs, whose constants are given.
def matchBinop (const : Ref → Option U64) (op : BinOpKind) (lhs rhs : Ref) (size : OpSize) :
    Option Op :=
  match op with
  | .xor => if lhs = rhs then some (.constant 0 size) else none
  | .or | .and => if lhs = rhs then some (.truncate lhs size) else none
  | .add =>
    if const lhs = some 0 then some (.truncate rhs size)
    else if const rhs = some 0 then some (.truncate lhs size)
    else none
  | .sub => if const rhs = some 0 then some (.truncate lhs size) else none
  | .mul =>
    if const lhs = some 1 then some (.truncate rhs size)
    else if const rhs = some 1 then some (.truncate lhs size)
    else if const lhs = some 0 ∨ const rhs = some 0 then some (.constant 0 size)
    else none
  | _ => none

def matchRule (before : Before) (s : Stmt) : Option Op :=
  if s.result.isNone then none
  else
    match s.op with
    | .binOp op lhs rhs size => matchBinop (tryConst before) op lhs rhs size
    | .extend value fromSize toSize _ =>
      if fromSize = toSize then some (.truncate value toSize) else none
    | _ => none

-- All rules see the statements as they were before the round.
def runOnce (before : Before) : List Stmt → List Stmt × Bool
  | [] => ([], false)
  | s :: stmts =>
    let (out, changed) := runOnce (s :: before) stmts
    match matchRule before s with
    | some op => (⟨s.result, op⟩ :: out, true)
    | none => (s :: out, changed)

def maxIterations : Nat := 8

-- At most this many rounds, until no rule applies.
def rounds : Nat → List Stmt → List Stmt
  | 0, work => work
  | n + 1, work =>
    let (next, changed) := runOnce [] work
    if changed then rounds n next else next

def peepholeOptimiseDefault (func : Function) : Function :=
  func.mapBlocks (rounds maxIterations)

end Prisma.Peephole
