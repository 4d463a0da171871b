import Prisma.Passes.Basic

namespace Prisma.StrengthReduce

open Machine

-- The binary logarithm of a power of two.
def log2Pow2 (v : U64) : Option U64 :=
  if v = 0 ∨ v &&& (v - 1) ≠ 0 then none else some v.ctz

-- What the pass tracks: the known constants of the block, and the next ref to mint.
structure Reducer where
  consts : Consts
  nextRef : Ref

-- The shift count and the shifted operand that replace a product.
def shiftFor (consts : Consts) (lhs rhs : Ref) : Option (U64 × Ref) :=
  match (consts rhs).bind log2Pow2, (consts lhs).bind log2Pow2 with
  | some k, _ => some (k, lhs)
  | none, some k => some (k, rhs)
  | none, none => none

-- One iteration of the pass. A product by a power of two becomes a shift by a new constant.
def reduceStmt (r : Reducer) (stmt : Stmt) : Reducer × List Stmt :=
  match stmt.result with
  | none => (r, [stmt])
  | some result =>
    match stmt.op with
    | .constant value size =>
      ({ r with consts := Function.update r.consts result (some (value &&& size.mask)) }, [stmt])
    | .binOp .mul lhs rhs size =>
      match shiftFor r.consts lhs rhs with
      | some (k, operand) =>
        (⟨Function.update r.consts r.nextRef (some k), r.nextRef + 1⟩,
          [⟨some r.nextRef, .constant k size⟩, ⟨some result, .binOp .shl operand r.nextRef size⟩])
      | none => (r, [stmt])
    | _ => (r, [stmt])

-- The counter for new refs runs through all blocks.
def reduceBlocks : Ref → List BasicBlock → Ref × List BasicBlock
  | nextRef, [] => (nextRef, [])
  | nextRef, block :: blocks =>
    let (r, stmts) := expand reduceStmt ⟨noConsts, nextRef⟩ block.stmts
    let (nextRef, blocks) := reduceBlocks r.nextRef blocks
    (nextRef, { block with stmts } :: blocks)

-- The ref after the largest result.
def firstFree (stmts : List Stmt) : Ref :=
  (stmts.filterMap (·.result)).foldl (fun next r => max next (r + 1)) 0

-- The counter is a `u32` that only grows. There is no result if it overflows on the way.
def strengthReduce (func : Function) : Option Function :=
  let (nextRef, blocks) := reduceBlocks (firstFree func.stmts) func.blocks
  if nextRef < 2 ^ 32 then some { blocks, entry := func.entry } else none

end Prisma.StrengthReduce
