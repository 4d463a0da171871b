import Prisma.Lib.Run
import Prisma.IR.Basic

namespace Prisma

-- The refs a pass knows to be constant.
abbrev Consts := Ref → Option U64

def noConsts : Consts :=
  fun _ => none

namespace Function

-- A function that consists of a single block.
def single (stmts : List Stmt) : Function where
  blocks := [{ id := 0, stmts }]
  entry := 0

def stmts (func : Function) : List Stmt :=
  func.blocks.flatMap (·.stmts)

-- Most passes rewrite each block on its own.
def mapBlocks (func : Function) (f : List Stmt → List Stmt) : Function where
  blocks := func.blocks.map fun block => { block with stmts := f block.stmts }
  entry := func.entry

@[simp]
theorem stmts_mapBlocks_single (stmts : List Stmt) (f : List Stmt → List Stmt) :
    ((single stmts).mapBlocks f).stmts = f stmts := by
  simp [single, mapBlocks, Function.stmts]

end Function

end Prisma
