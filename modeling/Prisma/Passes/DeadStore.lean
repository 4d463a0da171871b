import Prisma.Passes.Basic

namespace Prisma.DeadStore

-- The index of the last store through an address ref at a size that may still be overwritten.
abbrev Pending := Ref → OpSize → Option Nat

namespace Pending

def empty : Pending :=
  fun _ _ => none

def insert (pending : Pending) (addr : Ref) (size : OpSize) (i : Nat) : Pending :=
  fun r z => if r = addr ∧ z = size then some i else pending r z

end Pending

-- The operations after which earlier stores may have been observed.
def clears : Op → Bool
  | .loadMem .. | .loadMemTSO .. | .storeMemTSO .. | .atomicCmpxchg .. | .atomicCmpxchgPair ..
  | .fence .. => true
  | _ => false

-- The indices of the dead stores among statements that start at index `i`.
def deadStores (pending : Pending) (i : Nat) : List Stmt → List Nat
  | [] => []
  | stmt :: stmts =>
    match stmt.op with
    | .storeMem addr _ size =>
      (pending addr size).toList ++ deadStores (pending.insert addr size i) (i + 1) stmts
    | op => deadStores (if clears op then .empty else pending) (i + 1) stmts

def eliminate (stmts : List Stmt) : List Stmt :=
  let dead := deadStores .empty 0 stmts
  (stmts.zipIdx.filter fun (_, i) => !dead.contains i).map (·.1)

def deadStoreEliminate (func : Function) : Function :=
  func.mapBlocks eliminate

end Prisma.DeadStore
