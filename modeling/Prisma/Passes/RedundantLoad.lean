import Prisma.Passes.Basic

namespace Prisma.RedundantLoad

open Machine

-- The result of the last load through an address ref at a size.
abbrev LastLoad := Ref → OpSize → Option Ref

namespace LastLoad

def empty : LastLoad :=
  fun _ _ => none

def insert (lastLoad : LastLoad) (addr : Ref) (size : OpSize) (result : Ref) : LastLoad :=
  fun r z => if r = addr ∧ z = size then some result else lastLoad r z

end LastLoad

-- A load that repeats an earlier one becomes a copy of its result. `LoadMemTSO` is never forwarded.
def forwardLoad (lastLoad : LastLoad) (stmt : Stmt) : LastLoad × Stmt :=
  match stmt.op with
  | .loadMem addr size =>
    match stmt.result with
    | some result =>
      match lastLoad addr size with
      | some prev => (lastLoad, { result := some result, op := .binOp .or prev prev size })
      | none => (lastLoad.insert addr size result, stmt)
    | none => (lastLoad, stmt)
  -- Any store could alias, and a fence orders memory.
  | .storeMem .. | .storeMemTSO .. | .atomicCmpxchg .. | .atomicCmpxchgPair .. | .fence .. =>
    (.empty, stmt)
  | _ => (lastLoad, stmt)

def redundantLoadEliminate (func : Function) : Function :=
  func.mapBlocks <| rewrite (fun lastLoad stmt => (forwardLoad lastLoad stmt).map id some) .empty

end Prisma.RedundantLoad
