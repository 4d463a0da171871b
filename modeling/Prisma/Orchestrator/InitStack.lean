import Prisma.Lib.LittleEndian
import Prisma.Orchestrator.GuestMem

-- The stack of a new process: its arguments, its environment and the auxiliary vector.

namespace Prisma

-- The slices are in memory, so there are not enough entries for the vector's size to overflow.
structure ProcessStackParams where
  argv : List (List U8)
  envp : List (List U8)
  auxv : List (U64 × U64)
  vectorFits : (argv.length + envp.length + 2 * auxv.length + 5) * 8 < 2 ^ 64

inductive StackBuildError
  | range (e : RangeError)
  | underflow
deriving DecidableEq, Repr

namespace InitStack

abbrev StackBuild := Stateful StackBuildError BackedAddressSpace

def sub (top : U64) (n : Nat) : StackBuild U64 :=
  if n ≤ top.toNat then pure (top - BitVec.ofNat 64 n) else Stateful.fail .underflow

def write (addr : U64) (src : List U8) : StackBuild Unit :=
  GuestMem.store .range addr src

-- The strings go down from the cursor. Returns their addresses and the cursor below them.
def placeStrings : List (List U8) → U64 → StackBuild (List U64 × U64)
  | [], cursor => pure ([], cursor)
  | s :: strings, cursor => do
    let cursor ← sub cursor (s.length + 1)
    write cursor s
    write (cursor + BitVec.ofNat 64 s.length) [0]
    let (ptrs, last) ← placeStrings strings cursor
    return (cursor :: ptrs, last)

def putWords : List U64 → U64 → StackBuild Unit
  | [], _ => pure ()
  | v :: words, addr => do
    write addr (LittleEndian.encode 8 v.toNat)
    putWords words (addr + 8)

-- The words of the vector, from the stack pointer upward.
def vectorWords (params : ProcessStackParams) (argvPtrs envpPtrs : List U64) : List U64 :=
  BitVec.ofNat 64 params.argv.length :: argvPtrs ++ 0 :: envpPtrs ++ 0 ::
    params.auxv.flatMap (fun (ty, val) => [ty, val]) ++ [0, 0]

def buildInitialStack (stackTop : U64) (params : ProcessStackParams) : StackBuild U64 := do
  let (argvPtrs, cursor) ← placeStrings params.argv stackTop
  let (envpPtrs, cursor) ← placeStrings params.envp cursor
  let ptrWords := 1 + params.argv.length + 1 + params.envp.length + 1
  let auxvWords := (params.auxv.length + 1) * 2
  let blockBytes := (ptrWords + auxvWords) * 8
  let below ← sub cursor blockBytes
  let rsp := below &&& ~~~0xF
  putWords (vectorWords params argvPtrs envpPtrs) rsp
  return rsp

end InitStack

end Prisma
