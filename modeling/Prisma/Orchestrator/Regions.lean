import Prisma.Lib.Checked
import Prisma.Lib.Intervals
import Prisma.IR.Basic

-- What the guest's two address spaces share: regions in a vector that is sorted by their bases.

namespace Prisma

inductive Protection
  | readOnly
  | readExecute
  | readWrite
  | readWriteExecute
deriving DecidableEq, Repr

namespace Protection

def isWritable : Protection → Bool
  | readWrite | readWriteExecute => true
  | _ => false

end Protection

inductive AddressSpaceError
  | zeroSize
  | overflow (base size : U64)
  | overlap (base existing : U64)
  | notMapped (base : U64)
  | noSpace (len : U64)
deriving DecidableEq, Repr

inductive RangeError
  | overflow
  | unmapped
  | notWritable
deriving DecidableEq, Repr

class Placed (α : Type) where
  base : α → U64
  size : α → U64

namespace Placed

variable {α : Type} [Placed α]

def endAddr (r : α) : U64 :=
  (base r).saturatingAdd (size r)

def contains (r : α) (addr : U64) : Bool :=
  base r ≤ addr && addr < endAddr r

-- The region at the last base that is not above `addr`, if `addr` is in it.
def regionIdx (regions : List α) (addr : U64) : Option Nat :=
  match regions.partitionPoint (base · ≤ addr) with
  | 0 => none
  | i + 1 => if regions[i]?.any (contains · addr) then some i else none

def freeCursor (len : U64) : List α → U64 → U64
  | [], cursor => cursor
  | r :: regions, cursor =>
    if endAddr r ≤ cursor then freeCursor len regions cursor
    else if cursor ≤ base r ∧ len ≤ base r - cursor then cursor
    else freeCursor len regions (if cursor ≤ endAddr r then endAddr r else cursor)

-- First fit over the gaps between the regions.
def findFreeRange (regions : List α) (len minAddr : U64) : Option U64 :=
  if len = 0 then none
  else
    let cursor := freeCursor len regions minAddr
    (cursor.checkedAdd len).map fun _ => cursor

end Placed

end Prisma
