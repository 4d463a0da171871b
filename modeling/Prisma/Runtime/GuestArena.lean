import Prisma.Lib.Checked
import Prisma.Lib.Slices
import Prisma.IR.Basic

-- One host mapping behind a window of the guest's address space.

namespace Prisma

structure GuestArena where
  base : U64
  bytes : List U8
  fits : bytes.length < 2 ^ 63
deriving DecidableEq

namespace GuestArena

-- At least one page, and a whole number of pages.
def roundUp (pageSize size : Nat) : Nat :=
  (max size 1 + pageSize - 1) / pageSize * pageSize

-- The host gives zeroed pages, or none at all. It never gives half of the addresses away.
def new (pageSize : Nat) (base : U64) (size : Nat) : Option GuestArena :=
  let size := roundUp pageSize size
  if h : size < 2 ^ 63 then some ⟨base, List.replicate size 0, by rwa [List.length_replicate]⟩
  else none

variable (arena : GuestArena)

def size : U64 :=
  BitVec.ofNat 64 arena.bytes.length

def offset (va : U64) (len : Nat) : Option Nat := do
  let off ← va.checkedSub arena.base
  let endOff ← off.checkedAddNat len
  if endOff ≤ arena.size then some off.toNat else none

def read (va : U64) (len : Nat) : Option (List U8) := do
  let off ← arena.offset va len
  some (arena.bytes.slice off len)

def write (va : U64) (src : List U8) : Option GuestArena := do
  let off ← arena.offset va src.length
  some { arena with
    bytes := arena.bytes.overwrite off src
    fits := by rw [List.length_overwrite]; exact arena.fits }

end GuestArena

end Prisma
