import Prisma.Lib.Stateful
import Prisma.Orchestrator.BackedAddressSpace

-- Pointer-checked guest memory: what the handlers of system calls need of it, and its two kinds.

namespace Prisma

class GuestMem (M : Type) where
  read : M → U64 → U64 → Fallible RangeError (List U8)
  write : M → U64 → List U8 → Fallible RangeError M
  ensureWritable : M → U64 → U64 → Fallible RangeError Unit

namespace GuestMem

variable {M ε : Type} [GuestMem M] (fault : RangeError → ε)

-- Accesses of a handler that passes their errors on.
def load (addr len : U64) : Stateful ε M (List U8) := fun mem =>
  (read mem addr len).run.map fun
    | .ok bytes => (.ok bytes, mem)
    | .error e => (.error (fault e), mem)

def store (addr : U64) (src : List U8) : Stateful ε M Unit := fun mem =>
  (write mem addr src).run.map fun
    | .ok mem => (.ok (), mem)
    | .error e => (.error (fault e), mem)

def checkWritable (addr len : U64) : Stateful ε M Unit := fun mem =>
  (ensureWritable mem addr len).run.map fun
    | .ok () => (.ok (), mem)
    | .error e => (.error (fault e), mem)

end GuestMem

instance : GuestMem BackedAddressSpace where
  read := BackedAddressSpace.read
  write := BackedAddressSpace.write
  ensureWritable := BackedAddressSpace.ensureWritable

-- A single window of guest memory.
structure GuestRegion where
  base : U64
  prot : Protection
  bytes : List U8
deriving DecidableEq

namespace GuestRegion

variable (region : GuestRegion)

def checkedOffset (addr : U64) (len : Nat) (needWrite : Bool) : Fallible RangeError U64 := do
  if needWrite && !region.prot.isWritable then throw .notWritable
  else
    let endAddr ← Fallible.orFail .overflow (addr.checkedAddNat len)
    let regionEnd ← Fallible.orFail .overflow (region.base.checkedAddNat region.bytes.length)
    if addr < region.base ∨ endAddr > regionEnd then throw .unmapped
    else return addr - region.base

def read (addr len : U64) : Fallible RangeError (List U8) := do
  let off ← region.checkedOffset addr len.toNat false
  return region.bytes.slice off.toNat len.toNat

def write (addr : U64) (src : List U8) : Fallible RangeError GuestRegion := do
  let off ← region.checkedOffset addr src.length true
  return { region with bytes := region.bytes.overwrite off.toNat src }

def ensureWritable (addr len : U64) : Fallible RangeError Unit := do
  let _ ← region.checkedOffset addr len.toNat true
  return ()

end GuestRegion

instance : GuestMem GuestRegion where
  read := GuestRegion.read
  write := GuestRegion.write
  ensureWritable := GuestRegion.ensureWritable

end Prisma
