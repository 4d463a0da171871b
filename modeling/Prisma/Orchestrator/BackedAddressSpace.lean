import Prisma.Lib.Fallible
import Prisma.Orchestrator.Regions
import Prisma.Runtime.GuestArena

-- The guest's address space with the bytes behind its regions.

namespace Prisma

-- The bytes of a region without its own are in the arena.
structure MemRegion where
  base : U64
  prot : Protection
  len : U64
  bytes : Option (List U8)
deriving DecidableEq

instance : Placed MemRegion where
  base := MemRegion.base
  size := MemRegion.len

namespace MemRegion

def endAddr (r : MemRegion) : U64 :=
  Placed.endAddr r

def contains (r : MemRegion) (addr : U64) : Bool :=
  Placed.contains r addr

end MemRegion

structure BackedAddressSpace where
  regions : List MemRegion
  arena : Option GuestArena
deriving DecidableEq

namespace BackedAddressSpace

def new : BackedAddressSpace :=
  ⟨[], none⟩

def withArena (pageSize : Nat) (windowBase : U64) (windowSize : Nat) :
    Option BackedAddressSpace :=
  (GuestArena.new pageSize windowBase windowSize).map (⟨[], some ·⟩)

variable (space : BackedAddressSpace)

def regionIdx (addr : U64) : Option Nat :=
  Placed.regionIdx space.regions addr

-- A region without bytes and without an arena, or outside of the window, is a panic.
def regionBytes (i : Nat) : Option (List U8) := do
  let r ← space.regions[i]?
  match r.bytes with
  | some bytes => some bytes
  | none =>
    let arena ← space.arena
    let off ← r.base.checkedSub arena.base
    if off.toNat + r.len.toNat ≤ arena.bytes.length then
      some (arena.bytes.slice off.toNat r.len.toNat)
    else none

-- The same slice with new bytes from `off` on.
def setRegionBytes (i off : Nat) (src : List U8) : Option BackedAddressSpace := do
  let r ← space.regions[i]?
  match r.bytes with
  | some bytes =>
    some { space with
      regions := space.regions.modify i ({ · with bytes := some (bytes.overwrite off src) }) }
  | none =>
    let arena ← space.arena
    let start ← r.base.checkedSub arena.base
    if start.toNat + r.len.toNat ≤ arena.bytes.length then
      some { space with
        arena := some { arena with
          bytes := arena.bytes.overwrite (start.toNat + off) src
          fits := by rw [List.length_overwrite]; exact arena.fits } }
    else none

def insertRegion (base : U64) (prot : Protection) (bytes : List U8) :
    Except AddressSpaceError Unit × BackedAddressSpace :=
  let len := BitVec.ofNat 64 bytes.length
  if bytes.length = 0 then (.error .zeroSize, space)
  else
    match base.checkedAddNat bytes.length with
    | none => (.error (.overflow base len), space)
    | some endAddr =>
      match space.regions.find? (fun r => r.base < endAddr && base < r.endAddr) with
      | some r => (.error (.overlap base r.base), space)
      | none =>
        let idx := space.regions.partitionPoint (·.base < base)
        match space.arena with
        | some arena =>
          match arena.write base bytes with
          | none => (.error (.noSpace len), space)
          | some arena =>
            (.ok (), ⟨space.regions.insertIdx idx ⟨base, prot, len, none⟩, some arena⟩)
        | none => (.ok (), ⟨space.regions.insertIdx idx ⟨base, prot, len, some bytes⟩, none⟩)

-- `map` with its bytes, which the callers that bound the length always get.
def mapZeroed (base len : U64) (prot : Protection) :
    Except AddressSpaceError Unit × BackedAddressSpace :=
  space.insertRegion base prot (List.replicate len.toNat 0)

-- The bytes come first, as `vec![0u8; len]`, which panics from 2^63 bytes on.
def map (base len : U64) (prot : Protection) :
    Option (Except AddressSpaceError Unit × BackedAddressSpace) :=
  if len.toNat < 2 ^ 63 then some (space.mapZeroed base len prot) else none

def mapWithBytes (base : U64) (bytes : List U8) (prot : Protection) :
    Except AddressSpaceError Unit × BackedAddressSpace :=
  space.insertRegion base prot bytes

def unmap (base : U64) : Except AddressSpaceError Unit × BackedAddressSpace :=
  match space.regions.find? (·.base = base) with
  | none => (.error (.notMapped base), space)
  | some _ =>
    let idx := space.regions.findIdx (·.base = base)
    (.ok (), { space with regions := space.regions.eraseIdx idx })

def read (addr len : U64) : Fallible RangeError (List U8) := do
  let i ← Fallible.orFail .unmapped (space.regionIdx addr)
  let r ← Fallible.orAbort space.regions[i]?
  let off := addr - r.base
  let endOff ← Fallible.orFail .overflow (off.checkedAdd len)
  if endOff > r.len then throw .unmapped
  else
    let bytes ← Fallible.orAbort (space.regionBytes i)
    return bytes.slice off.toNat len.toNat

-- The checks before bytes are written: the region's index and the offset in it.
def writableAt (addr : U64) (len : Nat) : Fallible RangeError (Nat × U64) := do
  let i ← Fallible.orFail .unmapped (space.regionIdx addr)
  let r ← Fallible.orAbort space.regions[i]?
  if !r.prot.isWritable then throw .notWritable
  else
    let off := addr - r.base
    let endOff ← Fallible.orFail .overflow (off.checkedAddNat len)
    if endOff > r.len then throw .unmapped
    else return (i, off)

def write (addr : U64) (src : List U8) : Fallible RangeError BackedAddressSpace := do
  let (i, off) ← space.writableAt addr src.length
  Fallible.orAbort (space.setRegionBytes i off.toNat src)

def ensureWritable (addr len : U64) : Fallible RangeError Unit := do
  let _ ← space.writableAt addr len.toNat
  return ()

def findFreeRange (len minAddr : U64) : Option U64 :=
  Placed.findFreeRange space.regions len minAddr

def mmapAnon (len minAddr : U64) (prot : Protection) :
    Option (Except AddressSpaceError U64 × BackedAddressSpace) :=
  if len = 0 then some (.error .zeroSize, space)
  else
    match space.findFreeRange len minAddr with
    | none => some (.error (.noSpace len), space)
    | some base =>
      (space.map base len prot).map fun (result, space) => (result.map fun _ => base, space)

-- The host's panic on a region without bytes and without an arena is `none`, and so is that of
-- `Vec::resize` from 2^63 bytes on. A window has always fewer.
def resize (base newSize : U64) : Option (Except AddressSpaceError Unit × BackedAddressSpace) :=
  if newSize = 0 then some (.error .zeroSize, space)
  else
    match space.regions.find? (·.base = base) with
    | none => some (.error (.notMapped base), space)
    | some r =>
      let idx := space.regions.findIdx (·.base = base)
      match base.checkedAdd newSize with
      | none => some (.error (.overflow base newSize), space)
      | some newEnd =>
        match space.regions[idx + 1]?.filter (newEnd > ·.base) with
        | some next => some (.error (.overlap base next.base), space)
        | none =>
          match r.bytes with
          | some bytes =>
            let bytes := bytes.resize newSize.toNat 0
            let region := { r with len := newSize, bytes := some bytes }
            if newSize.toNat < 2 ^ 63 then
              some (.ok (), { space with regions := space.regions.modify idx fun _ => region })
            else none
          | none =>
            let regions := space.regions.modify idx fun _ => { r with len := newSize }
            match space.arena with
            | none => none
            | some arena =>
              if newEnd > arena.base.saturatingAdd arena.size then
                some (.error (.noSpace newSize), space)
              else if newSize > r.len then
                let zero := List.replicate (newSize - r.len).toNat 0
                match arena.write (base + r.len) zero with
                | none => some (.error (.noSpace newSize), space)
                | some arena => some (.ok (), ⟨regions, some arena⟩)
              else some (.ok (), { space with regions })

def mprotect (base : U64) (prot : Protection) :
    Except AddressSpaceError Protection × BackedAddressSpace :=
  match space.regions.find? (·.base = base) with
  | none => (.error (.notMapped base), space)
  | some r =>
    let idx := space.regions.findIdx (·.base = base)
    (.ok r.prot, { space with regions := space.regions.modify idx ({ · with prot }) })

def clear : BackedAddressSpace :=
  { space with regions := [] }

end BackedAddressSpace

inductive MemCall
  | map (base len : U64) (prot : Protection)
  | mapWithBytes (base : U64) (bytes : List U8) (prot : Protection)
  | unmap (base : U64)
  | read (addr len : U64)
  | write (addr : U64) (src : List U8)
  | ensureWritable (addr len : U64)
  | mmapAnon (len minAddr : U64) (prot : Protection)
  | resize (base newSize : U64)
  | mprotect (base : U64) (prot : Protection)

inductive MemReply
  | done
  | bytes (bytes : List U8)
  | placed (base : U64)
  | wasProtected (prot : Protection)
deriving DecidableEq

abbrev MemResult := Except (AddressSpaceError ⊕ RangeError) MemReply

namespace MemCall

variable (space : BackedAddressSpace)

def spaceResult {α : Type} (f : α → MemReply)
    (result : Except AddressSpaceError α × BackedAddressSpace) : MemResult × BackedAddressSpace :=
  (match result.fst with
    | .ok a => .ok (f a)
    | .error e => .error (.inl e), result.snd)

-- A range error comes before any change.
def rangeResult (result : Fallible RangeError (MemReply × BackedAddressSpace)) :
    Option (MemResult × BackedAddressSpace) :=
  result.run.map fun
    | .ok (reply, space) => (.ok reply, space)
    | .error e => (.error (.inr e), space)

-- The bytes that a call has the host allocate at once.
def allocates : MemCall → Nat
  | map _ len _ | mmapAnon len _ _ | resize _ len => len.toNat
  | _ => 0

-- The call's result and the space behind it, or nothing if the host panics.
def apply : MemCall → Option (MemResult × BackedAddressSpace)
  | map base len prot => (space.map base len prot).map (spaceResult fun _ => .done)
  | mapWithBytes base bytes prot =>
    some (spaceResult (fun _ => .done) (space.mapWithBytes base bytes prot))
  | unmap base => some (spaceResult (fun _ => .done) (space.unmap base))
  | read addr len => rangeResult space ((.bytes ·, space) <$> space.read addr len)
  | write addr src => rangeResult space ((.done, ·) <$> space.write addr src)
  | ensureWritable addr len =>
    rangeResult space ((fun _ => (.done, space)) <$> space.ensureWritable addr len)
  | mmapAnon len minAddr prot => (space.mmapAnon len minAddr prot).map (spaceResult .placed)
  | resize base newSize => (space.resize base newSize).map (spaceResult fun _ => .done)
  | mprotect base prot => some (spaceResult .wasProtected (space.mprotect base prot))

end MemCall

end Prisma
