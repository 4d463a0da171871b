import Prisma.Orchestrator.Regions

-- The guest's address space as the set of its mapped regions.

namespace Prisma

structure Region where
  base : U64
  size : U64
  prot : Protection
  name : String
deriving DecidableEq, Repr

instance : Placed Region where
  base := Region.base
  size := Region.size

namespace Region

def endAddr (r : Region) : U64 :=
  Placed.endAddr r

def contains (r : Region) (addr : U64) : Bool :=
  Placed.contains r addr

def overlaps (r : Region) (base size : U64) : Bool :=
  let endAddr := base.saturatingAdd size
  r.base < endAddr && base < r.endAddr

end Region

structure AddressSpace where
  regions : List Region
deriving DecidableEq, Repr

namespace AddressSpace

def new : AddressSpace :=
  ⟨[]⟩

variable (space : AddressSpace)

def map (base size : U64) (prot : Protection) (name : String) :
    Except AddressSpaceError Unit × AddressSpace :=
  if size = 0 then (.error .zeroSize, space)
  else if (base.checkedAdd size).isNone then (.error (.overflow base size), space)
  else
    match space.regions.find? (·.overlaps base size) with
    | some r => (.error (.overlap base r.base), space)
    | none =>
      let idx := space.regions.partitionPoint (·.base < base)
      (.ok (), ⟨space.regions.insertIdx idx ⟨base, size, prot, name⟩⟩)

def translate (addr : U64) : Option (Region × U64) :=
  match space.regions.partitionPoint (·.base ≤ addr) with
  | 0 => none
  | i + 1 => do
    let region ← space.regions[i]?
    if region.contains addr then some (region, addr - region.base) else none

-- The walk over the regions of a range. It gives nothing if the rounds do not suffice.
def walkRange (endAddr : U64) (needWrite : Bool) : Nat → U64 → Option (Except RangeError Unit)
  | 0, cursor => if cursor < endAddr then none else some (.ok ())
  | rounds + 1, cursor =>
    if cursor < endAddr then
      match space.translate cursor with
      | none => some (.error .unmapped)
      | some (region, _) =>
        if needWrite && !region.prot.isWritable then some (.error .notWritable)
        else walkRange endAddr needWrite rounds region.endAddr
    else some (.ok ())

def validateRange (rounds : Nat) (addr len : U64) (needWrite : Bool) :
    Option (Except RangeError Unit) :=
  if len = 0 then some (.ok ())
  else
    match addr.checkedAdd len with
    | none => some (.error .overflow)
    | some endAddr => space.walkRange endAddr needWrite rounds addr

def unmap (base : U64) : Except AddressSpaceError Region × AddressSpace :=
  match space.regions.find? (·.base = base) with
  | none => (.error (.notMapped base), space)
  | some region =>
    let idx := space.regions.findIdx (·.base = base)
    (.ok region, ⟨space.regions.eraseIdx idx⟩)

def findFreeRange (len minAddr : U64) : Option U64 :=
  Placed.findFreeRange space.regions len minAddr

def mmapAnon (len minAddr : U64) (prot : Protection) :
    Except AddressSpaceError U64 × AddressSpace :=
  if len = 0 then (.error .zeroSize, space)
  else
    match space.findFreeRange len minAddr with
    | none => (.error (.noSpace len), space)
    | some base =>
      match space.map base len prot "mmap" with
      | (.error e, space) => (.error e, space)
      | (.ok (), space) => (.ok base, space)

def mprotect (base : U64) (prot : Protection) :
    Except AddressSpaceError Protection × AddressSpace :=
  match space.regions.find? (·.base = base) with
  | none => (.error (.notMapped base), space)
  | some region =>
    let idx := space.regions.findIdx (·.base = base)
    (.ok region.prot, ⟨space.regions.modify idx ({ · with prot })⟩)

def resizeRegion (base newSize : U64) : Except AddressSpaceError Unit × AddressSpace :=
  if newSize = 0 then (.error .zeroSize, space)
  else
    match space.regions.find? (·.base = base) with
    | none => (.error (.notMapped base), space)
    | some _ =>
      let idx := space.regions.findIdx (·.base = base)
      match base.checkedAdd newSize with
      | none => (.error (.overflow base newSize), space)
      | some newEnd =>
        match space.regions[idx + 1]?.filter (newEnd > ·.base) with
        | some next => (.error (.overlap base next.base), space)
        | none => (.ok (), ⟨space.regions.modify idx ({ · with size := newSize })⟩)

def clear (_space : AddressSpace) : AddressSpace :=
  ⟨[]⟩

end AddressSpace

-- The calls that change an address space, and what they return.
inductive AddressSpaceCall
  | map (base size : U64) (prot : Protection) (name : String)
  | unmap (base : U64)
  | mmapAnon (len minAddr : U64) (prot : Protection)
  | mprotect (base : U64) (prot : Protection)
  | resizeRegion (base newSize : U64)

inductive AddressSpaceReply
  | done
  | unmapped (region : Region)
  | placed (base : U64)
  | wasProtected (prot : Protection)
deriving DecidableEq, Repr

def AddressSpaceCall.apply (space : AddressSpace) :
    AddressSpaceCall → Except AddressSpaceError AddressSpaceReply × AddressSpace
  | map base size prot name => (space.map base size prot name).map (.map fun _ => .done) id
  | unmap base => (space.unmap base).map (.map .unmapped) id
  | mmapAnon len minAddr prot => (space.mmapAnon len minAddr prot).map (.map .placed) id
  | mprotect base prot => (space.mprotect base prot).map (.map .wasProtected) id
  | resizeRegion base newSize => (space.resizeRegion base newSize).map (.map fun _ => .done) id

namespace AddressSpace

inductive Reachable : AddressSpace → Prop
  | new : Reachable new
  | call {space} (call : AddressSpaceCall) : Reachable space → Reachable (call.apply space).snd
  | clear {space} : Reachable space → Reachable space.clear

end AddressSpace

end Prisma
