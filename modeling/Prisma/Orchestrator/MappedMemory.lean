import Prisma.Orchestrator.AddressSpace
import Prisma.Orchestrator.BackedAddressSpace

-- What a backed address space stands for: the regions, and a byte at each of their addresses. Where
-- the bytes are kept plays no role, only which ranges there is room for.

namespace Prisma

structure MappedMemory where
  space : AddressSpace
  byte : U64 → Option U8

namespace MappedMemory

def InRange (addr : U64) (len : Nat) (x : U64) : Prop :=
  addr.toNat ≤ x.toNat ∧ x.toNat < addr.toNat + len

instance {addr : U64} {len : Nat} {x : U64} : Decidable (InRange addr len x) :=
  inferInstanceAs (Decidable (_ ∧ _))

-- From `addr` on there are now these bytes.
def give (byte : U64 → Option U8) (addr : U64) (bytes : List U8) (x : U64) : Option U8 :=
  if InRange addr bytes.length x then bytes[x.toNat - addr.toNat]? else byte x

-- The bytes from `addr` on are no longer there.
def take (byte : U64 → Option U8) (addr : U64) (len : Nat) (x : U64) : Option U8 :=
  if InRange addr len x then none else byte x

def empty : MappedMemory :=
  ⟨.new, fun _ => none⟩

section Calls

variable (room : U64 → Nat → Bool) (mem : MappedMemory)

-- A list that is longer than the address space fits nowhere.
def insert (base : U64) (prot : Protection) (bytes : List U8) :
    Except AddressSpaceError Unit × MappedMemory :=
  let len := BitVec.ofNat 64 bytes.length
  if 2 ^ 64 ≤ bytes.length then (.error (.overflow base len), mem)
  else
    match mem.space.map base len prot "" with
    | (.error e, _) => (.error e, mem)
    | (.ok (), space) =>
      if room base bytes.length then (.ok (), ⟨space, give mem.byte base bytes⟩)
      else (.error (.noSpace len), mem)

def unmap (base : U64) : Except AddressSpaceError Unit × MappedMemory :=
  match mem.space.unmap base with
  | (.error e, _) => (.error e, mem)
  | (.ok region, space) => (.ok (), ⟨space, take mem.byte base region.size.toNat⟩)

def read (addr len : U64) : Except RangeError (List U8) :=
  match mem.space.translate addr with
  | none => .error .unmapped
  | some (r, off) =>
    match off.checkedAdd len with
    | none => .error .overflow
    | some endOff =>
      if endOff > r.size then .error .unmapped
      else .ok ((List.range len.toNat).map fun k => (mem.byte (addr + BitVec.ofNat 64 k)).getD 0)

def ensureWritable (addr : U64) (len : Nat) : Except RangeError Unit :=
  match mem.space.translate addr with
  | none => .error .unmapped
  | some (r, off) =>
    if !r.prot.isWritable then .error .notWritable
    else
      match off.checkedAddNat len with
      | none => .error .overflow
      | some endOff => if endOff > r.size then .error .unmapped else .ok ()

def write (addr : U64) (src : List U8) : Except RangeError Unit × MappedMemory :=
  match mem.ensureWritable addr src.length with
  | .error e => (.error e, mem)
  | .ok () => (.ok (), { mem with byte := give mem.byte addr src })

def mmapAnon (len minAddr : U64) (prot : Protection) :
    Except AddressSpaceError U64 × MappedMemory :=
  if len = 0 then (.error .zeroSize, mem)
  else
    match mem.space.findFreeRange len minAddr with
    | none => (.error (.noSpace len), mem)
    | some base =>
      match mem.insert room base prot (List.replicate len.toNat 0) with
      | (.error e, mem) => (.error e, mem)
      | (.ok (), mem) => (.ok base, mem)

-- What is added reads as zero, and what is cut off is no longer there.
def resizeByte (byte : U64 → Option U8) (base oldSize newSize : U64) : U64 → Option U8 :=
  if oldSize ≤ newSize then give byte (base + oldSize) (List.replicate (newSize - oldSize).toNat 0)
  else take byte (base + newSize) (oldSize - newSize).toNat

def resize (base newSize : U64) : Except AddressSpaceError Unit × MappedMemory :=
  match mem.space.resizeRegion base newSize with
  | (.error e, _) => (.error e, mem)
  | (.ok (), space) =>
    if room base newSize.toNat then
      let oldSize := ((mem.space.regions.find? (·.base = base)).map Region.size).getD 0
      (.ok (), ⟨space, resizeByte mem.byte base oldSize newSize⟩)
    else (.error (.noSpace newSize), mem)

def mprotect (base : U64) (prot : Protection) : Except AddressSpaceError Protection × MappedMemory :=
  match mem.space.mprotect base prot with
  | (.error e, _) => (.error e, mem)
  | (.ok prev, space) => (.ok prev, { mem with space })

def spaceResult {α : Type} (f : α → MemReply) (result : Except AddressSpaceError α × MappedMemory) :
    MemResult × MappedMemory :=
  (match result.fst with
    | .ok a => .ok (f a)
    | .error e => .error (.inl e), result.snd)

def rangeResult {α : Type} (f : α → MemReply) (result : Except RangeError α) : MemResult :=
  match result with
  | .ok a => .ok (f a)
  | .error e => .error (.inr e)

def apply : MemCall → MemResult × MappedMemory
  | .map base len prot =>
    spaceResult (fun _ => .done) (mem.insert room base prot (List.replicate len.toNat 0))
  | .mapWithBytes base bytes prot => spaceResult (fun _ => .done) (mem.insert room base prot bytes)
  | .unmap base => spaceResult (fun _ => .done) (mem.unmap base)
  | .read addr len => (rangeResult .bytes (mem.read addr len), mem)
  | .write addr src =>
    let result := mem.write addr src
    (rangeResult (fun _ => .done) result.fst, result.snd)
  | .ensureWritable addr len =>
    (rangeResult (fun _ => .done) (mem.ensureWritable addr len.toNat), mem)
  | .mmapAnon len minAddr prot => spaceResult .placed (mem.mmapAnon room len minAddr prot)
  | .resize base newSize => spaceResult (fun _ => .done) (mem.resize room base newSize)
  | .mprotect base prot => spaceResult .wasProtected (mem.mprotect base prot)

end Calls

end MappedMemory

def MemRegion.asRegion (r : MemRegion) : Region :=
  ⟨r.base, r.len, r.prot, ""⟩

namespace BackedAddressSpace

variable (space : BackedAddressSpace)

def view : MappedMemory where
  space := ⟨space.regions.map MemRegion.asRegion⟩
  byte addr := do
    let i ← space.regionIdx addr
    let r ← space.regions[i]?
    let bytes ← space.regionBytes i
    bytes[(addr - r.base).toNat]?

-- In the arena there is room for what lies in its window.
def room (base : U64) (len : Nat) : Bool :=
  match space.arena with
  | none => true
  | some arena => (arena.offset base len).isSome

end BackedAddressSpace

end Prisma
