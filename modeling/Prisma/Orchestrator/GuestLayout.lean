import Prisma.Orchestrator.AddressSpace
import Prisma.Orchestrator.BackedAddressSpace
import Prisma.Orchestrator.MapImage

-- The address space of a loaded program: its image and the stack of its first thread.

namespace Prisma

def imageScnMemExecute : U32 := 0x20000000

def imageScnMemWrite : U32 := 0x80000000

def PeSection.protection (sec : PeSection) : Protection :=
  match decide (sec.characteristics &&& imageScnMemExecute ≠ 0),
    decide (sec.characteristics &&& imageScnMemWrite ≠ 0) with
  | true, true => .readWriteExecute
  | true, false => .readExecute
  | false, true => .readWrite
  | false, false => .readOnly

def defaultStackSize : U64 := 0x100000

structure BackedGuestLayout where
  space : BackedAddressSpace
  imageBase : U64
  stackTop : U64

namespace GuestLayout

-- What lies behind the end of the image is zero.
def sectionContent (image : List U8) (va vsize : Nat) : List U8 :=
  let out := List.replicate vsize 0
  if va < image.length then
    let avail := min (va + vsize) image.length
    out.overwrite 0 (image.slice va (avail - va))
  else out

def populateSection (space : BackedAddressSpace) (mapped : MappedImage) (sec : PeSection) :
    Except AddressSpaceError Unit × BackedAddressSpace :=
  if sec.virtualSize = 0 then (.ok (), space)
  else
    match mapped.base.checkedAdd (sec.virtualAddress.setWidth 64) with
    | none => (.error (.overflow mapped.base (sec.virtualAddress.setWidth 64)), space)
    | some base =>
      let content :=
        sectionContent mapped.bytes sec.virtualAddress.toNat sec.virtualSize.toNat
      space.mapWithBytes base content sec.protection

def populateSections (mapped : MappedImage) :
    List PeSection → BackedAddressSpace → Except AddressSpaceError Unit × BackedAddressSpace
  | [], space => (.ok (), space)
  | sec :: secs, space =>
    match populateSection space mapped sec with
    | (.error e, space) => (.error e, space)
    | (.ok (), space) => populateSections mapped secs space

def populateBacked (space : BackedAddressSpace) (img : PeImage) (mapped : MappedImage)
    (stackBase : U64) : Except AddressSpaceError Unit × BackedAddressSpace :=
  match populateSections mapped img.sections space with
  | (.error e, space) => (.error e, space)
  | (.ok (), space) => space.mapZeroed stackBase defaultStackSize .readWrite

def backedLayoutSections (img : PeImage) (mapped : MappedImage) (stackBase : U64) :
    Except AddressSpaceError BackedGuestLayout :=
  match populateBacked .new img mapped stackBase with
  | (.error e, _) => .error e
  | (.ok (), space) => .ok ⟨space, mapped.base, stackBase.saturatingAdd defaultStackSize⟩

end GuestLayout

end Prisma
