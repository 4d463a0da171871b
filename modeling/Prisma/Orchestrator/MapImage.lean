import Prisma.Lib.Checked
import Prisma.Lib.Slices
import Prisma.Orchestrator.PeLoader

-- The flat image of an executable.

namespace Prisma

structure MappedImage where
  base : U64
  entryPc : U64
  bytes : List U8
deriving DecidableEq

namespace PeLoader

-- `bytes[start..stop]`
def range (bytes : List U8) (start stop : Nat) : Parse (List U8) :=
  if start ≤ stop ∧ stop ≤ bytes.length then pure (bytes.slice start (stop - start))
  else Fallible.abort

-- `bytes[start..stop].copy_from_slice(src)`
def copyRange (bytes : List U8) (start stop : Nat) (src : List U8) : Parse (List U8) :=
  if start ≤ stop ∧ stop ≤ bytes.length ∧ src.length = stop - start then
    pure (bytes.overwrite start src)
  else Fallible.abort

def maxImageSize : U32 := 0x40000000

section Sections

variable (img : PeImage) (file : List U8)

def copySection (idx : Nat) (sec : PeSection) (bytes : List U8) : Parse (List U8) := do
  if sec.rawDataSize = 0 then return bytes
  else
    let vaEnd ← Fallible.orFail
      (.sectionOutOfImage idx sec.virtualAddress sec.rawDataSize img.sizeOfImage)
      ((sec.virtualAddress.checkedAdd sec.rawDataSize).filter (· ≤ img.sizeOfImage))
    let rawEnd ← Fallible.orFail
      (.sectionRawOutOfFile idx sec.rawDataOffset sec.rawDataSize file.length)
      (((sec.rawDataOffset.checkedAdd sec.rawDataSize).map (·.toNat)).filter (· ≤ file.length))
    let src ← range file sec.rawDataOffset.toNat rawEnd
    copyRange bytes sec.virtualAddress.toNat vaEnd.toNat src

def copySections : Nat → List PeSection → List U8 → Parse (List U8)
  | _, [], bytes => return bytes
  | idx, sec :: secs, bytes => do
    let bytes ← copySection img file idx sec bytes
    copySections (idx + 1) secs bytes

end Sections

def mapImage (img : PeImage) (file : List U8) : Parse MappedImage := do
  if img.sizeOfImage > maxImageSize then throw (.imageTooLarge img.sizeOfImage)
  else if img.entryPointRva ≥ img.sizeOfImage then
    throw (.entryOutOfImage img.entryPointRva img.sizeOfImage)
  else if (img.imageBase.checkedAdd (img.sizeOfImage.setWidth 64)).isNone then
    throw .imageWrapsAddressSpace
  else
    let bytes ← copySections img file 0 img.sections (List.replicate img.sizeOfImage.toNat 0)
    let entryPc ← Fallible.orAbort (img.imageBase.checkedAdd (img.entryPointRva.setWidth 64))
    return ⟨img.imageBase, entryPc, bytes⟩

end PeLoader

end Prisma
