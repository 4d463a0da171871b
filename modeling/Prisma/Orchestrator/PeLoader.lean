import Prisma.Lib.Fallible
import Prisma.Lib.LittleEndian
import Prisma.IR.Basic

-- The headers of a Windows executable.

namespace Prisma

inductive PeMachine
  | i386
  | x86_64
  | arm64
  | other (m : U16)
deriving DecidableEq, Repr

def PeMachine.fromU16 (m : U16) : PeMachine :=
  if m = 0x014C then .i386
  else if m = 0x8664 then .x86_64
  else if m = 0xAA64 then .arm64
  else .other m

structure PeSection where
  name : List U8
  virtualSize : U32
  virtualAddress : U32
  rawDataSize : U32
  rawDataOffset : U32
  characteristics : U32
deriving DecidableEq, Repr

structure PeImage where
  machine : PeMachine
  sectionCount : U16
  timestamp : U32
  entryPointRva : U32
  imageBase : U64
  sizeOfImage : U32
  sections : List PeSection
  pe32Plus : Bool
  importDirRva : U32
  importDirSize : U32
  relocDirRva : U32
  relocDirSize : U32
  exportDirRva : U32
  exportDirSize : U32
deriving DecidableEq, Repr

inductive PeError
  | truncated (size : Nat)
  | badDosMagic (magic : U16)
  | lfanewOutOfRange (lfanew size : Nat)
  | badNtMagic (magic : U32)
  | unsupportedOptHeader (magic : U16)
  | sectionOutOfImage (index : Nat) (va size imageSize : U32)
  | sectionRawOutOfFile (index : Nat) (offset size : U32) (fileSize : Nat)
  | entryOutOfImage (entry imageSize : U32)
  | imageWrapsAddressSpace
  | imageTooLarge (imageSize : U32)
  | importRvaUnmapped (rva : U32)
  | importStringUnterminated (rva : U32)
  | exportRvaUnmapped (rva : U32)
  | relocOutOfImage (rva : U32)
  | relocBlockTruncated (page : U32)
  | relocUnsupportedType (type : U16)
deriving DecidableEq, Repr

namespace PeLoader

abbrev Parse := Fallible PeError

section Read

variable (bytes : List U8)

-- `bytes[off..off + n]`, or these bytes one after another.
def readBytes (off n : Nat) : Parse (List U8) :=
  if off + n ≤ bytes.length then pure ((bytes.drop off).take n) else Fallible.abort

def readU16 (off : Nat) : Parse U16 :=
  (BitVec.ofNat 16 <| LittleEndian.decode ·) <$> readBytes bytes off 2

def readU32 (off : Nat) : Parse U32 :=
  (BitVec.ofNat 32 <| LittleEndian.decode ·) <$> readBytes bytes off 4

def readU64 (off : Nat) : Parse U64 :=
  (BitVec.ofNat 64 <| LittleEndian.decode ·) <$> readBytes bytes off 8

end Read

section Headers

variable (bytes : List U8)

-- The DOS header. Its last field is the offset of the NT headers.
def readDosHeader : Parse Nat := do
  if bytes.length < 64 then throw (.truncated bytes.length)
  else
    let dosMagic ← readU16 bytes 0
    if dosMagic ≠ 0x5A4D then throw (.badDosMagic dosMagic)
    else
      let eLfanew := (← readU32 bytes 0x3C).toNat
      if bytes.length < eLfanew + 24 then throw (.lfanewOutOfRange eLfanew bytes.length)
      else return eLfanew

structure CoffHeader where
  machine : U16
  nSections : U16
  timestamp : U32
  optHdrSize : Nat

-- The NT signature and the COFF file header behind it.
def readCoffHeader (eLfanew : Nat) : Parse CoffHeader := do
  let ntMagic ← readU32 bytes eLfanew
  if ntMagic ≠ 0x00004550 then throw (.badNtMagic ntMagic)
  else
    let coff := eLfanew + 4
    let machine ← readU16 bytes coff
    let nSections ← readU16 bytes (coff + 2)
    let timestamp ← readU32 bytes (coff + 4)
    let optHdrSize := (← readU16 bytes (coff + 16)).toNat
    if bytes.length < coff + 20 + optHdrSize then throw (.truncated bytes.length)
    else return ⟨machine, nSections, timestamp, optHdrSize⟩

structure OptHeader where
  pe32Plus : Bool
  entryRva : U32
  imageBase : U64
  sizeOfImage : U32

def readOptHeader (opt : Nat) : Parse OptHeader := do
  let optMagic ← readU16 bytes opt
  if optMagic = 0x010B then
    let entry ← readU32 bytes (opt + 16)
    let base ← readU32 bytes (opt + 28)
    let sz ← readU32 bytes (opt + 56)
    return ⟨false, entry, base.setWidth 64, sz⟩
  else if optMagic = 0x020B then
    let entry ← readU32 bytes (opt + 16)
    let base ← readU64 bytes (opt + 24)
    let sz ← readU32 bytes (opt + 56)
    return ⟨true, entry, base, sz⟩
  else throw (.unsupportedOptHeader optMagic)

end Headers

section Directories

variable (bytes : List U8) (optEnd : Nat)

def readU32At (off : Nat) : Parse (Option U32) :=
  if off + 4 ≤ optEnd ∧ off + 4 ≤ bytes.length then some <$> readU32 bytes off else return none

-- The address and the size of a data directory.
def readDirectory (datadirOff : Nat) (numDirs : U32) (index : Nat) : Parse (U32 × U32) := do
  if index < numDirs.toNat then
    let rva := (← readU32At bytes optEnd (datadirOff + 8 * index)).getD 0
    let size := (← readU32At bytes optEnd (datadirOff + 8 * index + 4)).getD 0
    return (rva, size)
  else return (0, 0)

end Directories

section Sections

variable (bytes : List U8)

def readSection (secOff : Nat) : Parse PeSection := do
  if bytes.length < secOff + 40 then throw (.truncated bytes.length)
  else
    let name ← readBytes bytes secOff 8
    let virtualSize ← readU32 bytes (secOff + 8)
    let virtualAddress ← readU32 bytes (secOff + 12)
    let rawDataSize ← readU32 bytes (secOff + 16)
    let rawDataOffset ← readU32 bytes (secOff + 20)
    let characteristics ← readU32 bytes (secOff + 36)
    return ⟨name, virtualSize, virtualAddress, rawDataSize, rawDataOffset, characteristics⟩

def readSections : Nat → Nat → Parse (List PeSection)
  | 0, _ => return []
  | n + 1, secOff => do
    let sec ← readSection bytes secOff
    let secs ← readSections n (secOff + 40)
    return sec :: secs

end Sections

def parse (bytes : List U8) : Parse PeImage := do
  let eLfanew ← readDosHeader bytes
  let coff ← readCoffHeader bytes eLfanew
  let opt := eLfanew + 24
  let header ← readOptHeader bytes opt
  let (numdirsOff, datadirOff) :=
    if header.pe32Plus then (opt + 108, opt + 112) else (opt + 92, opt + 96)
  let optEnd := opt + coff.optHdrSize
  let numDirs := (← readU32At bytes optEnd numdirsOff).getD 0
  let (importDirRva, importDirSize) ← readDirectory bytes optEnd datadirOff numDirs 1
  let (relocDirRva, relocDirSize) ← readDirectory bytes optEnd datadirOff numDirs 5
  let (exportDirRva, exportDirSize) ← readDirectory bytes optEnd datadirOff numDirs 0
  let sections ← readSections bytes coff.nSections.toNat (opt + coff.optHdrSize)
  return {
    machine := .fromU16 coff.machine
    sectionCount := coff.nSections
    timestamp := coff.timestamp
    entryPointRva := header.entryRva
    imageBase := header.imageBase
    sizeOfImage := header.sizeOfImage
    sections
    pe32Plus := header.pe32Plus
    importDirRva, importDirSize, relocDirRva, relocDirSize, exportDirRva, exportDirSize }

end PeLoader

end Prisma
