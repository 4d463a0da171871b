import Prisma.Lib.Checked
import Prisma.Lib.Slices
import Prisma.Orchestrator.PeLoader

-- The import directory. A text is the list of its UTF-8 bytes, and `utf8Lossy` is the host's
-- replacement of what is not UTF-8.

namespace Prisma

abbrev Text := List U8

inductive ImportSymbol
  | name (name : Text)
  | ordinal (ordinal : U16)
deriving DecidableEq

structure PeImport where
  dll : Text
  symbols : List ImportSymbol
  iatRva : U32
deriving DecidableEq

def PeImport.iatSlotRva (imp : PeImport) (index : Nat) (thunkWidth : U32) : Option U32 :=
  if index < 2 ^ 32 ∧ index * thunkWidth.toNat < 2 ^ 32 then
    imp.iatRva.checkedAddNat (index * thunkWidth.toNat)
  else none

namespace PeLoader

section Read

variable (file : List U8)

-- `file.get(off..off + n)`
def getBytes (off n : Nat) : Option (List U8) :=
  if off + n ≤ file.length then some (file.slice off n) else none

def getU32 (bytes : List U8) (off : Nat) : U32 :=
  BitVec.ofNat 32 (LittleEndian.decode (bytes.slice off 4))

-- The first section that spans the address decides, also when it has no data there.
def rvaToFileOffset (img : PeImage) (rva : U32) : Option Nat := do
  let sec ← img.sections.find? fun sec =>
    sec.virtualAddress ≤ rva ∧
      (rva - sec.virtualAddress).toNat < max sec.virtualSize.toNat sec.rawDataSize.toNat
  let delta := rva - sec.virtualAddress
  if delta < sec.rawDataSize then some (sec.rawDataOffset.toNat + delta.toNat) else none

def readCstr (utf8Lossy : List U8 → Text) (off max : Nat) : Option Text := do
  let rest ← if off ≤ file.length then some (file.drop off) else none
  let len ← (rest.take max).findIdx? (· = 0)
  return utf8Lossy (rest.take len)

end Read

section Imports

variable (utf8Lossy : List U8 → Text) (img : PeImage) (file : List U8)

def maxSymbols : Nat := 65536

def maxDlls : Nat := 8192

def thunkWidth (img : PeImage) : Nat :=
  if img.pe32Plus then 8 else 4

def ordinalFlag (img : PeImage) : U64 :=
  if img.pe32Plus then 0x8000000000000000 else 0x80000000

def parseThunk (thunk : U64) : Parse ImportSymbol := do
  if thunk &&& ordinalFlag img ≠ 0 then return .ordinal (thunk.setWidth 16)
  else
    let byNameRva := (thunk &&& 0x7FFFFFFF).setWidth 32
    let nameOff ← Fallible.orFail (.importRvaUnmapped byNameRva) (rvaToFileOffset img byNameRva)
    let name ← Fallible.orFail (.importStringUnterminated byNameRva)
      (readCstr file utf8Lossy (nameOff + 2) 1024)
    return .name name

def parseThunksFrom (thunkRva : U32) : Nat → Nat → Parse (List ImportSymbol)
  | 0, _ => return []
  | n + 1, off => do
    let raw ← Fallible.orFail (.importRvaUnmapped thunkRva) (getBytes file off (thunkWidth img))
    let thunk : U64 := BitVec.ofNat 64 (LittleEndian.decode raw)
    if thunk = 0 then return []
    else
      let symbol ← parseThunk utf8Lossy img file thunk
      let symbols ← parseThunksFrom thunkRva n (off + thunkWidth img)
      return symbol :: symbols

def parseThunks (thunkRva : U32) : Parse (List ImportSymbol) := do
  let off ← Fallible.orFail (.importRvaUnmapped thunkRva) (rvaToFileOffset img thunkRva)
  parseThunksFrom utf8Lossy img file thunkRva maxSymbols off

def parseDescriptor (originalFirstThunk nameRva firstThunk : U32) : Parse PeImport := do
  let nameOff ← Fallible.orFail (.importRvaUnmapped nameRva) (rvaToFileOffset img nameRva)
  let dll ← Fallible.orFail (.importStringUnterminated nameRva)
    (readCstr file utf8Lossy nameOff 1024)
  -- A bound library may have the address table only.
  let thunkRva := if originalFirstThunk ≠ 0 then originalFirstThunk else firstThunk
  let symbols ← if thunkRva = 0 then pure [] else parseThunks utf8Lossy img file thunkRva
  return ⟨dll, symbols, firstThunk⟩

def parseImportsFrom : Nat → Nat → Parse (List PeImport)
  | 0, _ => return []
  | n + 1, descOff => do
    let desc ← Fallible.orFail (.importRvaUnmapped img.importDirRva) (getBytes file descOff 20)
    let originalFirstThunk := getU32 desc 0
    let nameRva := getU32 desc 12
    let firstThunk := getU32 desc 16
    if originalFirstThunk = 0 ∧ nameRva = 0 ∧ firstThunk = 0 then return []
    else
      let imp ← parseDescriptor utf8Lossy img file originalFirstThunk nameRva firstThunk
      let imports ← parseImportsFrom n (descOff + 20)
      return imp :: imports

def parseImports : Parse (List PeImport) := do
  if img.importDirRva = 0 then return []
  else
    let descOff ← Fallible.orFail (.importRvaUnmapped img.importDirRva)
      (rvaToFileOffset img img.importDirRva)
    parseImportsFrom utf8Lossy img file maxDlls descOff

end Imports

end PeLoader

end Prisma
