import Prisma.Orchestrator.MapImage

-- Base relocations. An error keeps what has been written before it, and a panic is `none`.

namespace Prisma.PeLoader

section Entries

variable (delta : U64)

-- The number at `bytes[off..off + n]`.
def readNumber (bytes : List U8) (off n : Nat) : Option Nat :=
  if off + n ≤ bytes.length then some (LittleEndian.decode (bytes.slice off n)) else none

def addAt (size : Nat) (delta : BitVec (8 * size)) (targetRva : U32) (bytes : List U8) :
    Option (Except PeError Nat × List U8) :=
  let target := targetRva.toNat
  if target + size ≤ bytes.length then do
    let v ← readNumber bytes target size
    let sum := BitVec.ofNat (8 * size) v + delta
    return (.ok 1, bytes.overwrite target (LittleEndian.encode size sum.toNat))
  else some (.error (.relocOutOfImage targetRva), bytes)

-- The result is the number of fixups.
def applyEntry (pageRva : U32) (raw : U16) (bytes : List U8) :
    Option (Except PeError Nat × List U8) :=
  let typ := raw >>> 12
  let targetRva := pageRva + (raw &&& 0x0FFF).setWidth 32
  if typ = 0 then some (.ok 0, bytes)
  else if typ = 3 then addAt 4 (delta.setWidth 32) targetRva bytes
  else if typ = 10 then addAt 8 delta targetRva bytes
  else some (.error (.relocUnsupportedType typ), bytes)

def applyEntries (pageRva : U32) :
    Nat → Nat → Nat → List U8 → Option (Except PeError Nat × List U8)
  | 0, _, applied, bytes => some (.ok applied, bytes)
  | left + 1, eo, applied, bytes => do
    let raw ← readNumber bytes eo 2
    match ← applyEntry delta pageRva (BitVec.ofNat 16 raw) bytes with
    | (.error e, bytes) => return (.error e, bytes)
    | (.ok n, bytes) => applyEntries pageRva left (eo + 2) (applied + n) bytes

-- The blocks from `off` on. A block has at least eight bytes.
def applyBlocks (dirEnd off applied : Nat) (bytes : List U8) :
    Option (Except PeError Nat × List U8) :=
  if off + 8 ≤ dirEnd then do
    let pageRva := BitVec.ofNat 32 (← readNumber bytes off 4)
    let blockSize ← readNumber bytes (off + 4) 4
    if blockSize < 8 ∨ dirEnd < off + blockSize then
      return (.error (.relocBlockTruncated pageRva), bytes)
    else
      match ← applyEntries delta pageRva ((blockSize - 8) / 2) (off + 8) applied bytes with
      | (.error e, bytes) => return (.error e, bytes)
      | (.ok applied, bytes) => applyBlocks dirEnd (off + blockSize) applied bytes
  else some (.ok applied, bytes)
termination_by dirEnd - off

end Entries

def applyRelocations (img : PeImage) (mapped : MappedImage) (newBase : U64) :
    Option (Except PeError Nat × MappedImage) :=
  if img.relocDirRva = 0 ∨ newBase = img.imageBase then some (.ok 0, mapped)
  else
    let delta := newBase - img.imageBase
    let dirStart := img.relocDirRva.toNat
    let dirEnd := dirStart + img.relocDirSize.toNat
    if dirEnd ≤ mapped.bytes.length then do
      match ← applyBlocks delta dirEnd dirStart 0 mapped.bytes with
      | (.error e, bytes) => return (.error e, { mapped with bytes })
      | (.ok applied, bytes) =>
        let entryPc ← newBase.checkedAdd (img.entryPointRva.setWidth 64)
        return (.ok applied, ⟨newBase, entryPc, bytes⟩)
    else some (.error (.relocOutOfImage img.relocDirRva), mapped)

end Prisma.PeLoader
