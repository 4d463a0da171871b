import Prisma.Lib.Fallible
import Prisma.Lib.LittleEndian
import Prisma.Cache.Basic

-- Saving the cache to a file and loading it again.

namespace Prisma

inductive IoError
  | openFailed
  | writeFailed
  | readFailed
  | badMagic
  | unsupportedVersion
  | truncated
deriving DecidableEq, Repr

section Compression

-- The Zstandard library. A vector has at most `isize::MAX` bytes.
structure Zstd where
  encode : List U8 → Int → Option (List U8)
  decode : List U8 → Option (List U8)
  encode_length : ∀ {bytes level frame}, encode bytes level = some frame → frame.length < 2 ^ 63

def compress (zstd : Zstd) (bytes : List U8) (level : Int) : List U8 :=
  if bytes.isEmpty then [] else (zstd.encode bytes level).getD []

def decompress (zstd : Zstd) (frame : List U8) : Option (List U8) :=
  if frame.isEmpty then some [] else zstd.decode frame

end Compression

namespace CacheFile

-- The bytes of a vector.
abbrev Buffer := { bytes : List U8 // bytes.length < 2 ^ 63 }

def magic : U64 := 0x5052534d43414348

def currentVersion : U32 := 2

def flagCompressed : U32 := 1

section Write

def writeU32 (n : U32) : List U8 :=
  LittleEndian.encode 4 n.toNat

def writeU64 (n : U64) : List U8 :=
  LittleEndian.encode 8 n.toNat

-- `len() as u64`
def writeLen (n : Nat) : List U8 :=
  writeU64 (BitVec.ofNat 64 n)

end Write

section Read

variable (input : List U8)

def readLe (size offset : Nat) : Option (Nat × Nat) :=
  if input.length - offset < size then none
  else some (LittleEndian.decode ((input.drop offset).take size), offset + size)

def readU32 (offset : Nat) : Option (U32 × Nat) :=
  (readLe input 4 offset).map fun (n, offset) => (BitVec.ofNat 32 n, offset)

def readU64 (offset : Nat) : Option (U64 × Nat) :=
  (readLe input 8 offset).map fun (n, offset) => (BitVec.ofNat 64 n, offset)

end Read

abbrev Load := Fallible IoError

open Fallible

-- `&input[start..stop]`
def slice (input : List U8) (start stop : Nat) : Load (List U8) :=
  if start ≤ stop ∧ stop ≤ input.length then pure ((input.drop start).take (stop - start))
  else abort

structure FileHeader where
  version : U32
  flags : U32
  cpuFp : U64
  count : U64

def readHeader (input : List U8) : Load (FileHeader × Nat) := do
  let (m, i) ← orFail .readFailed (readU64 input 0)
  if m ≠ magic then throw .badMagic
  else
    let (version, i) ← orFail .readFailed (readU32 input i)
    if version ≠ 1 ∧ version ≠ currentVersion then throw .unsupportedVersion
    else
      let (flags, i) ← orFail .readFailed (readU32 input i)
      let (cpuFp, i) ← orFail .readFailed (readU64 input i)
      let (count, i) ← orFail .readFailed (readU64 input i)
      return (⟨version, flags, cpuFp, count⟩, i)

-- The fields of an entry that stand in front of its code.
structure EntryHeader where
  guestAddr : U64
  contentHash : U64
  guestSize : U64
  storedSize : U64
  uncompressedSize : U64

namespace EntryHeader

def key (header : EntryHeader) : CacheKey :=
  (header.guestAddr, header.contentHash)

def entry (header : EntryHeader) (codeBytes : List U8) : CacheEntry where
  guestAddr := header.guestAddr
  guestSize := header.guestSize.setWidth 32
  codeSize := BitVec.ofNat 32 codeBytes.length
  codeBytes := codeBytes
  hitCount := 0
  lastUsed := 0

end EntryHeader

def readEntryHeader (input : List U8) (version : U32) (i : Nat) : Load (EntryHeader × Nat) := do
  let (guestAddr, i) ← orFail .truncated (readU64 input i)
  let (contentHash, i) ← orFail .truncated (readU64 input i)
  let (guestSize, i) ← orFail .truncated (readU64 input i)
  let (storedSize, i) ← orFail .truncated (readU64 input i)
  let (uncompressedSize, i) ←
    if version = currentVersion then orFail .truncated (readU64 input i) else pure (storedSize, i)
  return (⟨guestAddr, contentHash, guestSize, storedSize, uncompressedSize⟩, i)

section Entries

variable (zstd : Zstd) (input : List U8) (version : U32) (compressed : Bool)

def readCode (frame : List U8) (uncompressedSize : Nat) : Load (List U8) :=
  if compressed then do
    let decoded ← orFail .readFailed (decompress zstd frame)
    if decoded.length ≠ uncompressedSize then throw .truncated else pure decoded
  else pure frame

-- One round of the loop over the entries. The sum of the offset and the stored size wraps around in
-- a release build; a debug build panics there.
def readEntry (i : Nat) : Load ((CacheKey × CacheEntry) × Nat) := do
  let (header, i) ← readEntryHeader input version i
  let stop := (i + header.storedSize.toNat) % 2 ^ 64
  if input.length < stop then throw .truncated
  else
    let frame ← slice input i stop
    let codeBytes ← readCode zstd compressed frame header.uncompressedSize.toNat
    if 2 ^ 32 ≤ codeBytes.length then throw .truncated
    else return ((header.key, header.entry codeBytes), stop)

abbrev Tables := EntryTable × AList fun _ : U64 => U64

def Tables.add (tables : Tables) (key : CacheKey) (entry : CacheEntry) : Tables :=
  (tables.1.insert key entry, tables.2.insert key.1 key.2)

def readEntries : Nat → Nat → Tables → Load Tables
  | 0, _, tables => return tables
  | count + 1, i, tables => do
    let ((key, entry), i) ← readEntry zstd input version compressed i
    readEntries count i (tables.add key entry)

def readFile : Load Tables := do
  let (header, i) ← readHeader input
  let compressed := currentVersion ≤ header.version && header.flags &&& flagCompressed ≠ 0
  readEntries zstd input header.version compressed header.count.toNat i (∅, ∅)

end Entries

-- What opening and reading a file gives.
inductive FileRead
  | openFailed
  | readFailed
  | content (input : Buffer)

end CacheFile

namespace TranslationCache

open CacheFile

variable (zstd : Zstd) (walk : EntryWalk) (c : TranslationCache)

section Save

def payload (entry : CacheEntry) : Except IoError (List U8) :=
  if c.compressOnSave then
    let compressed := compress zstd entry.codeBytes 3
    if compressed.isEmpty && !entry.codeBytes.isEmpty then throw .writeFailed else pure compressed
  else pure entry.codeBytes

def saveEntry (key : CacheKey) (entry : CacheEntry) : Except IoError (List U8) := do
  let payload ← c.payload zstd entry
  return writeU64 key.1 ++ writeU64 key.2 ++ writeU64 (entry.guestSize.setWidth 64) ++
    writeLen payload.length ++ writeLen entry.codeBytes.length ++ payload

def saveHeader : List U8 :=
  writeU64 magic ++ writeU32 currentVersion ++
    writeU32 (if c.compressOnSave then flagCompressed else 0) ++ writeU64 0 ++
    writeLen c.liveEntryCount

-- The file that is written. The vector that the source collects it in cannot grow without bound:
-- `none` is the panic of `extend_from_slice`.
def saveToFile : Option (Except IoError Buffer) :=
  match ((walk.order c.entries.entries).filter (c.isLiveKey ·.1)).mapM
      fun entry => c.saveEntry zstd entry.1 entry.2 with
  | .error e => some (.error e)
  | .ok records =>
    if h : (c.saveHeader ++ records.flatten).length < 2 ^ 63 then
      some (.ok ⟨c.saveHeader ++ records.flatten, h⟩)
    else none

end Save

section Load

-- The tables are replaced at the very end. The entries are then numbered in the order of the table.
def install (tables : Tables) : TranslationCache :=
  { c with
    entries := (tables.1.reorder walk).mapIdx fun i _ entry => { entry with lastUsed := i }
    addrToHash := tables.2
    nextTick := 1 }

def loadFromFile (file : FileRead) : Option (Option IoError × TranslationCache) :=
  match file with
  | .openFailed => some (some .openFailed, c)
  | .readFailed => some (some .readFailed, c)
  | .content input =>
    match (readFile zstd input.1).run with
    | none => none
    | some (.error e) => some (some e, c)
    | some (.ok tables) => some (none, c.install walk tables)

end Load

end TranslationCache

end Prisma
