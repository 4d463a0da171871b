import Prisma.Cache.File

-- The layout of a cache file.

namespace Prisma.CacheFile

namespace FileHeader

def bytes (h : FileHeader) : List U8 :=
  writeU64 magic ++ writeU32 h.version ++ writeU32 h.flags ++ writeU64 h.cpuFp ++ writeU64 h.count

def Supported (h : FileHeader) : Prop :=
  h.version = 1 ∨ h.version = 2

-- Files of version 1 are never compressed.
def compressed (h : FileHeader) : Bool :=
  h.version = 2 && h.flags.getLsbD 0

end FileHeader

-- The uncompressed size came with version 2.
def EntryHeader.bytes (version : U32) (h : EntryHeader) : List U8 :=
  writeU64 h.guestAddr ++ writeU64 h.contentHash ++ writeU64 h.guestSize ++ writeU64 h.storedSize ++
    if version = 2 then writeU64 h.uncompressedSize else []

structure Record where
  header : EntryHeader
  frame : List U8

namespace Record

def bytes (version : U32) (r : Record) : List U8 :=
  r.header.bytes version ++ r.frame

-- The code that the record holds. Its length has to fit into 32 bits.
def code (zstd : Zstd) (compressed : Bool) (r : Record) : Option (List U8) :=
  let code :=
    if compressed then
      (decompress zstd r.frame).filter (·.length = r.header.uncompressedSize.toNat)
    else some r.frame
  code.filter (·.length < 2 ^ 32)

def Valid (zstd : Zstd) (compressed : Bool) (r : Record) : Prop :=
  r.header.storedSize.toNat = r.frame.length ∧ (r.code zstd compressed).isSome

end Record

-- The file starts with a header and some records.
structure StartsWith (zstd : Zstd) (input : List U8) (header : FileHeader) (records : List Record) :
    Prop where
  bytes : header.bytes ++ records.flatMap (Record.bytes header.version) <+: input
  supported : header.Supported
  valid : ∀ r ∈ records, r.Valid zstd header.compressed

-- Behind fewer records than the file header counts, an entry header announces more bytes than the
-- address space has.
structure Oversized (zstd : Zstd) (input : List U8) (header : FileHeader) (records : List Record)
    (h : EntryHeader) : Prop extends StartsWith zstd input header records where
  count : records.length < header.count.toNat
  entryHeader : h.bytes header.version <+: input.drop
    (header.bytes ++ records.flatMap (Record.bytes header.version)).length
  stored : 2 ^ 64 ≤ (header.bytes ++ records.flatMap (Record.bytes header.version)).length +
    (h.bytes header.version).length + h.storedSize.toNat

-- The code that the records hold, where a later record replaces an earlier one with its key.
def held (zstd : Zstd) (compressed : Bool) (records : List Record) :
    AList fun _ : CacheKey => List U8 :=
  records.foldl (fun held r => held.insert r.header.key ((r.code zstd compressed).getD [])) ∅

namespace FileRead

def Oversized (zstd : Zstd) (file : FileRead) : Prop :=
  ∃ input header records h, file = .content input ∧ CacheFile.Oversized zstd input.1 header records h

-- The file has as many records as its header counts.
def Holds (zstd : Zstd) (file : FileRead) (header : FileHeader) (records : List Record) : Prop :=
  ∃ input, file = .content input ∧ StartsWith zstd input.1 header records ∧
    records.length = header.count.toNat

end FileRead

end Prisma.CacheFile
