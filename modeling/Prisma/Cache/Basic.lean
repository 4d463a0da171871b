import Prisma.Lib.Table
import Prisma.IR.Basic

-- The translation cache. A limit of zero stands for no limit.

namespace Prisma

-- FNV-1a over the guest bytes of a translation. The prime is not the one of the C++ core.
def fnv1a64 (bytes : List U8) : U64 :=
  bytes.foldl (fun h b => (h ^^^ b.setWidth 64) * 0x1_0000_0000_01b3) 0xcbf29ce484222325

-- The guest address and the hash of the guest bytes.
abbrev CacheKey := U64 × U64

@[ext]
structure CacheEntry where
  guestAddr : U64
  guestSize : U32
  codeSize : U32
  codeBytes : List U8
  hitCount : Nat
  lastUsed : Nat
deriving DecidableEq, Repr

inductive MissReason
  | unknownAddress
  | staleContent
deriving DecidableEq, Repr

inductive LookupResult
  | hit (entry : CacheEntry)
  | miss (reason : MissReason)
deriving DecidableEq, Repr

-- `saturating_add(1)` on u64.
def saturatingSucc (n : Nat) : Nat :=
  min (n + 1) (2 ^ 64 - 1)

abbrev EntryTable := AList fun _ : CacheKey => CacheEntry

abbrev EntryWalk := Walk (Σ _ : CacheKey, CacheEntry)

structure TranslationCache where
  entries : EntryTable
  addrToHash : AList fun _ : U64 => U64
  maxEntries : Nat
  maxBytes : Nat
  nextTick : Nat
  compressOnSave : Bool

namespace TranslationCache

def new : TranslationCache where
  entries := ∅
  addrToHash := ∅
  maxEntries := 0
  maxBytes := 0
  nextTick := 1
  compressOnSave := false

variable (c : TranslationCache)

def containsKey (key : CacheKey) : Bool :=
  (c.entries.lookup key).isSome

def isLiveKey (key : CacheKey) : Bool :=
  c.addrToHash.lookup key.1 = some key.2

def liveEntryCount : Nat :=
  c.entries.keys.countP c.isLiveKey

def totalCodeBytes : Nat :=
  c.entries.weight fun entry => entry.2.codeBytes.length

section Eviction

-- One round of the loop of `compact`.
def compactKey (state : TranslationCache × Nat) (key : CacheKey) : TranslationCache × Nat :=
  if state.1.isLiveKey key then state
  else ({ state.1 with entries := state.1.entries.erase key }, state.2 + 1)

-- Drops the superseded entries and counts them.
def compact : TranslationCache × Nat :=
  c.entries.keys.foldl compactKey (c, 0)

def overLimits : Bool :=
  (c.maxEntries ≠ 0 ∧ c.maxEntries < c.entries.size) ∨
    (c.maxBytes ≠ 0 ∧ c.maxBytes < c.totalCodeBytes)

-- What `maybe_evict` does with the entry that it picks.
def evict (lru : CacheKey) : TranslationCache :=
  match c.entries.lookup lru with
  | none => c
  | some entry =>
    { c with
      entries := c.entries.erase lru
      addrToHash :=
        if c.addrToHash.lookup entry.guestAddr = some lru.2 then c.addrToHash.erase entry.guestAddr
        else c.addrToHash }

-- `min_by_key` takes the first one in the order of the table.
def leastRecent (walk : EntryWalk) : Option CacheKey :=
  ((walk.order c.entries.entries).argmin (·.2.lastUsed)).map (·.1)

-- The loop of `maybe_evict`. Every round drops an entry, and without entries no limit is exceeded.
def maybeEvictLoop (walk : EntryWalk) : Nat → TranslationCache → TranslationCache
  | 0, c => c
  | rounds + 1, c =>
    if !c.overLimits then c
    else
      let (c, staleEvicted) := c.compact
      if 0 < staleEvicted && !c.overLimits then c
      else
        match c.leastRecent walk with
        | some lru => maybeEvictLoop walk rounds (c.evict lru)
        | none => c

def maybeEvict (walk : EntryWalk) : TranslationCache :=
  maybeEvictLoop walk c.entries.size c

end Eviction

section Limits

def setMaxEntries (walk : EntryWalk) (n : Nat) : TranslationCache :=
  { c with maxEntries := n }.maybeEvict walk

def setMaxBytes (walk : EntryWalk) (n : Nat) : TranslationCache :=
  { c with maxBytes := n }.maybeEvict walk

def setLimits (walk : EntryWalk) (maxEntries maxBytes : Nat) : TranslationCache :=
  { c with maxEntries, maxBytes }.maybeEvict walk

end Limits

section Entries

def clear : TranslationCache :=
  { c with entries := ∅, addrToHash := ∅, nextTick := 1 }

-- A use of a stored entry. The source writes the fields in place.
def stamp (key : CacheKey) (entry : CacheEntry) : TranslationCache :=
  { c with
    nextTick := saturatingSucc c.nextTick
    entries := c.entries.insert key
      { entry with hitCount := saturatingSucc entry.hitCount, lastUsed := c.nextTick } }

def lookup (guestAddr : U64) (guestBytes : List U8) : LookupResult × TranslationCache :=
  let currentHash := fnv1a64 guestBytes
  match c.addrToHash.lookup guestAddr with
  | none => (.miss .unknownAddress, c)
  | some known =>
    if known ≠ currentHash then (.miss .staleContent, c)
    else
      match c.entries.lookup (guestAddr, currentHash) with
      | none => (.miss .staleContent, c)
      | some e =>
        (.hit { e with hitCount := saturatingSucc e.hitCount, lastUsed := c.nextTick },
          c.stamp (guestAddr, currentHash) e)

-- The cache with a new entry, before the limits are enforced.
def store (key : CacheKey) (entry : CacheEntry) : TranslationCache :=
  { c with
    nextTick := saturatingSucc c.nextTick
    addrToHash := c.addrToHash.insert key.1 key.2
    entries := c.entries.insert key
      { entry with guestAddr := key.1, lastUsed := c.nextTick, hitCount := 0 } }

def insert (walk : EntryWalk) (key : CacheKey) (entry : CacheEntry) : Bool × TranslationCache :=
  if c.containsKey key then (false, c)
  else (true, (c.store key entry).maybeEvict walk)

-- `upsert` drops the entry that the address had under another hash.
def dropPrevious (key : CacheKey) : TranslationCache :=
  match c.addrToHash.lookup key.1 with
  | none => c
  | some previousHash =>
    if previousHash ≠ key.2 then { c with entries := c.entries.erase (key.1, previousHash) } else c

def upsert (walk : EntryWalk) (key : CacheKey) (entry : CacheEntry) : TranslationCache :=
  ((c.dropPrevious key).store key entry).maybeEvict walk

def invalidate (key : CacheKey) : TranslationCache :=
  let c' :=
    match c.addrToHash.lookup key.1 with
    | none => c
    | some currentHash =>
      { c with
        addrToHash := c.addrToHash.erase key.1
        entries :=
          if currentHash ≠ key.2 then c.entries.erase (key.1, currentHash) else c.entries }
  { c' with entries := c'.entries.erase key }

def touch (key : CacheKey) : Bool × TranslationCache :=
  match c.entries.lookup key with
  | none => (false, c)
  | some entry => (true, c.stamp key entry)

-- The addresses of a page, where the end of the page saturates.
def inPage (pageAddr : U64) (pageSize : Nat) (addr : U64) : Bool :=
  pageAddr.toNat ≤ addr.toNat && addr.toNat < min (pageAddr.toNat + pageSize) (2 ^ 64 - 1)

def dropAddress (addr : U64) : TranslationCache :=
  match c.addrToHash.lookup addr with
  | none => c
  | some h =>
    { c with
      addrToHash := c.addrToHash.erase addr
      entries := c.entries.erase (addr, h) }

def invalidatePage (pageAddr : U64) (pageSize : Nat) : TranslationCache :=
  (c.addrToHash.keys.filter (inPage pageAddr pageSize)).foldl dropAddress c

def resetHitCounts : TranslationCache :=
  { c with entries := c.entries.map fun _ entry => { entry with hitCount := 0 } }

def setCompressOnSave (on : Bool) : TranslationCache :=
  { c with compressOnSave := on }

end Entries

end TranslationCache

end Prisma
