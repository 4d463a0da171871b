import Prisma.Cache.File

-- Sequences of calls of the cache.

namespace Prisma

-- The public operations that can change the cache.
inductive CacheCall
  | setMaxEntries (n : Nat)
  | setMaxBytes (n : Nat)
  | setLimits (maxEntries maxBytes : Nat)
  | clear
  | lookup (guestAddr : U64) (guestBytes : List U8)
  | insert (key : CacheKey) (entry : CacheEntry)
  | upsert (key : CacheKey) (entry : CacheEntry)
  | invalidate (key : CacheKey)
  | touch (key : CacheKey)
  | invalidatePage (pageAddr : U64) (pageSize : Nat)
  | resetHitCounts
  | compact
  | setCompressOnSave (on : Bool)
  | loadFromFile (file : CacheFile.FileRead)

namespace CacheCall

-- A call that panics has not changed anything.
def apply (zstd : Zstd) (walk : EntryWalk) (c : TranslationCache) : CacheCall → TranslationCache
  | .setMaxEntries n => c.setMaxEntries walk n
  | .setMaxBytes n => c.setMaxBytes walk n
  | .setLimits maxEntries maxBytes => c.setLimits walk maxEntries maxBytes
  | .clear => c.clear
  | .lookup guestAddr guestBytes => (c.lookup guestAddr guestBytes).2
  | .insert key entry => (c.insert walk key entry).2
  | .upsert key entry => c.upsert walk key entry
  | .invalidate key => c.invalidate key
  | .touch key => (c.touch key).2
  | .invalidatePage pageAddr pageSize => c.invalidatePage pageAddr pageSize
  | .resetHitCounts => c.resetHitCounts
  | .compact => c.compact.1
  | .setCompressOnSave on => c.setCompressOnSave on
  | .loadFromFile file => ((c.loadFromFile zstd walk file).map (·.2)).getD c

end CacheCall

-- The cache can get into this state through calls that each meet a condition. Every call may walk
-- over the tables in another order.
inductive TranslationCache.Reachable (zstd : Zstd) (P : TranslationCache → CacheCall → Prop) :
    TranslationCache → Prop
  | new : Reachable zstd P .new
  | call {c : TranslationCache} {call : CacheCall} (h : Reachable zstd P c) (hp : P c call)
    (walk : EntryWalk) : Reachable zstd P (call.apply zstd walk c)

end Prisma
