import Prisma.Cache.Basic

-- The guard against self-modifying code, and what the dispatcher does with it and the cache.

namespace Prisma

structure SmcGuard where
  enabled : Bool
  pageSize : U64
  pages : AList fun _ : U64 => List U64
  pending : List U64
  pendingPages : List U64

namespace SmcGuard

def new : SmcGuard where
  enabled := false
  pageSize := 4096
  pages := ∅
  pending := []
  pendingPages := []

variable (guard : SmcGuard)

def enable : SmcGuard :=
  { guard with enabled := true }

def pageBase (addr : U64) : U64 :=
  addr - addr % guard.pageSize

section Translate

def saturatingAdd (a b : U64) : U64 :=
  BitVec.ofNat 64 (min (a.toNat + b.toNat) (2 ^ 64 - 1))

-- A sorted list without repetitions stands for a `BTreeSet`.
def insertKey (key : U64) (keys : List U64) : List U64 :=
  if key ∈ keys then keys else keys.orderedInsert (fun a b => a.toNat ≤ b.toNat) key

def trackPage (page cacheKey : U64) : SmcGuard :=
  { guard with
    pages := guard.pages.insert page (insertKey cacheKey ((guard.pages.lookup page).getD [])) }

-- The loop, if it ends after at most that many rounds.
def trackPages (cacheKey endPage : U64) : Nat → U64 → SmcGuard → Option SmcGuard
  | 0, _, _ => none
  | rounds + 1, page, guard =>
    let guard := guard.trackPage page cacheKey
    if page = endPage then some guard
    else trackPages cacheKey endPage rounds (saturatingAdd page guard.pageSize) guard

-- A range has at most as many pages as bytes.
def onTranslate (addr : U64) (len : U32) (cacheKey : U64) : SmcGuard :=
  if !guard.enabled || len = 0 then guard
  else
    let startPage := guard.pageBase addr
    let lastAddr := saturatingAdd addr (len.setWidth 64 - 1)
    let endPage := guard.pageBase lastAddr
    (trackPages cacheKey endPage len.toNat startPage guard).getD guard

end Translate

section Fault

def pushPending (guard : SmcGuard) (key : U64) : SmcGuard :=
  if key ∈ guard.pending then guard else { guard with pending := guard.pending ++ [key] }

def invalidatePage (pageAddr : U64) : Bool × SmcGuard :=
  let page := guard.pageBase pageAddr
  match guard.pages.lookup page with
  | none => (false, guard)
  | some keys =>
    let guard := keys.foldl pushPending { guard with pages := guard.pages.erase page }
    (true,
      if page ∈ guard.pendingPages then guard
      else { guard with pendingPages := guard.pendingPages ++ [page] })

def handleFault (faultAddr : U64) : Bool × SmcGuard :=
  if guard.enabled then guard.invalidatePage faultAddr else (false, guard)

def drainPendingPages : List U64 × SmcGuard :=
  (guard.pendingPages, { guard with pendingPages := [] })

def isTracked (addr : U64) : Bool :=
  (guard.pages.lookup (guard.pageBase addr)).isSome

end Fault

end SmcGuard

-- The parts of the dispatcher's state that the installation of code changes.
structure Translations where
  cache : TranslationCache
  guard : SmcGuard

namespace Translations

-- A page size always fits into `usize`.
def applySmcInvalidations (s : Translations) : Nat × Translations :=
  let (pages, guard) := s.guard.drainPendingPages
  (pages.length,
    { cache := pages.foldl (·.invalidatePage · guard.pageSize.toNat) s.cache
      guard := guard })

def installTranslation (walk : EntryWalk) (guestAddr : U64) (guestBytes codeBytes : List U8)
    (s : Translations) : Option CacheKey × Translations :=
  if 2 ^ 32 ≤ guestBytes.length then (none, s)
  else if 2 ^ 32 ≤ codeBytes.length then (none, s)
  else
    let guestSize := BitVec.ofNat 32 guestBytes.length
    let contentHash := fnv1a64 guestBytes
    let key := (guestAddr, contentHash)
    let entry : CacheEntry :=
      { guestAddr
        guestSize
        codeSize := BitVec.ofNat 32 codeBytes.length
        codeBytes
        hitCount := 0
        lastUsed := 0 }
    (some key,
      { cache := s.cache.upsert walk key entry
        guard := s.guard.onTranslate guestAddr guestSize contentHash })

def handleFault (faultAddr : U64) (s : Translations) : Bool × Translations :=
  let (handled, guard) := s.guard.handleFault faultAddr
  (handled, { s with guard })

end Translations

end Prisma
