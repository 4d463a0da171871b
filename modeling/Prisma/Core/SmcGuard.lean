import Prisma.Lib.Calls
import Prisma.Lib.Pages
import Prisma.Lib.Table
import Prisma.IR.Basic

-- The page guard of the C++ core against self-modifying code. A guest page with translations is
-- write-protected on the host; a write to it leaves a tombstone that is drained later.

namespace Prisma.Core

-- Cache keys with translations that overlap the page. A dead page waits for the next drain.
structure PageEntry where
  keys : List U64
  dead : Bool
deriving DecidableEq, Repr

-- `writeProtected` are the host addresses that `mprotect` has made read-only.
structure SmcGuard where
  protectedPages : AList fun _ : U64 => PageEntry
  pending : List U64
  pendingOverflow : Bool
  writeProtected : U64 → Bool

namespace SmcGuard

def guestPageSize : U64 :=
  4096

def pendingCap : Nat :=
  256

def pageBase (addr : U64) : U64 :=
  Pages.base guestPageSize addr

def new : SmcGuard where
  protectedPages := ∅
  pending := []
  pendingOverflow := false
  writeProtected := fun _ => false

variable (hostPageSize : U64)

-- The host page of an address.
def hostPage (addr : U64) : U64 :=
  Pages.base hostPageSize addr

-- The call of `mprotect` succeeds.
def protectPage (pageAddr : U64) (writable : Bool) (guard : SmcGuard) : SmcGuard :=
  let base := hostPage hostPageSize pageAddr
  let len := Pages.base hostPageSize (guestPageSize + (hostPageSize - 1))
  { guard with
    writeProtected := fun addr =>
      if addr - base < len then !writable else guard.writeProtected addr }

section Translate

-- The body of the loop over the pages of a translation. A faulted page starts afresh.
def trackPage (cacheKey : U64) (guard : SmcGuard) (page : U64) : SmcGuard :=
  let entry := (guard.protectedPages.lookup page).getD ⟨[], false⟩
  let entry := if entry.dead then ⟨[], false⟩ else entry
  let firstKey := entry.keys.isEmpty
  let keys := if cacheKey ∈ entry.keys then entry.keys else entry.keys ++ [cacheKey]
  let guard :=
    { guard with protectedPages := guard.protectedPages.insert page { entry with keys } }
  if firstKey then guard.protectPage hostPageSize page false else guard

-- The pages that the loop visits from `page` on, if it ends within the rounds.
def pagesUpTo (last : U64) : Nat → U64 → Option (List U64)
  | 0, _ => none
  | rounds + 1, page =>
    if page ≤ last then (pagesUpTo last rounds (page + guestPageSize)).map (page :: ·)
    else some []

def lastPage (guestPc guestByteLen : U64) : U64 :=
  if guestByteLen = 0 then pageBase guestPc else pageBase (guestPc + guestByteLen - 1)

-- The loop does not end if it reaches the last page of the address space, since the page wraps to
-- zero then. Otherwise the rounds suffice.
def onTranslate (guestPc guestByteLen cacheKey : U64) (guard : SmcGuard) : Option SmcGuard :=
  let first := pageBase guestPc
  let last := lastPage guestPc guestByteLen
  let rounds := (last.toNat - first.toNat) / 4096 + 2
  (pagesUpTo last rounds first).map (·.foldl (trackPage hostPageSize cacheKey) guard)

end Translate

section Invalidate

-- The body of the loop over the tracked pages.
def invalidatePage (cacheKey : U64) (guard : SmcGuard) (page : U64) : SmcGuard :=
  match guard.protectedPages.lookup page with
  | none => guard
  | some entry =>
    if entry.dead then guard
    else
      let keys := entry.keys.filter (· ≠ cacheKey)
      if keys.isEmpty then
        let guard := guard.protectPage hostPageSize page true
        { guard with protectedPages := guard.protectedPages.erase page }
      else
        { guard with protectedPages := guard.protectedPages.insert page { entry with keys } }

def onInvalidate (cacheKey : U64) (guard : SmcGuard) : SmcGuard :=
  guard.protectedPages.keys.foldl (invalidatePage hostPageSize cacheKey) guard

end Invalidate

section Fault

def pushPending (page : U64) (guard : SmcGuard) : SmcGuard :=
  if guard.pending.length < pendingCap then { guard with pending := guard.pending ++ [page] }
  else { guard with pendingOverflow := true }

def handleFault (faultAddr : U64) (guard : SmcGuard) : Bool × SmcGuard :=
  let page := pageBase faultAddr
  match guard.protectedPages.lookup page with
  | none => (false, guard)
  | some entry =>
    if entry.dead then (false, guard)
    else
      let guard :=
        { guard with
          protectedPages := guard.protectedPages.insert page { entry with dead := true } }
      (true, (guard.pushPending page).protectPage hostPageSize page true)

end Fault

section Drain

structure Drain where
  guard : SmcGuard
  victims : List U64
  drained : Nat

def reap (drain : Drain) (page : U64) : Drain :=
  match drain.guard.protectedPages.lookup page with
  | none => drain
  | some entry =>
    if entry.dead then
      { guard :=
          { drain.guard with protectedPages := drain.guard.protectedPages.erase page }
        victims := drain.victims ++ entry.keys
        drained := drain.drained + 1 }
    else drain

-- The victims are handed to the callback one after the other. If the ring of pending pages has
-- overflowed, then all pages are searched for tombstones.
def drainPending (guard : SmcGuard) : Drain :=
  if guard.pending = [] ∧ ¬guard.pendingOverflow then ⟨guard, [], 0⟩
  else
    let pages := if guard.pendingOverflow then guard.protectedPages.keys else guard.pending
    let drain := pages.foldl reap ⟨guard, [], 0⟩
    { drain with guard := { drain.guard with pending := [], pendingOverflow := false } }

end Drain

-- Each call holds the lock of the guard.
inductive Call
  | onTranslate (guestPc guestByteLen cacheKey : U64)
  | onInvalidate (cacheKey : U64)
  | handleFault (faultAddr : U64)
  | drainPending
deriving DecidableEq, Repr

def step : Call → SmcGuard → Option SmcGuard
  | .onTranslate guestPc guestByteLen cacheKey, guard =>
    guard.onTranslate hostPageSize guestPc guestByteLen cacheKey
  | .onInvalidate cacheKey, guard => guard.onInvalidate hostPageSize cacheKey
  | .handleFault faultAddr, guard => (guard.handleFault hostPageSize faultAddr).2
  | .drainPending, guard => guard.drainPending.guard

end Prisma.Core.SmcGuard
