import Prisma.Cache.Theorems.WellFormed

-- What a lookup finds.

namespace Prisma.TranslationCache

open Option AList List

variable {zstd : Zstd} {walk : EntryWalk} {c c' : TranslationCache} {key : CacheKey}
  {entry e : CacheEntry} {addr : U64} {bytes : List U8}

section Hit

theorem lookup_hit (h : (c.lookup addr bytes).1 = .hit e) :
    c.addrToHash.lookup addr = some (fnv1a64 bytes) ∧
      ∃ e₀, c.entries.lookup (addr, fnv1a64 bytes) = some e₀ ∧
        e = { e₀ with hitCount := saturatingSucc e₀.hitCount, lastUsed := c.nextTick } := by
  obtain ⟨_, hl⟩ | ⟨e₀, he₀, ha, hl⟩ := c.lookup_cases addr bytes <;> rw [hl] at h
  case inl => cases h
  case inr =>
    cases h
    exact ⟨ha, e₀, he₀, rfl⟩

theorem lookup_hits_iff : (∃ e, (c.lookup addr bytes).1 = .hit e) ↔
    c.isLiveKey (addr, fnv1a64 bytes) ∧ c.containsKey (addr, fnv1a64 bytes) := by
  constructor
  case mp =>
    rintro ⟨e, h⟩
    have ⟨ha, e₀, he, _⟩ := lookup_hit h
    exact ⟨isLiveKey_iff.mpr ha, isSome_of_eq_some he⟩
  case mpr =>
    rintro ⟨hl, hc⟩
    have ha : c.addrToHash.lookup addr = some (fnv1a64 bytes) := isLiveKey_iff.mp hl
    have ⟨e, he⟩ := isSome_iff_exists.mp hc
    simp [lookup, ha, he]

theorem lookup_miss (h : (c.lookup addr bytes).1 = .miss reason) : (c.lookup addr bytes).2 = c := by
  obtain ⟨_, hl⟩ | ⟨e₀, _, _, hl⟩ := c.lookup_cases addr bytes <;> rw [hl] at h ⊢
  case inr => cases h

end Hit

section Insert

theorem maybeEvict_of_fits (h : c.overLimits = false) : c.maybeEvict walk = c := by
  unfold maybeEvict
  cases c.entries.size with
  | zero => rfl
  | succ rounds => simp [maybeEvictLoop, h]

theorem store_hits (hb : key = (addr, fnv1a64 bytes)) :
    ∃ e, ((c.store key entry).lookup addr bytes).1 = .hit e := by
  subst hb
  rw [lookup_hits_iff, isLiveKey_iff]
  exact ⟨lookup_insert _, isSome_of_eq_some (lookup_insert _)⟩

-- A translation that is inserted after a miss is found unless it was superseded before and is still
-- stored.
theorem lookup_insert_hits_iff (hentries : c.maxEntries = 0) (hbytes : c.maxBytes = 0)
    {reason : MissReason} (hmiss : (c.lookup addr bytes).1 = .miss reason) :
    (∃ e, (((c.lookup addr bytes).2.insert walk (addr, fnv1a64 bytes) entry).2.lookup addr bytes).1 =
        .hit e) ↔
      c.containsKey (addr, fnv1a64 bytes) = false := by
  rw [lookup_miss hmiss]
  unfold insert
  split
  case isTrue hc =>
    refine ⟨fun ⟨e, he⟩ => ?_, fun h => absurd (hc.symm.trans h) nofun⟩
    cases hmiss.symm.trans he
  case isFalse hc =>
    have hf : (c.store (addr, fnv1a64 bytes) entry).overLimits = false :=
      overLimits_eq_false.mpr ⟨absurd hentries, absurd hbytes⟩
    rw [maybeEvict_of_fits hf]
    exact ⟨fun _ => Bool.eq_false_iff.mpr hc, fun _ => store_hits rfl⟩

theorem lookup_insert_hits_iff_new :
    ∃ e, ((TranslationCache.new.insert .stored (0x1000, fnv1a64 [0xC3])
      ⟨0x1000, 1, 1, [0xAA], 0, 0⟩).2.lookup 0x1000 [0xC3]).1 = .hit e :=
  (@lookup_insert_hits_iff .stored .new ⟨0x1000, 1, 1, [0xAA], 0, 0⟩ 0x1000 [0xC3] rfl rfl _ rfl).mpr
    rfl

-- The code of an address changes and changes back.
def alternated : TranslationCache :=
  ((TranslationCache.new.insert .stored (0x1000, fnv1a64 [0xC3]) ⟨0x1000, 1, 1, [0xAA], 0, 0⟩).2.insert
    .stored (0x1000, fnv1a64 [0x90]) ⟨0x1000, 1, 1, [0xBB], 0, 0⟩).2

theorem not_lookup_insert_hits : ¬∀ (zstd : Zstd) (c : TranslationCache),
    Reachable zstd (fun _ _ => True) c → c.maxEntries = 0 → c.maxBytes = 0 →
    ∀ (walk : EntryWalk) (addr : U64) (bytes : List U8) (entry : CacheEntry) (reason : MissReason),
      (c.lookup addr bytes).1 = .miss reason →
      ∃ e, (((c.lookup addr bytes).2.insert walk (addr, fnv1a64 bytes) entry).2.lookup addr bytes).1 =
        .hit e := by
  intro h
  let zstd : Zstd := ⟨fun _ _ => none, fun _ => none, nofun⟩
  let first := CacheCall.apply zstd .stored .new
    (.insert (0x1000, fnv1a64 [0xC3]) ⟨0x1000, 1, 1, [0xAA], 0, 0⟩)
  have h₁ : Reachable zstd (fun _ _ => True) first := .call .new trivial .stored
  have h₂ : Reachable zstd (fun _ _ => True) (CacheCall.apply zstd .stored first
      (.insert (0x1000, fnv1a64 [0x90]) ⟨0x1000, 1, 1, [0xBB], 0, 0⟩)) :=
    .call h₁ trivial .stored
  have ⟨e, he⟩ := h zstd _ h₂ rfl rfl .stored 0x1000 [0xC3] ⟨0x1000, 1, 1, [0xAA], 0, 0⟩
    .staleContent (by decide +kernel)
  have hm : ((alternated.insert .stored (0x1000, fnv1a64 [0xC3])
      ⟨0x1000, 1, 1, [0xAA], 0, 0⟩).2.lookup 0x1000 [0xC3]).1 = .miss .staleContent := by
    decide +kernel
  cases hm.symm.trans he

end Insert

section History

-- What happens to the translations of an address.
inductive Event
  | stored (key : CacheKey) (entry : CacheEntry)
  | invalidated (key : CacheKey)
  | invalidatedPage (pageAddr : U64) (pageSize : Nat)

-- The addresses that an event is about. A page counts if it ends within the address space.
def Event.Concerns (addr : U64) : Event → Prop
  | .stored key _ => key.1 = addr
  | .invalidated key => key.1 = addr
  | .invalidatedPage pageAddr pageSize =>
    pageAddr.toNat ≤ addr.toNat ∧ addr.toNat < pageAddr.toNat + pageSize ∧
      pageAddr.toNat + pageSize < 2 ^ 64

-- An insertion stores the entry if it returns true.
def events (walk : EntryWalk) (c : TranslationCache) : CacheCall → List Event
  | .insert key entry => if (c.insert walk key entry).1 then [.stored key entry] else []
  | .upsert key entry => [.stored key entry]
  | .invalidate key => [.invalidated key]
  | .invalidatePage pageAddr pageSize => [.invalidatedPage pageAddr pageSize]
  | _ => []

-- The cache together with what happened so far, the latest event first. No file was loaded.
inductive Logged (zstd : Zstd) : TranslationCache → List Event → Prop
  | new : Logged zstd .new []
  | call {c : TranslationCache} {log : List Event} {call : CacheCall} (h : Logged zstd c log)
    (hc : ∀ file, call ≠ .loadFromFile file) (walk : EntryWalk) :
    Logged zstd (call.apply zstd walk c) (events walk c call ++ log)

-- The entry is what was last stored for the address, up to the fields that its uses change. Nothing
-- happened to the address since.
def Latest (log : List Event) (key : CacheKey) (e : CacheEntry) : Prop :=
  ∃ newer stored older, log = newer ++ .stored key stored :: older ∧
    (∀ event ∈ newer, ¬event.Concerns key.1) ∧
    e = { stored with guestAddr := key.1, hitCount := e.hitCount, lastUsed := e.lastUsed }

variable {log new : List Event}

theorem Latest.append (h : Latest log key e) (hn : ∀ event ∈ new, ¬event.Concerns key.1) :
    Latest (new ++ log) key e := by
  obtain ⟨newer, stored, older, rfl, hnewer, he⟩ := h
  refine ⟨new ++ newer, stored, older, by rw [append_assoc], fun event hm => ?_, he⟩
  exact (mem_append.mp hm).elim (hn event) (hnewer event)

theorem Latest.used (h : Latest log key e) : Latest log key { e with hitCount, lastUsed } := by
  obtain ⟨newer, stored, older, hlog, hnewer, he⟩ := h
  exact ⟨newer, stored, older, hlog, hnewer, by rw [he]⟩

def Tracks (c : TranslationCache) (log : List Event) : Prop :=
  ∀ addr h e, c.addrToHash.lookup addr = some h → c.entries.lookup (addr, h) = some e →
    Latest log (addr, h) e

namespace Tracks

variable (h : Tracks c log)

include h

theorem drops (hd : Drops c c') : Tracks c' log :=
  fun _ _ _ ha he => h _ _ _ (hd.lookup_addr ha) (hd.lookup he)

theorem append (hd : Drops c c')
    (hn : ∀ addr ∈ c'.addrToHash, ∀ event ∈ new, ¬event.Concerns addr) :
    Tracks c' (new ++ log) := by
  intro addr hash e ha he
  have hm : addr ∈ c'.addrToHash := lookup_isSome.mp (isSome_of_eq_some ha)
  exact (h.drops hd addr hash e ha he).append (hn addr hm)

theorem stamp (hl : c.entries.lookup key = some entry) :
    Tracks (c.stamp key entry) log := by
  intro addr hash e ha he
  rw [TranslationCache.stamp, lookup_insert_eq_ite] at he
  split at he
  case isTrue hkey =>
    subst hkey
    cases he
    exact (h addr hash entry ha hl).used
  case isFalse => exact h addr hash e ha he

theorem resetHitCounts : Tracks c.resetHitCounts log := by
  intro addr hash e ha he
  rw [TranslationCache.resetHitCounts, lookup_map] at he
  obtain ⟨e₀, he₀, he⟩ := map_eq_some_iff.mp he
  subst he
  exact (h addr hash e₀ ha he₀).used

theorem store : Tracks (c.store key entry) (.stored key entry :: log) := by
  intro addr hash e ha he
  rw [TranslationCache.store, lookup_insert_eq_ite] at ha he
  split at ha
  case isTrue haddr =>
    cases ha
    subst haddr
    rw [if_pos rfl] at he
    cases he
    exact ⟨[], entry, log, rfl, nofun, rfl⟩
  case isFalse haddr =>
    rw [if_neg fun hkey => haddr (congrArg Prod.fst hkey)] at he
    have hnew : ∀ event ∈ [Event.stored key entry], ¬event.Concerns addr := by
      intro event hm hc
      cases mem_singleton.mp hm
      exact haddr hc.symm
    exact (h addr hash e ha he).append hnew

theorem invalidate : Tracks (c.invalidate key) ([.invalidated key] ++ log) := by
  refine h.append (.invalidate c key) fun addr ha event hm hc => ?_
  cases mem_singleton.mp hm
  rw [invalidate_addrToHash, mem_erase] at ha
  exact ha.left hc.symm

theorem invalidatePage (pageAddr : U64) (pageSize : Nat) :
    Tracks (c.invalidatePage pageAddr pageSize)
      ([.invalidatedPage pageAddr pageSize] ++ log) := by
  refine h.append (.invalidatePage c pageAddr pageSize) fun addr ha event hm hc => ?_
  cases mem_singleton.mp hm
  have ⟨hle, hlt, hend⟩ := hc
  have hp : inPage pageAddr pageSize addr = true := by
    simp only [inPage, Bool.and_eq_true, decide_eq_true_eq]
    omega
  rw [← lookup_isSome, invalidatePage_addrToHash, if_pos hp] at ha
  cases ha

theorem withLimits {maxEntries maxBytes : Nat} :
    Tracks ({ c with maxEntries, maxBytes }.maybeEvict walk) log := by
  have h' : Tracks { c with maxEntries, maxBytes } log := h
  exact h'.drops (.maybeEvict _ walk)

theorem insert :
    Tracks (c.insert walk key entry).2 (events walk c (.insert key entry) ++ log) := by
  change Tracks (c.insert walk key entry).2
    ((if (c.insert walk key entry).1 then [.stored key entry] else []) ++ log)
  unfold TranslationCache.insert
  split
  case isTrue => exact h
  case isFalse => exact h.store.drops (.maybeEvict _ walk)

theorem lookup : Tracks (c.lookup addr bytes).2 log := by
  obtain ⟨_, hs⟩ | ⟨e, he, _, hs⟩ := c.lookup_cases addr bytes <;> rw [hs]
  case inl => exact h
  case inr => exact h.stamp he

theorem touch : Tracks (c.touch key).2 log := by
  obtain hs | ⟨e, he, hs⟩ := c.touch_cases key <;> rw [hs]
  case inl => exact h
  case inr => exact h.stamp he

theorem apply (hc : ∀ file, call ≠ .loadFromFile file) :
    Tracks (call.apply zstd walk c) (events walk c call ++ log) := by
  cases call with
  | setMaxEntries | setMaxBytes | setLimits => exact h.withLimits
  | clear => exact fun _ _ _ ha => by cases ha
  | lookup => exact h.lookup
  | insert => exact h.insert
  | upsert => exact (h.drops (.dropPrevious c _)).store.drops (.maybeEvict _ walk)
  | invalidate => exact h.invalidate
  | touch => exact h.touch
  | invalidatePage pageAddr pageSize => exact h.invalidatePage pageAddr pageSize
  | resetHitCounts => exact h.resetHitCounts
  | compact => exact h.drops (.compact c)
  | setCompressOnSave => exact h
  | loadFromFile file => exact absurd rfl (hc file)

end Tracks

theorem Logged.tracks (h : Logged zstd c log) : Tracks c log := by
  induction h with
  | new => exact fun _ _ _ ha => by cases ha
  | call _ hc walk hi => exact hi.apply hc

-- A hit returns what was stored last for the address, under the hash of the bytes.
theorem lookup_latest (h : Logged zstd c log) (hl : (c.lookup addr bytes).1 = .hit e) :
    Latest log (addr, fnv1a64 bytes) e := by
  have ⟨ha, e₀, he₀, he⟩ := lookup_hit hl
  subst he
  exact (h.tracks _ _ _ ha he₀).used

theorem lookup_latest_page :
    Latest [.invalidatedPage 0x2000 0x1000,
        .stored (0x1000, fnv1a64 [0xC3]) ⟨0x1000, 1, 1, [0xAA], 0, 0⟩]
      (0x1000, fnv1a64 [0xC3]) ⟨0x1000, 1, 1, [0xAA], 1, 2⟩ := by
  let zstd : Zstd := ⟨fun _ _ => none, fun _ => none, nofun⟩
  let c := CacheCall.apply zstd .stored .new
    (.upsert (0x1000, fnv1a64 [0xC3]) ⟨0x1000, 1, 1, [0xAA], 0, 0⟩)
  have h₁ : Logged zstd c [.stored (0x1000, fnv1a64 [0xC3]) ⟨0x1000, 1, 1, [0xAA], 0, 0⟩] :=
    Logged.call .new (fun _ => CacheCall.noConfusion) .stored
  have h₂ : Logged zstd (CacheCall.apply zstd .stored c (.invalidatePage 0x2000 0x1000)) _ :=
    .call h₁ (fun _ => CacheCall.noConfusion) .stored
  exact lookup_latest h₂ (by decide +kernel)

end History

end Prisma.TranslationCache
