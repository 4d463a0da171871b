import Prisma.Cache.Theorems.Basic

-- What holds of the tables after any sequence of calls.

namespace Prisma.TranslationCache

open AList

-- Every entry knows its address, and every address that has a hash has an entry under it.
structure Consistent (entries : EntryTable) (addrToHash : AList fun _ : U64 => U64) : Prop where
  guestAddr : ∀ {key e}, entries.lookup key = some e → e.guestAddr = key.1
  stored : ∀ {addr h}, addrToHash.lookup addr = some h → (addr, h) ∈ entries

abbrev WellFormed (c : TranslationCache) : Prop :=
  Consistent c.entries c.addrToHash

variable {c c' : TranslationCache} {walk : EntryWalk} {key : CacheKey} {entry : CacheEntry}

theorem Consistent.insert {entries : EntryTable} {addrToHash : AList fun _ : U64 => U64}
    (hg : ∀ {key e}, entries.lookup key = some e → e.guestAddr = key.1)
    (hs : ∀ {addr h}, addr ≠ key.1 → addrToHash.lookup addr = some h → (addr, h) ∈ entries)
    (he : entry.guestAddr = key.1) :
    Consistent (entries.insert key entry) (addrToHash.insert key.1 key.2) where
  guestAddr {k e} hk := by
    rw [lookup_insert_eq_ite] at hk
    split at hk
    case isTrue hkey => cases hk; exact hkey ▸ he
    case isFalse => exact hg hk
  stored {addr h} ha := by
    rw [lookup_insert_eq_ite] at ha
    refine (mem_insert _).mpr ?_
    split at ha
    case isTrue haddr => cases ha; exact .inl (haddr ▸ rfl)
    case isFalse haddr => exact .inr (hs haddr ha)

theorem isLiveKey_iff : c.isLiveKey key = true ↔ c.addrToHash.lookup key.1 = some key.2 :=
  decide_eq_true_iff

namespace WellFormed

theorem new : WellFormed .new where
  guestAddr h := by cases h
  stored h := by cases h

theorem limits (h : WellFormed c) (maxEntries maxBytes : Nat) :
    WellFormed { c with maxEntries, maxBytes } :=
  ⟨h.guestAddr, h.stored⟩

section Eviction

theorem compact (h : WellFormed c) : WellFormed c.compact.1 where
  guestAddr hl := h.guestAddr ((Drops.compact c).lookup hl)
  stored {addr hash} hl := by
    rw [compact_addrToHash] at hl
    have hlive : c.isLiveKey (addr, hash) = true := isLiveKey_iff.mpr hl
    rw [← lookup_isSome, compact_lookup, if_pos hlive, lookup_isSome]
    exact h.stored hl

theorem evict (h : WellFormed c) (lru : CacheKey) : WellFormed (c.evict lru) where
  guestAddr hl := h.guestAddr ((Drops.evict c lru).lookup hl)
  stored {addr hash} hl := by
    have hs := h.stored ((Drops.evict c lru).lookup_addr hl)
    rw [evict_entries, mem_erase]
    refine ⟨fun he => ?_, hs⟩
    -- the address of the dropped entry has lost its hash
    subst he
    have ⟨e, he⟩ := Option.isSome_iff_exists.mp (lookup_isSome.mpr hs)
    have hc := (Drops.evict c (addr, hash)).lookup_addr hl
    have ha : e.guestAddr = addr := h.guestAddr he
    subst ha
    simp [TranslationCache.evict, he, hc] at hl

theorem maybeEvict (h : WellFormed c) (walk : EntryWalk) : WellFormed (c.maybeEvict walk) :=
  maybeEvict_induction h (fun _ h => h.compact) fun _ h lru _ => h.compact.evict lru

end Eviction

section Entries

theorem clear : WellFormed c.clear where
  guestAddr h := by cases h
  stored h := by cases h

theorem stamp (h : WellFormed c) (hl : c.entries.lookup key = some entry) :
    WellFormed (c.stamp key entry) where
  guestAddr {k e} hk := by
    have hg := h.guestAddr hl
    rw [TranslationCache.stamp, lookup_insert_eq_ite] at hk
    split at hk
    case isTrue hkey => cases hk; exact hkey ▸ hg
    case isFalse => exact h.guestAddr hk
  stored ha := (mem_insert _).mpr (.inr (h.stored ha))

theorem store (h : WellFormed c) : WellFormed (c.store key entry) :=
  Consistent.insert h.guestAddr (fun _ => h.stored) rfl

theorem insert (h : WellFormed c) : WellFormed (c.insert walk key entry).2 := by
  unfold TranslationCache.insert
  split
  case isTrue => exact h
  case isFalse => exact h.store.maybeEvict walk

theorem mem_dropPrevious (ha : addr ≠ key.1) (hs : (addr, h) ∈ c.entries) :
    (addr, h) ∈ (c.dropPrevious key).entries := by
  unfold dropPrevious
  split
  case h_1 => exact hs
  case h_2 =>
    split
    case isTrue => exact mem_erase.mpr ⟨fun he => ha (congrArg Prod.fst he), hs⟩
    case isFalse => exact hs

variable (h : WellFormed c)

include h

theorem dropPrevious_store :
    WellFormed ((c.dropPrevious key).store key entry) := by
  have hd := Drops.dropPrevious c key
  refine Consistent.insert (fun hl => h.guestAddr (hd.lookup hl)) (fun haddr hl => ?_) rfl
  exact mem_dropPrevious haddr (h.stored (hd.lookup_addr hl))

theorem upsert : WellFormed (c.upsert walk key entry) :=
  h.dropPrevious_store.maybeEvict walk

theorem lookup (guestAddr : U64) (guestBytes : List U8) :
    WellFormed (c.lookup guestAddr guestBytes).2 := by
  obtain ⟨_, hs⟩ | ⟨e, he, _, hs⟩ := c.lookup_cases guestAddr guestBytes <;> rw [hs]
  case inl => exact h
  case inr => exact h.stamp he

theorem touch : WellFormed (c.touch key).2 := by
  obtain hs | ⟨e, he, hs⟩ := c.touch_cases key <;> rw [hs]
  case inl => exact h
  case inr => exact h.stamp he

theorem resetHitCounts : WellFormed c.resetHitCounts where
  guestAddr {key e} hl := by
    rw [TranslationCache.resetHitCounts, lookup_map] at hl
    have ⟨e', hl, he⟩ := Option.map_eq_some_iff.mp hl
    have hg := h.guestAddr hl
    exact he ▸ hg
  stored ha := by
    rw [TranslationCache.resetHitCounts, ← lookup_isSome, lookup_map,
      Option.isSome_map, lookup_isSome]
    exact h.stored ha

end Entries

section Removal

theorem invalidate (h : WellFormed c) : WellFormed (c.invalidate key) where
  guestAddr hl := h.guestAddr ((Drops.invalidate c key).lookup hl)
  stored {addr hash} hl := by
    have hs := h.stored ((Drops.invalidate c key).lookup_addr hl)
    rw [invalidate_addrToHash, lookup_erase_eq_ite] at hl
    split at hl
    case isTrue => cases hl
    case isFalse ha =>
      rw [← lookup_isSome, invalidate_lookup, if_neg, lookup_isSome]
      case hnc => exact fun h => ha (h.elim (congrArg Prod.fst) And.left)
      exact hs

theorem dropAddress (h : WellFormed c) (addr : U64) : WellFormed (c.dropAddress addr) where
  guestAddr hl := h.guestAddr ((Drops.dropAddress c addr).lookup hl)
  stored {a hash} hl := by
    have hs := h.stored ((Drops.dropAddress c addr).lookup_addr hl)
    rw [dropAddress_addrToHash, lookup_erase_eq_ite] at hl
    split at hl
    case isTrue => cases hl
    case isFalse ha =>
      rw [← lookup_isSome, dropAddress_lookup, if_neg fun h => ha h.left, lookup_isSome]
      exact hs

theorem invalidatePage (h : WellFormed c) (pageAddr : U64) (pageSize : Nat) :
    WellFormed (c.invalidatePage pageAddr pageSize) :=
  List.foldlRecOn _ _ h fun _ h _ _ => h.dropAddress _

end Removal

end WellFormed

end Prisma.TranslationCache
