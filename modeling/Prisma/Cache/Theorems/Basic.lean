import Prisma.Cache.Calls

-- What the operations of the cache do to its tables.

namespace Prisma.TranslationCache

open List AList Option

theorem overLimits_eq_false {c : TranslationCache} : c.overLimits = false ↔
    (c.maxEntries ≠ 0 → c.entries.size ≤ c.maxEntries) ∧
      (c.maxBytes ≠ 0 → c.totalCodeBytes ≤ c.maxBytes) := by
  simp only [overLimits, decide_eq_false_iff_not, not_or, not_and, Nat.not_lt]

theorem overLimits_of_size {c : TranslationCache} (h : c.entries.size = 0) :
    c.overLimits = false := by
  have hw : c.totalCodeBytes = 0 := by
    rw [totalCodeBytes, AList.weight, eq_nil_of_length_eq_zero h]
    rfl
  simp only [overLimits_eq_false, h, hw, Nat.zero_le, implies_true, and_self]

-- The entries that are not superseded.
def live (c : TranslationCache) : EntryTable :=
  c.entries.filterKeys c.isLiveKey

theorem live_lookup {c : TranslationCache} :
    c.live.lookup key = if c.isLiveKey key then c.entries.lookup key else none :=
  lookup_filterKeys _

theorem live_lookup_eq_some {c : TranslationCache} :
    c.live.lookup key = some e ↔ c.isLiveKey key ∧ c.entries.lookup key = some e := by
  rw [live_lookup, ite_none_right_eq_some]

-- Nothing is added to the tables and the limits stay.
structure Drops (c c' : TranslationCache) : Prop where
  entries : c'.entries.entries.Sublist c.entries.entries
  addrToHash : c'.addrToHash.entries.Sublist c.addrToHash.entries
  maxEntries : c'.maxEntries = c.maxEntries
  maxBytes : c'.maxBytes = c.maxBytes

namespace Drops

variable {c c' c'' : TranslationCache} {key : CacheKey} {e : CacheEntry} {addr h : U64}

theorem refl (c : TranslationCache) : Drops c c :=
  ⟨.refl _, .refl _, rfl, rfl⟩

theorem trans (h : Drops c c') (h' : Drops c' c'') : Drops c c'' where
  entries := h'.entries.trans h.entries
  addrToHash := h'.addrToHash.trans h.addrToHash
  maxEntries := h'.maxEntries.trans h.maxEntries
  maxBytes := h'.maxBytes.trans h.maxBytes

theorem lookup (hd : Drops c c') (hl : c'.entries.lookup key = some e) :
    c.entries.lookup key = some e :=
  lookup_eq_some.mpr (hd.entries.subset (lookup_eq_some.mp hl))

theorem lookup_addr (hd : Drops c c') (hl : c'.addrToHash.lookup addr = some h) :
    c.addrToHash.lookup addr = some h :=
  lookup_eq_some.mpr (hd.addrToHash.subset (lookup_eq_some.mp hl))

theorem mem (hd : Drops c c') (hm : key ∈ c'.entries) : key ∈ c.entries :=
  (hd.entries.map Sigma.fst).subset hm

theorem live (hd : Drops c c') (hl : c'.live.lookup key = some e) : c.live.lookup key = some e := by
  have ⟨hk, he⟩ := live_lookup_eq_some.mp hl
  exact live_lookup_eq_some.mpr
    ⟨decide_eq_true (hd.lookup_addr (of_decide_eq_true hk)), hd.lookup he⟩

theorem fits (hd : Drops c c') (hf : c.overLimits = false) : c'.overLimits = false := by
  have hs := hd.entries.length_le
  have hw : c'.totalCodeBytes ≤ c.totalCodeBytes := weight_le_of_sublist hd.entries
  have ⟨he, hb⟩ := overLimits_eq_false.mp hf
  rw [overLimits_eq_false, hd.maxEntries, hd.maxBytes]
  exact ⟨fun h => hs.trans (he h), fun h => hw.trans (hb h)⟩

theorem erase (c : TranslationCache) (key : CacheKey) :
    Drops c { c with entries := c.entries.erase key } :=
  ⟨kerase_sublist .., .refl _, rfl, rfl⟩

theorem foldl {α : Type} {f : TranslationCache → α → TranslationCache}
    (hf : ∀ c a, Drops c (f c a)) (as : List α) (c : TranslationCache) :
    Drops c (as.foldl f c) := by
  induction as generalizing c with
  | nil => exact .refl c
  | cons a as hi => exact (hf c a).trans (hi (f c a))

end Drops

section Compact

variable {c : TranslationCache} {key : CacheKey} {e : CacheEntry}

theorem compactKey_fst (state : TranslationCache × Nat) (key : CacheKey) :
    (compactKey state key).1 =
      { state.1 with
        entries := if state.1.isLiveKey key then state.1.entries else state.1.entries.erase key } := by
  unfold compactKey
  split <;> rfl

theorem foldl_compactKey (keys : List CacheKey) (state : TranslationCache × Nat) :
    ∃ entries, (keys.foldl compactKey state).1 = { state.1 with entries } ∧
      entries.entries.Sublist state.1.entries.entries ∧
      ∀ key, entries.lookup key =
        if key ∈ keys ∧ ¬state.1.isLiveKey key then none else state.1.entries.lookup key := by
  induction keys generalizing state with
  | nil => exact ⟨state.1.entries, rfl, .refl _, by simp⟩
  | cons k keys hi =>
    have ⟨entries, he, hs, hl⟩ := hi (compactKey state k)
    rw [compactKey_fst] at he hs hl
    refine ⟨entries, he, hs.trans ?_, fun key => (hl key).trans ?_⟩
    case refine_1 => split; exacts [.refl _, kerase_sublist ..]
    case refine_2 =>
      have : isLiveKey { state.1 with
        entries := if state.1.isLiveKey k then state.1.entries else state.1.entries.erase k } key =
          state.1.isLiveKey key := rfl
      grind [lookup_erase_eq_ite]

theorem compact_eq (c : TranslationCache) :
    ∃ entries, c.compact.1 = { c with entries } ∧ entries.entries.Sublist c.entries.entries ∧
      ∀ key, entries.lookup key = if c.isLiveKey key then c.entries.lookup key else none := by
  have ⟨entries, he, hs, hl⟩ := foldl_compactKey c.entries.keys (c, 0)
  refine ⟨entries, he, hs, fun key => (hl key).trans ?_⟩
  by_cases hm : key ∈ c.entries.keys
  case pos => by_cases h : c.isLiveKey key <;> simp [hm, h]
  case neg => simp [hm, lookup_eq_none.mpr hm]

theorem Drops.compact (c : TranslationCache) : Drops c c.compact.1 := by
  have ⟨entries, he, hs, _⟩ := compact_eq c
  rw [he]
  exact ⟨hs, .refl _, rfl, rfl⟩

theorem compact_addrToHash : c.compact.1.addrToHash = c.addrToHash := by
  have ⟨entries, he, _, _⟩ := compact_eq c
  rw [he]

theorem compact_lookup : c.compact.1.entries.lookup key =
    if c.isLiveKey key then c.entries.lookup key else none := by
  have ⟨entries, he, _, hl⟩ := compact_eq c
  rw [he]
  exact hl key

end Compact

section Evict

variable {c : TranslationCache} {walk : EntryWalk} {key lru : CacheKey} {e : CacheEntry}

theorem Drops.evict (c : TranslationCache) (lru : CacheKey) : Drops c (c.evict lru) := by
  unfold TranslationCache.evict
  split
  case h_1 => exact .refl c
  case h_2 =>
    refine ⟨kerase_sublist .., ?_, rfl, rfl⟩
    split
    case isTrue => exact kerase_sublist ..
    case isFalse => exact .refl _

theorem evict_entries : (c.evict lru).entries = c.entries.erase lru := by
  unfold evict
  split
  case h_1 h => exact (erase_of_notMem (lookup_eq_none.mp h)).symm
  case h_2 => rfl

theorem leastRecent_eq_some (h : c.leastRecent walk = some lru) :
    ∃ e, c.entries.lookup lru = some e ∧
      ∀ key e', c.entries.lookup key = some e' → e.lastUsed ≤ e'.lastUsed := by
  have ⟨⟨k, e⟩, hm, hk⟩ := map_eq_some_iff.mp h
  cases hk
  refine ⟨e, lookup_eq_some.mpr (walk.mem_order.mp (argmin_mem hm)), fun key e' hl => ?_⟩
  have hl := walk.mem_order.mpr (lookup_eq_some.mp hl)
  exact le_of_mem_argmin (f := fun s : Σ _ : CacheKey, CacheEntry => s.2.lastUsed) hl hm

theorem leastRecent_eq_none (h : c.leastRecent walk = none) : c.entries.size = 0 := by
  have h := argmin_eq_none.mp (map_eq_none_iff.mp h)
  exact (walk.perm c.entries.entries).length_eq.symm.trans (congrArg List.length h)

theorem maybeEvictLoop_induction {P : TranslationCache → Prop}
    (hc : ∀ c, P c → P c.compact.1)
    (he : ∀ c, P c → ∀ lru, c.compact.1.leastRecent walk = some lru → P (c.compact.1.evict lru))
    (rounds : Nat) (h : P c) : P (maybeEvictLoop walk rounds c) := by
  induction rounds generalizing c with
  | zero => exact h
  | succ rounds hi =>
    unfold maybeEvictLoop
    split
    case isTrue => exact h
    case isFalse =>
      dsimp only
      split
      case isTrue => exact hc c h
      case isFalse =>
        split
        case h_1 lru hl => exact hi (he c h lru hl)
        case h_2 => exact hc c h

theorem maybeEvict_induction {P : TranslationCache → Prop} (h : P c)
    (hc : ∀ c, P c → P c.compact.1)
    (he : ∀ c, P c → ∀ lru, c.compact.1.leastRecent walk = some lru → P (c.compact.1.evict lru)) :
    P (c.maybeEvict walk) :=
  maybeEvictLoop_induction hc he c.entries.size h

theorem Drops.maybeEvict (c : TranslationCache) (walk : EntryWalk) : Drops c (c.maybeEvict walk) :=
  maybeEvict_induction (.refl c) (fun c' h => h.trans (.compact c'))
    fun c' h lru _ => (h.trans (.compact c')).trans (.evict _ lru)

theorem maybeEvictLoop_fits (h : c.entries.size ≤ rounds) :
    (maybeEvictLoop walk rounds c).overLimits = false := by
  induction rounds generalizing c with
  | zero => exact overLimits_of_size (Nat.le_zero.mp h)
  | succ rounds hi =>
    unfold maybeEvictLoop
    split
    case isTrue hf => simpa using hf
    case isFalse =>
      dsimp only
      split
      case isTrue hf => exact (by simpa using hf : _ ∧ _).2
      case isFalse =>
        split
        case h_1 lru hl =>
          have ⟨e, he, _⟩ := leastRecent_eq_some hl
          have hs := (Drops.compact c).entries.length_le
          have hm := size_erase_of_mem (lookup_isSome.mp (isSome_of_eq_some he))
          refine hi ?_
          rw [evict_entries]
          simp only [AList.size] at hs hm h ⊢
          omega
        case h_2 hn => exact overLimits_of_size (leastRecent_eq_none hn)

theorem maybeEvict_fits : (c.maybeEvict walk).overLimits = false :=
  maybeEvictLoop_fits (Nat.le_refl _)

end Evict

section Removal

variable {c : TranslationCache} {key : CacheKey} {addr addr' hash : U64}

theorem Drops.dropPrevious (c : TranslationCache) (key : CacheKey) :
    Drops c (c.dropPrevious key) := by
  unfold TranslationCache.dropPrevious
  split
  case h_1 => exact .refl c
  case h_2 =>
    split
    case isTrue => exact .erase c _
    case isFalse => exact .refl c

theorem dropPrevious_addrToHash : (c.dropPrevious key).addrToHash = c.addrToHash := by
  unfold dropPrevious
  split
  case h_1 => rfl
  case h_2 => split <;> rfl

theorem dropPrevious_lookup : (c.dropPrevious key).entries.lookup a =
    if a ≠ key ∧ a.1 = key.1 ∧ c.isLiveKey a then none else c.entries.lookup a := by
  obtain ⟨addr, hash⟩ := a
  obtain ⟨addr', hash'⟩ := key
  unfold dropPrevious isLiveKey
  grind [lookup_erase_eq_ite]

theorem Drops.invalidate (c : TranslationCache) (key : CacheKey) : Drops c (c.invalidate key) := by
  unfold TranslationCache.invalidate
  dsimp only
  split
  case h_1 => exact .erase c key
  case h_2 =>
    refine ⟨?_, kerase_sublist .., rfl, rfl⟩
    split
    case isTrue => exact (kerase_sublist ..).trans (kerase_sublist ..)
    case isFalse => exact kerase_sublist ..

theorem invalidate_addrToHash : (c.invalidate key).addrToHash = c.addrToHash.erase key.1 := by
  unfold invalidate
  dsimp only
  split
  case h_1 h => exact (erase_of_notMem (lookup_eq_none.mp h)).symm
  case h_2 => rfl

theorem invalidate_lookup : (c.invalidate key).entries.lookup k =
    if k = key ∨ (k.1 = key.1 ∧ c.isLiveKey k) then none else c.entries.lookup k := by
  unfold invalidate isLiveKey
  grind [lookup_erase_eq_ite]

theorem Drops.dropAddress (c : TranslationCache) (addr : U64) : Drops c (c.dropAddress addr) := by
  unfold TranslationCache.dropAddress
  split
  case h_1 => exact .refl c
  case h_2 => exact ⟨kerase_sublist .., kerase_sublist .., rfl, rfl⟩

theorem Drops.invalidatePage (c : TranslationCache) (pageAddr : U64) (pageSize : Nat) :
    Drops c (c.invalidatePage pageAddr pageSize) :=
  .foldl .dropAddress _ c

theorem dropAddress_addrToHash : (c.dropAddress addr).addrToHash = c.addrToHash.erase addr := by
  unfold dropAddress
  split
  case h_1 h => exact (erase_of_notMem (lookup_eq_none.mp h)).symm
  case h_2 => rfl

theorem dropAddress_lookup : (c.dropAddress addr).entries.lookup key =
    if key.1 = addr ∧ c.isLiveKey key then none else c.entries.lookup key := by
  unfold dropAddress isLiveKey
  grind [lookup_erase_eq_ite]

theorem foldl_dropAddress (addrs : List U64) (c : TranslationCache) :
    (∀ addr, (addrs.foldl dropAddress c).addrToHash.lookup addr =
      if addr ∈ addrs then none else c.addrToHash.lookup addr) ∧
    ∀ key, (addrs.foldl dropAddress c).entries.lookup key =
      if key.1 ∈ addrs ∧ c.isLiveKey key then none else c.entries.lookup key := by
  induction addrs generalizing c with
  | nil => simp
  | cons a addrs hi =>
    have ⟨ha, he⟩ := hi (c.dropAddress a)
    refine ⟨fun addr => ?_, fun key => ?_⟩
    case refine_1 =>
      rw [foldl_cons, ha, dropAddress_addrToHash]
      grind [lookup_erase_eq_ite]
    case refine_2 =>
      rw [foldl_cons, he, dropAddress_lookup]
      simp only [isLiveKey, dropAddress_addrToHash]
      grind [lookup_erase_eq_ite]

theorem invalidatePage_addrToHash :
    (c.invalidatePage pageAddr pageSize).addrToHash.lookup addr =
      if inPage pageAddr pageSize addr then none else c.addrToHash.lookup addr := by
  refine ((foldl_dropAddress _ c).left addr).trans ?_
  by_cases hm : addr ∈ c.addrToHash.keys
  case pos => simp [hm]
  case neg => simp [hm, lookup_eq_none.mpr hm]

theorem invalidatePage_lookup :
    (c.invalidatePage pageAddr pageSize).entries.lookup key =
      if inPage pageAddr pageSize key.1 ∧ c.isLiveKey key then none else c.entries.lookup key := by
  refine ((foldl_dropAddress _ c).right key).trans ?_
  refine if_congr (and_congr_left fun hl => ?_) rfl rfl
  have hm : key.1 ∈ c.addrToHash.keys :=
    lookup_isSome.mp (isSome_of_eq_some (of_decide_eq_true hl))
  simp [hm]

end Removal

section Use

variable (c : TranslationCache)

theorem lookup_cases (addr : U64) (bytes : List U8) :
    (∃ reason, c.lookup addr bytes = (.miss reason, c)) ∨
      ∃ e, c.entries.lookup (addr, fnv1a64 bytes) = some e ∧
        c.addrToHash.lookup addr = some (fnv1a64 bytes) ∧
        c.lookup addr bytes =
          (.hit { e with hitCount := saturatingSucc e.hitCount, lastUsed := c.nextTick },
            c.stamp (addr, fnv1a64 bytes) e) := by
  unfold lookup
  cases ha : c.addrToHash.lookup addr with
  | none => exact .inl ⟨_, rfl⟩
  | some known =>
    by_cases hk : known = fnv1a64 bytes
    case neg => exact .inl ⟨.staleContent, by simp [hk]⟩
    case pos =>
      subst hk
      cases he : c.entries.lookup (addr, fnv1a64 bytes) with
      | none => exact .inl ⟨.staleContent, by simp [he]⟩
      | some e => exact .inr ⟨e, rfl, rfl, by simp [he]⟩

theorem touch_cases (key : CacheKey) : c.touch key = (false, c) ∨
    ∃ e, c.entries.lookup key = some e ∧ c.touch key = (true, c.stamp key e) := by
  unfold touch
  grind

end Use

end Prisma.TranslationCache
