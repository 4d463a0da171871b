import Prisma.Lib.Recency
import Prisma.Cache.Theorems.Load
import Prisma.Cache.Theorems.Lookup

-- Which entries are evicted.

namespace Prisma.TranslationCache

open Recency Option AList

variable {zstd : Zstd} {walk : EntryWalk} {c c' c₀ : TranslationCache} {key a b lru : CacheKey}
  {entry e f : CacheEntry} {log : List CacheKey} {call : CacheCall}

section Eviction

theorem compact_isLiveKey : c.compact.1.isLiveKey key = c.isLiveKey key := by
  rw [isLiveKey, compact_addrToHash, isLiveKey]

theorem compact_live : c.compact.1.live.lookup key = c.live.lookup key := by
  rw [live_lookup, live_lookup, compact_isLiveKey, compact_lookup]
  split <;> rfl

theorem compact_stored (h : c.compact.1.entries.lookup key = some e) :
    c.compact.1.live.lookup key = some e := by
  rw [compact_live, live_lookup, ← compact_lookup, h]

theorem evict_of_live (h : WellFormed c) (hl : c.isLiveKey lru) :
    (c.evict lru).addrToHash = c.addrToHash.erase lru.1 := by
  have ha := isLiveKey_iff.mp hl
  have ⟨e, he⟩ := isSome_iff_exists.mp (lookup_isSome.mpr (h.stored ha))
  have he : c.entries.lookup lru = some e := he
  have hg : e.guestAddr = lru.1 := h.guestAddr he
  unfold evict
  rw [he]
  dsimp only
  rw [hg, if_pos ha]

theorem evict_live (h : WellFormed c) (hl : c.isLiveKey lru) :
    (c.evict lru).live.lookup key = if key = lru then none else c.live.lookup key := by
  have ha := isLiveKey_iff.mp hl
  rw [live_lookup, live_lookup, isLiveKey, isLiveKey, evict_of_live h hl, evict_entries]
  grind [lookup_erase_eq_ite]

theorem evict_isLiveKey (h : WellFormed c) (hl : c.isLiveKey lru) (ha : c.isLiveKey a)
    (hne : a ≠ lru) : (c.evict lru).isLiveKey a := by
  rw [isLiveKey_iff] at hl ha ⊢
  have hne' : a.1 ≠ lru.1 := by
    intro he
    rw [he, hl] at ha
    exact hne (Prod.ext he (Option.some.inj ha).symm)
  rw [evict_of_live h (isLiveKey_iff.mpr hl), lookup_erase_ne hne', ha]

theorem maybeEvict_isLiveKey (h : WellFormed c) (ha : c.isLiveKey a)
    (hm : a ∈ (c.maybeEvict walk).entries) : (c.maybeEvict walk).isLiveKey a := by
  have hp : WellFormed (c.maybeEvict walk) ∧
      ((c.maybeEvict walk).isLiveKey a ∨ a ∉ (c.maybeEvict walk).entries) := by
    refine maybeEvict_induction (P := fun c => WellFormed c ∧ (c.isLiveKey a ∨ a ∉ c.entries))
      ⟨h, .inl ha⟩ (fun c hc => ⟨hc.1.compact, ?_⟩) fun c hc lru hlru => ⟨hc.1.compact.evict lru, ?_⟩
    case refine_1 =>
      exact hc.2.imp compact_isLiveKey.trans fun hn hm => hn ((Drops.compact c).mem hm)
    case refine_2 =>
      have ⟨e, he, _⟩ := leastRecent_eq_some hlru
      have hl := (live_lookup_eq_some.mp (compact_stored he)).left
      cases hc.2 with
      | inl ha =>
        by_cases hne : a = lru
        case pos => exact .inr (by simp [hne, evict_entries])
        case neg =>
          exact .inl (evict_isLiveKey hc.1.compact hl (compact_isLiveKey.trans ha) hne)
      | inr hn =>
        exact .inr fun hm => hn (((Drops.compact c).trans (.evict _ lru)).mem hm)
  exact hp.right.resolve_right (not_not_intro hm)

-- The entry is still live, or all that are left were used later.
def Outlived (a : CacheKey) (e : CacheEntry) (c : TranslationCache) : Prop :=
  c.live.lookup a = some e ∨
    ∀ b f, c.entries.lookup b = some f → c.live.lookup b = some f ∧ e.lastUsed ≤ f.lastUsed

theorem Outlived.compact (h : Outlived a e c) : Outlived a e c.compact.1 := by
  cases h with
  | inl ha => exact .inl (compact_live.trans ha)
  | inr hs =>
    refine .inr fun b f hb => ⟨compact_stored hb, ?_⟩
    exact (hs b f ((Drops.compact c).lookup hb)).right

theorem Outlived.evict (hw : WellFormed c) (h : Outlived a e c)
    (hlru : c.compact.1.leastRecent walk = some lru) : Outlived a e (c.compact.1.evict lru) := by
  have ⟨e', he', hmin⟩ := leastRecent_eq_some hlru
  have hlive := (live_lookup_eq_some.mp (compact_stored he')).left
  have hother : ∀ key, key ≠ lru →
      (c.compact.1.evict lru).live.lookup key = c.compact.1.live.lookup key := by
    intro key hne
    rw [evict_live hw.compact hlive, if_neg hne]
  have hstored : ∀ b f, (c.compact.1.evict lru).entries.lookup b = some f →
      (c.compact.1.evict lru).live.lookup b = some f ∧ c.compact.1.entries.lookup b = some f := by
    intro b f hb
    have hb' := (Drops.evict _ lru).lookup hb
    have hne : b ≠ lru := by
      rintro rfl
      simp [evict_entries] at hb
    exact ⟨(hother b hne).trans (compact_stored hb'), hb'⟩
  cases h.compact with
  | inr hs =>
    refine .inr fun b f hb => ?_
    have ⟨hl, hb⟩ := hstored b f hb
    exact ⟨hl, (hs b f hb).right⟩
  | inl ha =>
    by_cases hne : a = lru
    case neg => exact .inl ((hother a hne).trans ha)
    case pos =>
      subst hne
      cases he'.symm.trans (live_lookup_eq_some.mp ha).right
      refine .inr fun b f hb => ?_
      have ⟨hl, hb⟩ := hstored b f hb
      exact ⟨hl, hmin b f hb⟩

-- A live entry is evicted only where all that stay were used later.
theorem maybeEvict_oldest (h : WellFormed c) (ha : c.live.lookup a = some e)
    (hr : a ∉ (c.maybeEvict walk).entries) (hb : (c.maybeEvict walk).entries.lookup b = some f) :
    c.live.lookup b = some f ∧ e.lastUsed ≤ f.lastUsed := by
  have hp : WellFormed (c.maybeEvict walk) ∧ Outlived a e (c.maybeEvict walk) :=
    maybeEvict_induction (P := fun c => WellFormed c ∧ Outlived a e c) ⟨h, .inl ha⟩
      (fun _ hc => ⟨hc.1.compact, hc.2.compact⟩)
      fun _ hc lru hlru => ⟨hc.1.compact.evict lru, hc.2.evict hc.1 hlru⟩
  cases hp.right with
  | inl ha =>
    have hm := (live_lookup_eq_some.mp ha).right
    exact absurd (lookup_isSome.mp (isSome_of_eq_some hm)) hr
  | inr hs =>
    have ⟨hl, hle⟩ := hs b f hb
    exact ⟨(Drops.maybeEvict c walk).live hl, hle⟩

end Eviction

section History

-- The entries that a call inserts, hits or touches, the latest one first. Loading a file inserts
-- its entries in the order in which it numbers them.
def uses (zstd : Zstd) (walk : EntryWalk) (c : TranslationCache) : CacheCall → List CacheKey
  | .lookup guestAddr guestBytes =>
    match (c.lookup guestAddr guestBytes).1 with
    | .hit _ => [(guestAddr, fnv1a64 guestBytes)]
    | .miss _ => []
  | .insert key entry => if (c.insert walk key entry).1 then [key] else []
  | .upsert key _ => [key]
  | .touch key => if (c.touch key).1 then [key] else []
  | .loadFromFile file =>
    match c.loadFromFile zstd walk file with
    | some (none, c') => c'.entries.keys.reverse
    | _ => []
  | _ => []

-- The cache together with the uses so far, through calls that each meet a condition.
inductive Used (zstd : Zstd) (P : TranslationCache → CacheCall → Prop) :
    TranslationCache → List CacheKey → Prop
  | new : Used zstd P .new []
  | call {c : TranslationCache} {log : List CacheKey} {call : CacheCall} (h : Used zstd P c log)
    (hp : P c call) (walk : EntryWalk) :
    Used zstd P (call.apply zstd walk c) (uses zstd walk c call ++ log)

def beforeEviction (c : TranslationCache) : CacheCall → Option TranslationCache
  | .setMaxEntries n => some { c with maxEntries := n }
  | .setMaxBytes n => some { c with maxBytes := n }
  | .setLimits maxEntries maxBytes => some { c with maxEntries, maxBytes }
  | .insert key entry => if c.containsKey key then none else some (c.store key entry)
  | .upsert key entry => some ((c.dropPrevious key).store key entry)
  | _ => none

-- The live entries that stay were used after those that the call evicts, and an entry that is
-- inserted is evicted only together with all others.
structure EvictsOldest (zstd : Zstd) (walk : EntryWalk) (c : TranslationCache)
    (log : List CacheKey) (call : CacheCall) : Prop where
  older : ∀ c₀ a b, c.beforeEviction call = some c₀ → a ∈ c₀.live →
    a ∉ (call.apply zstd walk c).entries → b ∈ (call.apply zstd walk c).live →
      MoreRecent (uses zstd walk c call ++ log) b a
  inserted : ∀ key entry, call = .insert key entry ∨ call = .upsert key entry →
    (c.beforeEviction call).isSome → key ∉ (call.apply zstd walk c).entries →
      (call.apply zstd walk c).entries = ∅

-- The entry that a call stamps with the next tick.
def stamped (c : TranslationCache) : CacheCall → Option CacheKey
  | .lookup guestAddr guestBytes =>
    let key := (guestAddr, fnv1a64 guestBytes)
    if c.isLiveKey key ∧ c.containsKey key then some key else none
  | .insert key _ => if c.containsKey key then none else some key
  | .upsert key _ => some key
  | .touch key => if c.containsKey key then some key else none
  | _ => none

-- The next tick is later than those of the other live entries.
def TickIsNew (c : TranslationCache) (call : CacheCall) : Prop :=
  ∀ key ∈ c.stamped call, ∀ other e, other ≠ key → c.live.lookup other = some e →
    e.lastUsed < c.nextTick

end History

section Ticks

def liveTick (c : TranslationCache) (key : CacheKey) : Option Nat :=
  (c.live.lookup key).map (·.lastUsed)

theorem Drops.liveTick (hd : Drops c c') (h : c'.liveTick key = some m) :
    c.liveTick key = some m := by
  have ⟨e, he, hm⟩ := map_eq_some_iff.mp h
  exact map_eq_some_iff.mpr ⟨e, hd.live he, hm⟩

theorem stamp_liveTick : (c.stamp key e).liveTick a =
    if a = key then (if c.isLiveKey key then some c.nextTick else none) else c.liveTick a := by
  have hl : (c.stamp key e).isLiveKey a = c.isLiveKey a := rfl
  rw [liveTick, liveTick, live_lookup, live_lookup, hl, stamp, lookup_insert_eq_ite]
  grind

theorem store_liveTick : (c.store key entry).liveTick a =
    if a = key then some c.nextTick else if a.1 = key.1 then none else c.liveTick a := by
  rw [liveTick, liveTick, live_lookup, live_lookup, isLiveKey, isLiveKey, store,
    lookup_insert_eq_ite, lookup_insert_eq_ite]
  grind

theorem dropPrevious_nextTick : (c.dropPrevious key).nextTick = c.nextTick := by
  unfold dropPrevious
  grind

end Ticks

-- The ticks of the live entries follow their uses.
abbrev InOrder (c : TranslationCache) (log : List CacheKey) : Prop :=
  Ordered c.liveTick log

namespace InOrder

theorem drops (h : InOrder c log) (hd : Drops c c') : InOrder c' log :=
  h.mono hd.liveTick

theorem stamp (h : InOrder c log)
    (hn : ∀ {a m}, a ≠ key → c.liveTick a = some m → m < c.nextTick) :
    InOrder (c.stamp key e) (key :: log) := by
  refine h.use c.nextTick (fun hk => ?_) fun hne ha => ?_
  case refine_1 =>
    rw [stamp_liveTick, if_pos rfl] at hk
    exact (Option.some.inj (ite_none_right_eq_some.mp hk).2).symm
  case refine_2 =>
    rw [stamp_liveTick, if_neg hne] at ha
    exact ⟨ha, hn hne ha⟩

theorem store (h : InOrder c log)
    (hn : ∀ {a m}, a ≠ key → c.liveTick a = some m → m < c.nextTick) :
    InOrder (c.store key entry) (key :: log) := by
  refine h.use c.nextTick (fun hk => ?_) fun hne ha => ?_
  case refine_1 =>
    rw [store_liveTick, if_pos rfl] at hk
    exact (Option.some.inj hk).symm
  case refine_2 =>
    rw [store_liveTick, if_neg hne] at ha
    have ha := (ite_none_left_eq_some.mp ha).2
    exact ⟨ha, hn hne ha⟩

theorem dropPrevious_store (h : InOrder c log)
    (hn : ∀ {a m}, a ≠ key → c.liveTick a = some m → m < c.nextTick) :
    InOrder ((c.dropPrevious key).store key entry) (key :: log) := by
  have hd := Drops.dropPrevious c key
  refine (h.drops hd).store fun hne ha => ?_
  rw [dropPrevious_nextTick]
  exact hn hne (hd.liveTick ha)

theorem resetHitCounts (h : InOrder c log) : InOrder c.resetHitCounts log := by
  have ht : c.resetHitCounts.liveTick = c.liveTick := by
    funext key
    have hl : c.resetHitCounts.isLiveKey key = c.isLiveKey key := rfl
    rw [liveTick, liveTick, live_lookup, live_lookup, hl, TranslationCache.resetHitCounts,
      lookup_map]
    split
    case isTrue => rw [map_map]; rfl
    case isFalse => rfl
  rwa [InOrder, ht]

theorem install {tables : CacheFile.Tables} : InOrder (c.install walk tables)
    ((c.install walk tables).entries.keys.reverse ++ log) := by
  refine .number (keys_nodup _) fun {key m} hk => ?_
  have ⟨e, he, hm⟩ := map_eq_some_iff.mp hk
  have ⟨i, e', hi, he⟩ := lookup_mapIdx_eq_some.mp (live_lookup_eq_some.mp he).right
  subst he
  subst hm
  have hk : (c.install walk tables).entries.keys = (tables.1.reorder walk).keys :=
    keys_mapIdx _
  rw [hk, AList.keys, List.keys, List.getElem?_map]
  exact congrArg (Option.map _) hi

theorem tickIsNew (hp : TickIsNew c call) (hk : c.stamped call = some key) (hne : a ≠ key)
    (ha : c.liveTick a = some m) : m < c.nextTick := by
  have ⟨e, he, hm⟩ := map_eq_some_iff.mp ha
  exact hm ▸ hp key hk a e hne he

theorem beforeEviction (h : InOrder c log) (hp : TickIsNew c call)
    (hb : c.beforeEviction call = some c₀) : InOrder c₀ (uses zstd walk c call ++ log) := by
  cases call with
  | setMaxEntries | setMaxBytes | setLimits =>
    cases hb
    exact h
  | insert key entry =>
    have ⟨hk, hb⟩ := ite_none_left_eq_some.mp hb
    cases hb
    have hu : uses zstd walk c (.insert key entry) = [key] := by simp [uses, TranslationCache.insert, hk]
    rw [hu]
    exact h.store (tickIsNew hp (by simp [stamped, hk]))
  | upsert key entry =>
    cases hb
    exact h.dropPrevious_store (tickIsNew hp rfl)
  | _ => cases hb

theorem lookup (h : InOrder c log) (hp : TickIsNew c (.lookup addr bytes)) :
    InOrder (c.lookup addr bytes).2 (uses zstd walk c (.lookup addr bytes) ++ log) := by
  simp only [uses]
  obtain ⟨_, hs⟩ | ⟨e, he, ha, hs⟩ := c.lookup_cases addr bytes <;> rw [hs]
  case inl => exact h
  case inr =>
    have hk : c.stamped (.lookup addr bytes) = some (addr, fnv1a64 bytes) := by
      simp [stamped, isLiveKey, containsKey, he, ha]
    exact h.stamp (tickIsNew hp hk)

theorem touch (h : InOrder c log) (hp : TickIsNew c (.touch key)) :
    InOrder (c.touch key).2 (uses zstd walk c (.touch key) ++ log) := by
  simp only [uses]
  obtain hs | ⟨e, he, hs⟩ := c.touch_cases key <;> rw [hs]
  case inl => exact h
  case inr =>
    have hk : c.stamped (.touch key) = some key := by simp [stamped, containsKey, he]
    exact h.stamp (tickIsNew hp hk)

theorem loadFromFile (h : InOrder c log) :
    InOrder (CacheCall.apply zstd walk c (.loadFromFile file))
      (uses zstd walk c (.loadFromFile file) ++ log) := by
  change InOrder ((Option.map _ _).getD c) _
  simp only [uses]
  split
  case h_1 c' hl =>
    have ⟨header, records, _, hc⟩ := loadFromFile_ok.mp hl
    rw [hl, hc]
    exact install
  case h_2 hn =>
    cases hl : c.loadFromFile zstd walk file with
    | none => exact h
    | some out =>
      obtain ⟨_ | e, c'⟩ := out
      · exact absurd hl (hn c')
      · rw [loadFromFile_error hl]
        exact h

end InOrder

theorem apply_beforeEviction (hb : c.beforeEviction call = some c₀) :
    call.apply zstd walk c = c₀.maybeEvict walk := by
  cases call with
  | setMaxEntries | setMaxBytes | setLimits | upsert =>
    cases hb
    rfl
  | insert key entry =>
    have ⟨hk, hb⟩ := ite_none_left_eq_some.mp hb
    cases hb
    change (c.insert walk key entry).2 = _
    rw [insert, if_neg hk]
  | _ => cases hb

theorem InOrder.apply (h : InOrder c log) (hp : TickIsNew c call) :
    InOrder (call.apply zstd walk c) (uses zstd walk c call ++ log) := by
  cases hb : c.beforeEviction call with
  | some c₀ =>
    rw [apply_beforeEviction hb]
    exact (h.beforeEviction hp hb).drops (.maybeEvict c₀ walk)
  | none =>
    cases call with
    | setMaxEntries | setMaxBytes | setLimits | upsert => cases hb
    | insert key entry =>
      have hk : c.containsKey key = true := by
        simpa [TranslationCache.beforeEviction] using hb
      have hi : c.insert walk key entry = (false, c) := by rw [insert, if_pos hk]
      change InOrder (c.insert walk key entry).2 _
      simp only [uses, hi]
      exact h
    | clear => exact ⟨fun ha => (nomatch ha), fun ha => (nomatch ha)⟩
    | lookup => exact h.lookup hp
    | touch => exact h.touch hp
    | invalidate key => exact h.drops (.invalidate c key)
    | invalidatePage pageAddr pageSize => exact h.drops (.invalidatePage c pageAddr pageSize)
    | compact => exact h.drops (.compact c)
    | resetHitCounts => exact h.resetHitCounts
    | setCompressOnSave => exact h
    | loadFromFile => exact h.loadFromFile

theorem Used.inOrder (h : Used zstd TickIsNew c log) : InOrder c log := by
  induction h with
  | new => exact ⟨fun ha => (nomatch ha), fun ha => (nomatch ha)⟩
  | call _ hp walk hi => exact hi.apply hp

theorem Used.wellFormed {P : TranslationCache → CacheCall → Prop} (h : Used zstd P c log) :
    WellFormed c := by
  induction h with
  | new => exact .new
  | call _ _ walk hi => exact hi.apply _

theorem WellFormed.beforeEviction (h : WellFormed c) (hb : c.beforeEviction call = some c₀) :
    WellFormed c₀ := by
  cases call with
  | setMaxEntries | setMaxBytes | setLimits =>
    cases hb
    exact h.limits _ _
  | insert =>
    cases (ite_none_left_eq_some.mp hb).2
    exact h.store
  | upsert =>
    cases hb
    exact h.dropPrevious_store
  | _ => cases hb

theorem inserted_live (hc : call = .insert key entry ∨ call = .upsert key entry)
    (hb : c.beforeEviction call = some c₀) :
    key ∈ c₀.live ∧ uses zstd walk c call = [key] := by
  have hs : ∀ c : TranslationCache, key ∈ (c.store key entry).live := by
    intro c
    have hl : (c.store key entry).live.lookup key = some _ :=
      live_lookup_eq_some.mpr
        ⟨isLiveKey_iff.mpr (lookup_insert _), lookup_insert _⟩
    exact lookup_isSome.mp (isSome_of_eq_some hl)
  cases hc with
  | inl hc =>
    subst hc
    have ⟨hk, hb⟩ := ite_none_left_eq_some.mp hb
    cases hb
    exact ⟨hs c, by simp [uses, insert, hk]⟩
  | inr hc =>
    subst hc
    cases hb
    exact ⟨hs _, rfl⟩

-- In a run in which every tick is new, the entries that are evicted are the ones that were not used
-- for the longest time.
theorem evicts_oldest (h : Used zstd TickIsNew c log) (hp : TickIsNew c call) (walk : EntryWalk) :
    EvictsOldest zstd walk c log call := by
  have hrecent : ∀ c₀ a b, c.beforeEviction call = some c₀ → a ∈ c₀.live →
      a ∉ (call.apply zstd walk c).entries → b ∈ (call.apply zstd walk c).entries →
        MoreRecent (uses zstd walk c call ++ log) b a := by
    intro c₀ a b hb ha hr hs
    have ho : InOrder c₀ (uses zstd walk c call ++ log) := h.inOrder.beforeEviction hp hb
    have hne : a ≠ b := fun he => hr (he ▸ hs)
    have ⟨e, he⟩ := isSome_iff_exists.mp (lookup_isSome.mpr ha)
    have ⟨f, hf⟩ := isSome_iff_exists.mp (lookup_isSome.mpr hs)
    rw [apply_beforeEviction hb] at hr hf
    have ⟨hl, hle⟩ := maybeEvict_oldest (h.wellFormed.beforeEviction hb) he hr hf
    exact ho.moreRecent (map_eq_some_iff.mpr ⟨e, he, rfl⟩)
      (map_eq_some_iff.mpr ⟨f, hl, rfl⟩) hne hle
  constructor
  case older =>
    intro c₀ a b hb ha hr hs
    have ⟨f, hf⟩ := isSome_iff_exists.mp (lookup_isSome.mpr hs)
    have hs := isSome_of_eq_some (live_lookup_eq_some.mp hf).right
    exact hrecent c₀ a b hb ha hr (lookup_isSome.mp hs)
  case inserted =>
    intro key entry hc hb hr
    have ⟨c₀, hb⟩ := isSome_iff_exists.mp hb
    have ⟨hk, hu⟩ := @inserted_live zstd walk _ _ _ _ _ hc hb
    -- an entry that stays would have been used after the one that is being inserted
    cases he : (call.apply zstd walk c).entries.entries with
    | nil => exact AList.ext he
    | cons x l =>
      have hm : x.1 ∈ (call.apply zstd walk c).entries :=
        List.mem_keys.mpr ⟨x.2, he ▸ List.mem_cons_self⟩
      have hx := hrecent c₀ key x.1 hb hk hr hm
      rw [hu] at hx
      exact absurd hx not_moreRecent_cons

theorem evicts_oldest_insert : EvictsOldest ⟨fun _ _ => none, fun _ => none, nofun⟩ .stored
    ((TranslationCache.new.setMaxEntries .stored 1).insert .stored (0x1000, 1)
      ⟨0x1000, 1, 1, [0xC3], 0, 0⟩).2 [(0x1000, 1)]
    (.insert (0x2000, 1) ⟨0x2000, 1, 1, [0xC3], 0, 0⟩) := by
  let zstd : Zstd := ⟨fun _ _ => none, fun _ => none, nofun⟩
  let first : CacheCall := .insert (0x1000, 1) ⟨0x1000, 1, 1, [0xC3], 0, 0⟩
  have h₁ : Used zstd TickIsNew (CacheCall.apply zstd .stored .new (.setMaxEntries 1)) [] :=
    .call .new nofun .stored
  have hp₁ : TickIsNew (CacheCall.apply zstd .stored .new (.setMaxEntries 1)) first := by
    intro key _ other e _ he
    cases lookup_eq_some.mp he
  have h₂ := h₁.call hp₁ .stored
  refine evicts_oldest h₂ ?_ .stored
  intro key _ other e _ he
  have hm := (List.mem_filter.mp (lookup_eq_some.mp he)).left
  cases List.mem_singleton.mp hm
  decide

def threeEntryFile : CacheFile.FileRead :=
  .content ⟨CacheFile.FileHeader.bytes ⟨2, 0, 0, 3⟩ ++
    [0x1000, 0x2000, 0x3000].flatMap fun addr =>
      CacheFile.Record.bytes 2 ⟨⟨addr, 1, 1, 1, 1⟩, [0xC3]⟩,
    by decide +kernel⟩

-- Loading numbers the entries from zero and starts again at the tick one.
theorem not_evicts_oldest : ¬∀ (zstd : Zstd) (c : TranslationCache) (log : List CacheKey)
    (call : CacheCall) (walk : EntryWalk), Used zstd (fun _ _ => True) c log →
      EvictsOldest zstd walk c log call := by
  intro h
  let zstd : Zstd := ⟨fun _ _ => none, fun _ => none, nofun⟩
  have h₁ : Used zstd (fun _ _ => True) _ _ :=
    @Used.call _ _ _ _ (.setMaxEntries 1) .new trivial .stored
  have h₂ : Used zstd (fun _ _ => True) _ _ :=
    @Used.call _ _ _ _ (.loadFromFile threeEntryFile) h₁ trivial .stored
  have hi := (h zstd _ _ (.insert (0x4000, 1) ⟨0x4000, 1, 1, [0xC3], 0, 0⟩) .stored h₂).inserted
    (0x4000, 1) ⟨0x4000, 1, 1, [0xC3], 0, 0⟩ (.inl rfl) (by decide +kernel)
    (by rw [← lookup_isSome]; decide +kernel)
  have hs := congrArg AList.size hi
  revert hs
  decide +kernel

end Prisma.TranslationCache
