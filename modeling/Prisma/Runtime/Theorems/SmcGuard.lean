import Prisma.Runtime.SmcGuard
import Prisma.Cache.Theorems.Recency

-- Writes to translated code.

namespace Prisma

open TranslationCache BitVec AList

namespace SmcGuard

variable {guard : SmcGuard} {page endPage cacheKey addr a : U64} {len : U32}

-- The guard is enabled, has the default page size, and no page is pending.
structure Watching (guard : SmcGuard) : Prop where
  enabled : guard.enabled = true
  pageSize : guard.pageSize = 4096
  pendingPages : guard.pendingPages = []

theorem Watching.new : Watching SmcGuard.new.enable :=
  ⟨rfl, rfl, rfl⟩

section Pages

theorem pageBase_toNat (h : guard.pageSize = 4096) :
    (guard.pageBase addr).toNat = addr.toNat - addr.toNat % 4096 := by
  have hm : (addr % 4096).toNat = addr.toNat % 4096 := rfl
  rw [pageBase, h, toNat_sub_of_le (le_def.mpr (hm ▸ Nat.mod_le _ _)), hm]

theorem pageBase_eq_iff (h : guard.pageSize = 4096) : guard.pageBase a = guard.pageBase addr ↔
    a.toNat / 4096 = addr.toNat / 4096 := by
  rw [← toNat_inj, pageBase_toNat h, pageBase_toNat h]
  omega

-- The cache takes the end of the last page to be one byte earlier.
theorem inPage_pageBase (h : guard.pageSize = 4096) :
    inPage (guard.pageBase addr) 4096 a = true ↔
      guard.pageBase a = guard.pageBase addr ∧ a ≠ BitVec.allOnes 64 := by
  have ha : a ≠ BitVec.allOnes 64 ↔ a.toNat ≠ 2 ^ 64 - 1 := by
    rw [ne_eq, ← toNat_inj, toNat_allOnes]
  have hlt := a.isLt
  rw [pageBase_eq_iff h, ha, inPage, Bool.and_eq_true, decide_eq_true_iff, decide_eq_true_iff,
    pageBase_toNat h]
  omega

end Pages

section Translate

theorem saturatingAdd_toNat : (saturatingAdd a b).toNat = min (a.toNat + b.toNat) (2 ^ 64 - 1) := by
  rw [saturatingAdd, toNat_ofNat, Nat.mod_eq_of_lt]
  omega

theorem trackPages_eq (h : trackPages cacheKey endPage rounds page guard = some guard') :
    ∃ pages, guard' = { guard with pages } ∧ ∀ p ∈ guard.pages, p ∈ pages := by
  induction rounds generalizing page guard with
  | zero => cases h
  | succ rounds hi =>
    have ht : ∀ p ∈ guard.pages, p ∈ (guard.trackPage page cacheKey).pages :=
      fun p hp => (mem_insert _).mpr (.inr hp)
    unfold trackPages at h
    dsimp only at h
    split at h
    case isTrue => exact ⟨_, (Option.some.inj h).symm, ht⟩
    case isFalse =>
      obtain ⟨pages, hp, hm⟩ := hi h
      exact ⟨pages, hp, fun p hp => hm p (ht p hp)⟩

theorem trackPage_lookup (p : U64) : (guard.trackPage page cacheKey).pages.lookup p =
    if p = page then some (insertKey cacheKey ((guard.pages.lookup p).getD []))
    else guard.pages.lookup p := by
  split
  case isTrue h => exact h ▸ lookup_insert _
  case isFalse h => exact lookup_insert_ne h

section Aligned

variable (hs : guard.pageSize = 4096) (hpage : page.toNat % 4096 = 0)
  (hend : endPage.toNat % 4096 = 0) (hle : page.toNat ≤ endPage.toNat)
  (hr : endPage.toNat < page.toNat + rounds * 4096)

include hs hpage hend hle

theorem toNat_nextPage (h : page ≠ endPage) :
    (saturatingAdd page guard.pageSize).toNat = page.toNat + 4096 ∧
      page.toNat + 4096 ≤ endPage.toNat := by
  have hne : page.toNat ≠ endPage.toNat := fun he => h (eq_of_toNat_eq he)
  have hlt := endPage.isLt
  rw [saturatingAdd_toNat, hs, show (4096 : U64).toNat = 4096 from rfl]
  omega

include hr

-- The loop ends, and further rounds would change nothing.
theorem trackPages_ends : ∃ guard',
    (∀ m, trackPages cacheKey endPage (rounds + m) page guard = some guard') ∧
    ∀ p, guard'.pages.lookup p =
      if p.toNat % 4096 = 0 ∧ page.toNat ≤ p.toNat ∧ p.toNat ≤ endPage.toNat then
        some (insertKey cacheKey ((guard.pages.lookup p).getD []))
      else guard.pages.lookup p := by
  induction rounds generalizing page guard with
  | zero => omega
  | succ rounds hi =>
    have hp (p : U64) : p = page ↔ p.toNat = page.toNat := toNat_inj.symm
    by_cases he : page = endPage
    case pos =>
      refine ⟨guard.trackPage page cacheKey, fun m => ?_, fun p => ?_⟩
      · rw [Nat.add_right_comm, trackPages]
        exact if_pos he
      · simp only [trackPage_lookup, hp]
        subst he
        congr 1
        exact propext ⟨fun h => by omega, fun h => by omega⟩
    case neg =>
      obtain ⟨hn, hle'⟩ := toNat_nextPage hs hpage hend hle he
      obtain ⟨guard', ht, hl⟩ := @hi (guard.trackPage page cacheKey)
        (saturatingAdd page guard.pageSize) hs (by omega) (by omega) (by omega)
      refine ⟨guard', fun m => ?_, fun p => (hl p).trans ?_⟩
      · rw [Nat.add_right_comm, trackPages]
        exact (if_neg he).trans (ht m)
      · rw [hn]
        simp only [trackPage_lookup, hp]
        split_ifs <;> first | rfl | omega

end Aligned

theorem onTranslate_eq (guard : SmcGuard) (addr : U64) (len : U32) (cacheKey : U64) :
    ∃ pages, guard.onTranslate addr len cacheKey = { guard with pages } ∧
      ∀ p ∈ guard.pages, p ∈ pages := by
  unfold onTranslate
  split
  case isTrue => exact ⟨guard.pages, rfl, fun _ => id⟩
  case isFalse =>
    dsimp only
    cases h : trackPages cacheKey _ len.toNat _ guard with
    | none => exact ⟨guard.pages, rfl, fun _ => id⟩
    | some guard' => exact trackPages_eq h

theorem Watching.onTranslate (h : Watching guard) (addr : U64) (len : U32) (cacheKey : U64) :
    Watching (guard.onTranslate addr len cacheKey) := by
  obtain ⟨pages, hp, _⟩ := onTranslate_eq guard addr len cacheKey
  rw [hp]
  exact ⟨h.enabled, h.pageSize, h.pendingPages⟩

theorem onTranslate_isTracked (ht : guard.isTracked a) (addr : U64) (len : U32) (cacheKey : U64) :
    (guard.onTranslate addr len cacheKey).isTracked a := by
  obtain ⟨pages, hp, hm⟩ := onTranslate_eq guard addr len cacheKey
  rw [hp]
  exact lookup_isSome.mpr (hm _ (lookup_isSome.mp ht))

-- The page at `p` has a byte of the range. The range is cut at the end of the address space.
def Touches (guard : SmcGuard) (addr : U64) (len : U32) (p : U64) : Prop :=
  ∃ i < len.toNat, addr.toNat + i < 2 ^ 64 ∧ p = guard.pageBase (addr + BitVec.ofNat 64 i)

section Range

variable (hs : guard.pageSize = 4096) (hl : len ≠ 0)

include hl in
theorem toNat_lastAddr : (saturatingAdd addr (len.setWidth 64 - 1)).toNat =
    min (addr.toNat + len.toNat - 1) (2 ^ 64 - 1) := by
  have hlen : len.toNat < 2 ^ 32 := len.isLt
  have hne : len.toNat ≠ 0 := fun hz => hl (eq_of_toNat_eq hz)
  have hw : (len.setWidth 64).toNat = len.toNat := by
    rw [toNat_setWidth]
    omega
  have hsub : (len.setWidth 64 - 1).toNat = len.toNat - 1 := by
    rw [toNat_sub_of_le, hw]
    · rfl
    · rw [BitVec.le_def, hw]
      exact Nat.one_le_iff_ne_zero.mpr hne
  rw [saturatingAdd_toNat, hsub]
  omega

include hs hl

theorem range_pages : (guard.pageBase addr).toNat % 4096 = 0 ∧
    (guard.pageBase (saturatingAdd addr (len.setWidth 64 - 1))).toNat % 4096 = 0 ∧
    (guard.pageBase addr).toNat ≤
      (guard.pageBase (saturatingAdd addr (len.setWidth 64 - 1))).toNat ∧
    (guard.pageBase (saturatingAdd addr (len.setWidth 64 - 1))).toNat <
      (guard.pageBase addr).toNat + len.toNat * 4096 := by
  have hne : len.toNat ≠ 0 := fun hz => hl (eq_of_toNat_eq hz)
  have hlt := addr.isLt
  rw [pageBase_toNat hs, pageBase_toNat hs, toNat_lastAddr hl]
  omega

theorem trackPages_onTranslate (he : guard.enabled = true) (hr : len.toNat ≤ rounds) :
    trackPages cacheKey (guard.pageBase (saturatingAdd addr (len.setWidth 64 - 1))) rounds
      (guard.pageBase addr) guard = some (guard.onTranslate addr len cacheKey) := by
  obtain ⟨h₁, h₂, h₃, h₄⟩ := @range_pages guard addr len hs hl
  obtain ⟨guard', ht, _⟩ := @trackPages_ends _ guard _ _ cacheKey hs h₁ h₂ h₃ h₄
  rw [onTranslate, he, if_neg (by simpa using hl), ← Nat.add_sub_cancel' hr, ht]
  exact congrArg some (congrArg (·.getD guard) (ht 0)).symm

theorem onTranslate_lookup (he : guard.enabled = true) (p : U64) :
    (guard.Touches addr len p → (guard.onTranslate addr len cacheKey).pages.lookup p =
      some (insertKey cacheKey ((guard.pages.lookup p).getD []))) ∧
    (¬guard.Touches addr len p →
      (guard.onTranslate addr len cacheKey).pages.lookup p = guard.pages.lookup p) := by
  obtain ⟨h₁, h₂, h₃, h₄⟩ := @range_pages guard addr len hs hl
  have hne : len.toNat ≠ 0 := fun hz => hl (eq_of_toNat_eq hz)
  obtain ⟨guard', ht, hk⟩ := @trackPages_ends _ guard _ _ cacheKey hs h₁ h₂ h₃ h₄
  obtain rfl : _ = guard' :=
    Option.some.inj ((trackPages_onTranslate hs hl he le_rfl).symm.trans (ht 0))
  rw [hk]
  suffices h : guard.Touches addr len p ↔ _ from
    ⟨fun ht => if_pos (h.mp ht), fun ht => if_neg (mt h.mpr ht)⟩
  rw [pageBase_toNat hs, pageBase_toNat hs, toNat_lastAddr hl]
  have hbyte : ∀ i, addr.toNat + i < 2 ^ 64 →
      (addr + BitVec.ofNat 64 i).toNat = addr.toNat + i := fun i hi => by
    rw [toNat_add, toNat_ofNat]
    omega
  constructor
  · rintro ⟨i, hi, hlt, rfl⟩
    rw [pageBase_toNat hs, hbyte i hlt]
    omega
  · intro h
    have hp := p.isLt
    -- the first byte of the range that is in the page
    refine ⟨max addr.toNat p.toNat - addr.toNat, by omega, by omega, eq_of_toNat_eq ?_⟩
    rw [pageBase_toNat hs, hbyte _ (by omega)]
    omega

end Range

theorem onTranslate_covers (h : Watching guard) (hi : i < len.toNat) (hlt : addr.toNat + i < 2 ^ 64) :
    (guard.onTranslate addr len cacheKey).isTracked (addr + BitVec.ofNat 64 i) := by
  have hne : len ≠ 0 := fun hz => by simp [hz] at hi
  obtain ⟨pages, he, _⟩ := onTranslate_eq guard addr len cacheKey
  have hb : (guard.onTranslate addr len cacheKey).pageBase (addr + BitVec.ofNat 64 i) =
      guard.pageBase (addr + BitVec.ofNat 64 i) := by
    rw [he]
    rfl
  rw [isTracked, hb, (onTranslate_lookup h.pageSize hne h.enabled _).left ⟨i, hi, hlt, rfl⟩]
  rfl

theorem mem_insertKey {key k : U64} {keys : List U64} :
    k ∈ insertKey key keys ↔ k = key ∨ k ∈ keys := by
  unfold insertKey
  split
  case isTrue h => exact ⟨.inr, fun hk => hk.elim (fun he => he ▸ h) id⟩
  case isFalse => simp

-- The loop ends, the key is added to the pages of the range, and other pages stay as they are.
theorem onTranslate_adds (he : guard.enabled = true) (hs : guard.pageSize = 4096) (hl : len ≠ 0) :
    (∀ rounds ≥ len.toNat,
      trackPages cacheKey (guard.pageBase (saturatingAdd addr (len.setWidth 64 - 1))) rounds
        (guard.pageBase addr) guard = some (guard.onTranslate addr len cacheKey)) ∧
    ∀ p,
      (guard.Touches addr len p →
        ∃ keys, (guard.onTranslate addr len cacheKey).pages.lookup p = some keys ∧
          ∀ k, k ∈ keys ↔ k = cacheKey ∨ k ∈ (guard.pages.lookup p).getD []) ∧
      (¬guard.Touches addr len p →
        (guard.onTranslate addr len cacheKey).pages.lookup p = guard.pages.lookup p) := by
  refine ⟨fun rounds hr => trackPages_onTranslate hs hl he hr, fun p => ⟨fun ht => ?_, ?_⟩⟩
  · exact ⟨_, (onTranslate_lookup hs hl he p).left ht, fun _ => mem_insertKey⟩
  · exact (onTranslate_lookup hs hl he p).right

-- A range that reaches beyond the last address has no byte in the first page.
theorem onTranslate_adds_top :
    (SmcGuard.new.enable.onTranslate 0xFFFFFFFFFFFFFFF0 64 7).pages.lookup 0 = none := by
  refine ((onTranslate_adds rfl rfl (by decide)).right 0).right ?_
  rintro ⟨i, hi, hlt, hp⟩
  have ht : (0xFFFFFFFFFFFFFFF0 : U64).toNat = 0xFFFFFFFFFFFFFFF0 := rfl
  have hp : 0 = _ := congrArg BitVec.toNat hp
  rw [pageBase_toNat rfl, toNat_add, toNat_ofNat, ht] at hp
  rw [ht] at hlt
  omega

end Translate

section Fault

theorem foldl_pushPending (keys : List U64) (guard : SmcGuard) :
    ∃ pending, keys.foldl pushPending guard = { guard with pending } := by
  induction keys generalizing guard with
  | nil => exact ⟨guard.pending, rfl⟩
  | cons key keys hi =>
    have ⟨pending, hp⟩ := hi (pushPending guard key)
    refine ⟨pending, hp.trans ?_⟩
    unfold pushPending
    split <;> rfl

theorem handleFault_pendingPages (h : Watching guard) : (guard.handleFault a).2.pageSize = 4096 ∧
    (guard.handleFault a).2.pendingPages = if guard.isTracked a then [guard.pageBase a] else [] := by
  rw [handleFault, if_pos h.enabled, invalidatePage, isTracked]
  cases hl : guard.pages.lookup (guard.pageBase a) with
  | none => exact ⟨h.pageSize, h.pendingPages⟩
  | some keys =>
    have ⟨pending, hp⟩ :=
      foldl_pushPending keys { guard with pages := guard.pages.erase (guard.pageBase a) }
    dsimp only
    rw [hp]
    simp [h.pendingPages, h.pageSize]

end Fault

end SmcGuard

namespace Translations

-- What `install_translation` is called with.
structure Installation where
  walk : EntryWalk
  guestAddr : U64
  guestBytes : List U8
  codeBytes : List U8

namespace Installation

def key (t : Installation) : CacheKey :=
  (t.guestAddr, fnv1a64 t.guestBytes)

def install (t : Installation) (s : Translations) : Option CacheKey × Translations :=
  s.installTranslation t.walk t.guestAddr t.guestBytes t.codeBytes

end Installation

-- A cache in any state and a guard that was just enabled, after some installations. Those that
-- returned a key are listed.
inductive Installed (zstd : Zstd) : Translations → List Installation → Prop
  | start {c : TranslationCache} (h : Reachable zstd (fun _ _ => True) c) :
    Installed zstd ⟨c, SmcGuard.new.enable⟩ []
  | install {s : Translations} {ts : List Installation} (h : Installed zstd s ts)
    (t : Installation) :
    Installed zstd (t.install s).2 (if (t.install s).1 = some t.key then t :: ts else ts)

structure Guarded (s : Translations) (ts : List Installation) : Prop where
  wellFormed : WellFormed s.cache
  watching : s.guard.Watching
  live : ∀ t ∈ ts, t.key ∈ s.cache.entries → s.cache.isLiveKey t.key
  tracked : ∀ t ∈ ts, ∀ i, i < t.guestBytes.length → t.guestAddr.toNat + i < 2 ^ 64 →
    s.guard.isTracked (t.guestAddr + BitVec.ofNat 64 i)

variable {zstd : Zstd} {s : Translations} {ts : List Installation} {t : Installation}

theorem upsert_isLiveKey (h : WellFormed c) (ha : a ≠ key → a ∈ c.entries → c.isLiveKey a)
    (hm : a ∈ (c.upsert walk key entry).entries) : (c.upsert walk key entry).isLiveKey a := by
  refine maybeEvict_isLiveKey h.dropPrevious_store ?_ hm
  rw [isLiveKey_iff]
  by_cases hk : a = key
  case pos =>
    subst hk
    exact lookup_insert _
  case neg =>
    have hd : a ∈ (c.dropPrevious key).entries :=
      ((mem_insert _).mp ((Drops.maybeEvict _ walk).mem hm)).resolve_left hk
    have hl := ha hk ((Drops.dropPrevious c key).mem hd)
    -- the entry that the address had before is dropped
    have haddr : a.1 ≠ key.1 := by
      intro he
      rw [← lookup_isSome, dropPrevious_lookup, if_pos ⟨hk, he, hl⟩] at hd
      cases hd
    have hs : ((c.dropPrevious key).store key entry).addrToHash.lookup a.1 =
        (c.dropPrevious key).addrToHash.lookup a.1 := lookup_insert_ne haddr
    rw [hs, dropPrevious_addrToHash, isLiveKey_iff.mp hl]

theorem Guarded.install (h : Guarded s ts) (t : Installation) :
    Guarded (t.install s).2 (if (t.install s).1 = some t.key then t :: ts else ts) := by
  unfold Installation.install installTranslation
  split
  case isTrue => exact h
  case isFalse hg =>
    split
    case isTrue => exact h
    case isFalse =>
      dsimp only
      have hk : some (t.guestAddr, fnv1a64 t.guestBytes) = some t.key := rfl
      rw [if_pos hk]
      constructor
      case wellFormed => exact h.wellFormed.upsert
      case watching => exact h.watching.onTranslate ..
      case live =>
        intro t' ht' hm
        refine upsert_isLiveKey h.wellFormed (fun hne hm => ?_) hm
        cases ht' with
        | head => exact absurd rfl hne
        | tail _ ht' => exact h.live t' ht' hm
      case tracked =>
        intro t' ht' i hi hlt
        cases ht' with
        | head =>
          refine SmcGuard.onTranslate_covers h.watching ?_ hlt
          rw [toNat_ofNat]
          omega
        | tail _ ht' => exact SmcGuard.onTranslate_isTracked (h.tracked t' ht' i hi hlt) ..

theorem Installed.guarded (h : Installed zstd s ts) : Guarded s ts := by
  induction h with
  | start h => exact ⟨h.wellFormed, .new, nofun, nofun⟩
  | install _ t hi => exact hi.install t

theorem cache_afterFault (h : s.guard.Watching) :
    (s.handleFault a).2.applySmcInvalidations.2.cache =
      if s.guard.isTracked a then s.cache.invalidatePage (s.guard.pageBase a) 4096
      else s.cache := by
  have ⟨hs, hp⟩ := @SmcGuard.handleFault_pendingPages s.guard a h
  change (s.guard.handleFault a).2.pendingPages.foldl
    (·.invalidatePage · (s.guard.handleFault a).2.pageSize.toNat) s.cache = _
  rw [hp, hs]
  split <;> rfl

-- A write to a byte of an installed translation drops the translation from the cache, exactly if
-- the byte is in the page in which the translation starts, and that is not the last address.
theorem handleFault_drops_iff (h : Installed zstd s ts) (ht : t ∈ ts) {i : Nat}
    (hi : i < t.guestBytes.length) :
    (s.handleFault (t.guestAddr + BitVec.ofNat 64 i)).2.applySmcInvalidations.2.cache.containsKey
        t.key = false ↔
      s.cache.containsKey t.key = false ∨
        s.guard.pageBase t.guestAddr = s.guard.pageBase (t.guestAddr + BitVec.ofNat 64 i) ∧
          t.guestAddr ≠ BitVec.allOnes 64 := by
  have hg := h.guarded
  have hsize := hg.watching.pageSize
  have hstart : s.guard.isTracked t.guestAddr := by
    have hz : t.guestAddr + BitVec.ofNat 64 0 = t.guestAddr := add_zero t.guestAddr
    exact hz ▸ hg.tracked t ht 0 (by omega) t.guestAddr.isLt
  rw [cache_afterFault hg.watching]
  cases hk : s.cache.containsKey t.key with
  | false =>
    refine ⟨fun _ => .inl rfl, fun _ => ?_⟩
    rw [containsKey, Option.isSome_eq_false_iff, Option.isNone_iff_eq_none] at hk
    split
    case isTrue => simp [containsKey, invalidatePage_lookup, hk]
    case isFalse => simp [containsKey, hk]
  | true =>
    have hlive := hg.live t ht (lookup_isSome.mp hk)
    split
    case isTrue =>
      have ha : t.key.1 = t.guestAddr := rfl
      rw [containsKey, invalidatePage_lookup, ha, ← SmcGuard.inPage_pageBase hsize]
      rw [containsKey] at hk
      cases hp : inPage (s.guard.pageBase (t.guestAddr + BitVec.ofNat 64 i)) 4096 t.guestAddr <;>
        simp [hlive, hk]
    case isFalse hn =>
      -- the page in which the translation starts is tracked
      refine ⟨fun hf => absurd (hk.symm.trans hf) (by simp), fun hf => absurd ?_ hn⟩
      obtain ⟨hp, _⟩ := hf.resolve_left (by simp)
      rw [SmcGuard.isTracked, ← hp]
      exact hstart

def oneBlock : Installation :=
  ⟨.stored, 0x1FFF, [0xEB, 0xFE], [0xAA]⟩

theorem oneBlock_installed (zstd : Zstd) :
    Installed zstd (oneBlock.install ⟨.new, SmcGuard.new.enable⟩).2 [oneBlock] :=
  .install (.start .new) oneBlock

theorem handleFault_drops_iff_first :
    ((oneBlock.install ⟨.new, SmcGuard.new.enable⟩).2.handleFault
      0x1FFF).2.applySmcInvalidations.2.cache.containsKey oneBlock.key = false :=
  (handleFault_drops_iff (oneBlock_installed ⟨fun _ _ => none, fun _ => none, by simp⟩)
    (t := oneBlock) (i := 0) List.mem_cons_self (by decide)).mpr (.inr ⟨rfl, by decide⟩)

-- The second byte is in the next page, and the block starts in the page before it.
theorem handleFault_keeps : ¬∀ (zstd : Zstd) (s : Translations) (ts : List Installation)
    (t : Installation) (i : Nat), Installed zstd s ts → t ∈ ts → i < t.guestBytes.length →
      (s.handleFault (t.guestAddr + BitVec.ofNat 64 i)).2.applySmcInvalidations.2.cache.containsKey
        t.key = false := by
  intro h
  have hf := h _ _ _ oneBlock 1 (oneBlock_installed ⟨fun _ _ => none, fun _ => none, by simp⟩)
    List.mem_cons_self (by decide)
  revert hf
  decide +kernel

end Translations

end Prisma
