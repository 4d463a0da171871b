import Prisma.Cache.Theorems.Load

-- A file that was saved brings back the live entries.

namespace Prisma

open List AList

-- Decompression inverts compression. Only vectors of less than 4 GiB are ever compressed.
def Zstd.Inverts (zstd : Zstd) : Prop :=
  ∀ (bytes : List U8) (level : Int), bytes.length < 2 ^ 32 →
    decompress zstd (compress zstd bytes level) = some bytes

namespace TranslationCache

open CacheFile

variable (zstd : Zstd) (walk : EntryWalk) (c : TranslationCache)

section Records

-- What stands in the file for the code of an entry.
def frame (entry : CacheEntry) : List U8 :=
  if c.compressOnSave then compress zstd entry.codeBytes 3 else entry.codeBytes

def savedRecord (x : Σ _ : CacheKey, CacheEntry) : Record where
  header :=
    { guestAddr := x.1.1
      contentHash := x.1.2
      guestSize := x.2.guestSize.setWidth 64
      storedSize := BitVec.ofNat 64 (c.frame zstd x.2).length
      uncompressedSize := BitVec.ofNat 64 x.2.codeBytes.length }
  frame := c.frame zstd x.2

def savedHeader : FileHeader where
  version := 2
  flags := if c.compressOnSave then 1 else 0
  cpuFp := 0
  count := BitVec.ofNat 64 c.liveEntryCount

abbrev liveEntries : List (Σ _ : CacheKey, CacheEntry) :=
  (walk.order c.entries.entries).filter (c.isLiveKey ·.1)

def savedRecords : List Record :=
  (c.liveEntries walk).map (c.savedRecord zstd)

def savedSize : Nat :=
  32 + c.live.weight fun x => 40 + (c.frame zstd x.2).length

end Records

-- The loaded cache holds the live entries and no others.
structure Restores (loaded : TranslationCache) : Prop where
  addrToHash : ∀ addr, loaded.addrToHash.lookup addr = c.addrToHash.lookup addr
  entries : ∀ key, (loaded.entries.lookup key).map (fun e => (e.guestSize, e.codeBytes)) =
    (c.live.lookup key).map fun e => (e.guestSize, e.codeBytes)

variable {zstd walk c} {key : CacheKey} {e : CacheEntry} {x : Σ _ : CacheKey, CacheEntry}

section Save

theorem payload_ok (hz : zstd.Inverts) (he : e.codeBytes.length < 2 ^ 32) :
    c.payload zstd e = .ok (c.frame zstd e) := by
  unfold payload frame
  split
  case isFalse => rfl
  case isTrue =>
    have hd := hz e.codeBytes 3 he
    cases hc : compress zstd e.codeBytes 3 with
    | cons => rfl
    | nil =>
      -- only the empty vector compresses to the empty vector
      rw [hc] at hd
      have hb : [] = e.codeBytes := Option.some.inj hd
      rw [← hb]
      rfl

theorem saveEntry_ok (hz : zstd.Inverts) (he : x.2.codeBytes.length < 2 ^ 32) :
    c.saveEntry zstd x.1 x.2 = .ok ((c.savedRecord zstd x).bytes 2) := by
  rw [saveEntry, payload_ok hz he]
  simp [Record.bytes, EntryHeader.bytes, savedRecord, writeLen, Except.bind, bind, pure, Except.pure]

theorem mapM_saveEntry (hz : zstd.Inverts) {l : List (Σ _ : CacheKey, CacheEntry)}
    (hs : ∀ x ∈ l, x.2.codeBytes.length < 2 ^ 32) :
    l.mapM (fun x => c.saveEntry zstd x.1 x.2) =
      .ok (l.map fun x => (c.savedRecord zstd x).bytes 2) := by
  induction l with
  | nil => rfl
  | cons x l hi =>
    have ⟨hx, hl⟩ := forall_mem_cons.mp hs
    rw [mapM_cons, saveEntry_ok hz hx, hi hl]
    rfl

def savedFile (zstd : Zstd) (walk : EntryWalk) (c : TranslationCache) : List U8 :=
  c.savedHeader.bytes ++ (c.savedRecords zstd walk).flatMap (Record.bytes 2)

theorem saveToFile_eq (hz : zstd.Inverts)
    (hs : ∀ key e, c.entries.lookup key = some e → e.codeBytes.length < 2 ^ 32) :
    c.saveToFile zstd walk =
      if h : (c.savedFile zstd walk).length < 2 ^ 63 then some (.ok ⟨c.savedFile zstd walk, h⟩)
      else none := by
  have hl : ∀ x ∈ c.liveEntries walk, x.2.codeBytes.length < 2 ^ 32 :=
    fun x hx => hs x.1 x.2 (lookup_eq_some.mpr (Walk.mem_order.mp (mem_filter.mp hx).1))
  have hf : c.saveHeader ++ ((c.liveEntries walk).map fun x =>
      (c.savedRecord zstd x).bytes 2).flatten = c.savedFile zstd walk := by
    rw [savedFile, savedRecords, flatMap_map, ← flatMap_def]
    rfl
  rw [saveToFile, mapM_saveEntry hz hl]
  simp only [hf]

theorem length_savedFile : (c.savedFile zstd walk).length = c.savedSize zstd := by
  have hp := ((walk.perm c.entries.entries).filter (c.isLiveKey ·.1)).map
    fun x => 40 + (c.frame zstd x.2).length
  rw [savedFile, length_append, length_fileHeader, savedSize]
  refine congrArg (32 + ·) (Eq.trans ?_ hp.sum_eq)
  rw [length_flatMap, savedRecords, map_map]
  refine congrArg List.sum (map_congr_left fun x _ => ?_)
  rw [Function.comp_apply, Record.bytes, length_append, length_entryHeader]
  rfl

end Save

section Records

theorem mem_live : x ∈ c.liveEntries walk ↔ c.live.lookup x.1 = some x.2 := by
  rw [live, lookup_eq_some, AList.filterKeys, mem_filter, mem_filter, Walk.mem_order]

theorem length_savedRecords : (c.savedRecords zstd walk).length = c.liveEntryCount := by
  have hp := ((walk.perm c.entries.entries).filter (c.isLiveKey ·.1)).length_eq
  rw [savedRecords, length_map, hp, liveEntryCount, countP_eq_length_filter, AList.keys,
    List.keys, filter_map, length_map]
  rfl

theorem savedHeader_compressed : c.savedHeader.compressed = c.compressOnSave := by
  unfold savedHeader FileHeader.compressed
  cases c.compressOnSave <;> simp

theorem length_frame (he : e.codeBytes.length < 2 ^ 32) : (c.frame zstd e).length < 2 ^ 64 := by
  unfold frame compress
  split
  case isFalse => omega
  case isTrue =>
    split
    case isTrue => exact Nat.two_pow_pos 64
    case isFalse =>
      cases hz : zstd.encode e.codeBytes 3 with
      | none => exact Nat.two_pow_pos 64
      | some bytes => exact (zstd.encode_length hz).trans (by decide)

theorem savedRecord_code (hz : zstd.Inverts) (he : x.2.codeBytes.length < 2 ^ 32) :
    (c.savedRecord zstd x).code zstd c.compressOnSave = some x.2.codeBytes := by
  unfold Record.code savedRecord frame
  cases c.compressOnSave with
  | false =>
    simp
    omega
  | true =>
    simp [hz x.2.codeBytes 3 he]
    omega

theorem savedFile_startsWith (hz : zstd.Inverts)
    (hs : ∀ key e, c.entries.lookup key = some e → e.codeBytes.length < 2 ^ 32) :
    StartsWith zstd (c.savedFile zstd walk) c.savedHeader (c.savedRecords zstd walk) where
  bytes := prefix_rfl
  supported := .inr rfl
  valid r hr := by
    have ⟨x, hx, hr⟩ := mem_map.mp hr
    have he : x.2.codeBytes.length < 2 ^ 32 :=
      hs x.1 x.2 (lookup_eq_some.mpr (Walk.mem_order.mp (mem_filter.mp hx).1))
    subst hr
    rw [savedHeader_compressed]
    refine ⟨Nat.mod_eq_of_lt (length_frame he), ?_⟩
    rw [savedRecord_code hz he]
    rfl

theorem savedFile_count (h : (c.savedFile zstd walk).length < 2 ^ 63) :
    (c.savedRecords zstd walk).length = c.savedHeader.count.toNat := by
  have hl : (c.savedRecords zstd walk).length ≤
      ((c.savedRecords zstd walk).flatMap (Record.bytes 2)).length := by
    rw [length_flatMap, ← length_map fun r => (Record.bytes 2 r).length]
    refine length_le_sum_of_one_le _ fun n hn => ?_
    have ⟨r, _, hr⟩ := mem_map.mp hn
    rw [← hr, Record.bytes, length_append, length_entryHeader, if_pos rfl]
    omega
  rw [savedFile, length_append] at h
  refine Eq.trans ?_ (Nat.mod_eq_of_lt (a := c.liveEntryCount) (b := 2 ^ 64) ?_).symm
  · exact length_savedRecords
  · rw [← @length_savedRecords zstd walk c]
    omega

end Records

section Restore

variable {compressed : Bool}

theorem loadedTables_fst : (loadedTables zstd compressed (c.savedRecords zstd walk)).1 =
    (c.liveEntries walk).foldl
      (fun s x => s.insert x.1 ((c.savedRecord zstd x).entry zstd compressed)) ∅ := by
  rw [loadedTables, savedRecords, foldl_map]
  exact (foldl_hom Prod.fst fun _ _ => rfl).symm

theorem loadedTables_snd : (loadedTables zstd compressed (c.savedRecords zstd walk)).2 =
    (c.liveEntries walk).foldl (fun s x => s.insert x.1.1 x.1.2) ∅ := by
  rw [loadedTables, savedRecords, foldl_map]
  exact (foldl_hom Prod.snd fun _ _ => rfl).symm

theorem loadedTables_lookup (hl : c.live.lookup key = some e) :
    (loadedTables zstd compressed (c.savedRecords zstd walk)).1.lookup key =
      some ((c.savedRecord zstd ⟨key, e⟩).entry zstd compressed) := by
  have hm := (@mem_live walk c ⟨key, e⟩).mpr hl
  rw [loadedTables_fst]
  refine lookup_foldl_insert_of_mem ?_ (mem_map_of_mem hm)
  -- the entries of the table have different keys
  rintro ⟨_, e'⟩ hx rfl
  cases hl.symm.trans (mem_live.mp hx)
  rfl

theorem loadedTables_lookup_none (hl : c.live.lookup key = none) :
    (loadedTables zstd compressed (c.savedRecords zstd walk)).1.lookup key = none := by
  rw [loadedTables_fst, lookup_foldl_insert_of_notMem, lookup_empty]
  rintro x hx rfl
  cases hl.symm.trans (mem_live.mp hx)

theorem loadedTables_addr (h : WellFormed c) :
    (loadedTables zstd compressed (c.savedRecords zstd walk)).2.lookup addr =
      c.addrToHash.lookup addr := by
  have hm : ∀ x ∈ c.liveEntries walk, x.1.1 = addr →
      c.addrToHash.lookup addr = some x.1.2 := by
    rintro x hx rfl
    exact isLiveKey_iff.mp (mem_filter.mp hx).2
  rw [loadedTables_snd]
  cases ha : c.addrToHash.lookup addr with
  | none =>
    rw [lookup_foldl_insert_of_notMem, lookup_empty]
    exact fun x hx hk => nomatch ha.symm.trans (hm x hx hk)
  | some hash =>
    have ⟨e, he⟩ := Option.isSome_iff_exists.mp (lookup_isSome.mpr (h.stored ha))
    have hl : c.live.lookup (addr, hash) = some e :=
      live_lookup_eq_some.mpr ⟨isLiveKey_iff.mpr ha, he⟩
    refine lookup_foldl_insert_of_mem (fun x hx hk => ?_)
      (mem_map.mpr ⟨⟨(addr, hash), e⟩, mem_live.mpr hl, rfl⟩)
    exact Option.some.inj ((hm x hx hk).symm.trans ha)

theorem Restores.install (hz : zstd.Inverts) (h : WellFormed c)
    (hs : ∀ key e, c.entries.lookup key = some e → e.codeBytes.length < 2 ^ 32)
    (c' : TranslationCache) (walk' : EntryWalk) :
    Restores c (c'.install walk' (loadedTables zstd c.compressOnSave (c.savedRecords zstd walk))) where
  addrToHash _ := loadedTables_addr h
  entries key := by
    rw [map_install_lookup fun _ _ => rfl]
    cases hl : c.live.lookup key with
    | none => rw [loadedTables_lookup_none hl]
    | some e =>
      have he := hs key e (live_lookup_eq_some.mp hl).2
      rw [loadedTables_lookup hl, Record.entry, savedRecord_code hz he]
      simp [EntryHeader.entry, savedRecord]

end Restore

-- Saving fails only where the file is too large for a vector. A file that was saved restores the
-- live entries in any cache.
theorem loadFromFile_saveToFile (hz : zstd.Inverts) (h : Reachable zstd (fun _ _ => True) c)
    (hs : ∀ key e, c.entries.lookup key = some e → e.codeBytes.length < 2 ^ 32) :
    (c.saveToFile zstd walk = none ↔ 2 ^ 63 ≤ c.savedSize zstd) ∧
    ∀ result, c.saveToFile zstd walk = some result → ∃ content, result = .ok content ∧
      ∀ c' walk', ∃ loaded, loadFromFile zstd walk' c' (.content content) = some (none, loaded) ∧
        Restores c loaded := by
  rw [saveToFile_eq hz hs, ← @length_savedFile zstd walk c]
  constructor
  case left => simp
  case right =>
    intro result hr
    split at hr
    case isFalse => cases hr
    case isTrue hl =>
      cases hr
      refine ⟨_, rfl, fun c' walk' => ?_⟩
      have hr := @Restores.install zstd walk c hz h.wellFormed hs c' walk'
      refine ⟨_, ?_, hr⟩
      rw [← savedHeader_compressed]
      exact loadFromFile_ok.mpr
        ⟨_, _, ⟨_, rfl, savedFile_startsWith hz hs, savedFile_count hl⟩, rfl⟩

-- A compression that puts one byte in front.
def prefixed : Zstd where
  encode bytes _ := if bytes.length < 2 ^ 32 then some (0 :: bytes) else none
  decode frame := some frame.tail
  encode_length h := by
    have ⟨hl, hf⟩ := Option.ite_none_right_eq_some.mp h
    rw [← Option.some.inj hf, length_cons]
    omega

theorem prefixed_inverts : prefixed.Inverts := by
  intro bytes level h
  cases bytes with
  | nil => rfl
  | cons b bytes => simp_all [compress, decompress, prefixed]

-- One compressed entry
theorem loadFromFile_saveToFile_compressed :
    let c := ((TranslationCache.new.setCompressOnSave true).insert .stored (0x1000, 1)
      ⟨0x1000, 1, 1, [0xC3], 0, 0⟩).2
    ∃ content, c.saveToFile prefixed .stored = some (.ok content) ∧ ∀ c' walk', ∃ loaded,
      loadFromFile prefixed walk' c' (.content content) = some (none, loaded) ∧
        Restores c loaded := by
  intro c
  have h₁ : Reachable prefixed (fun _ _ => True) (CacheCall.apply prefixed .stored .new
      (.setCompressOnSave true)) := .call .new trivial .stored
  have h₂ : Reachable prefixed (fun _ _ => True) c :=
    @Reachable.call _ _ _ (.insert (0x1000, 1) ⟨0x1000, 1, 1, [0xC3], 0, 0⟩) h₁ trivial .stored
  have hs : ∀ key e, c.entries.lookup key = some e → e.codeBytes.length < 2 ^ 32 := by
    intro key e he
    have hm := lookup_eq_some.mp he
    cases mem_singleton.mp hm
    decide
  have ⟨hn, hr⟩ := @loadFromFile_saveToFile prefixed .stored c prefixed_inverts h₂ hs
  have ⟨result, hsome⟩ := Option.ne_none_iff_exists'.mp fun h => absurd (hn.mp h) (by decide +kernel)
  have ⟨content, hc, hl⟩ := hr result hsome
  exact ⟨content, hc ▸ hsome, hl⟩

end TranslationCache

end Prisma
