import Prisma.Cache.Theorems.Load

-- The limits of the cache.

namespace Prisma.TranslationCache

open CacheFile

variable {zstd : Zstd} {walk : EntryWalk} {c c' : TranslationCache} {key : CacheKey}
  {entry : CacheEntry}

-- The number of entries and the number of code bytes are within the limits that are set.
structure WithinLimits (c : TranslationCache) : Prop where
  entries : c.maxEntries ≠ 0 → c.entries.size ≤ c.maxEntries
  bytes : c.maxBytes ≠ 0 → c.totalCodeBytes ≤ c.maxBytes

-- If the call loads a file, then what the records of the file hold is within the limits.
def Fits (zstd : Zstd) (c : TranslationCache) (call : CacheCall) : Prop :=
  ∀ file header records, call = .loadFromFile file → file.Holds zstd header records →
    (c.maxEntries ≠ 0 → (held zstd header.compressed records).size ≤ c.maxEntries) ∧
      (c.maxBytes ≠ 0 →
        (held zstd header.compressed records).weight (·.2.length) ≤ c.maxBytes)

theorem withinLimits_iff : WithinLimits c ↔ c.overLimits = false := by
  rw [overLimits_eq_false]
  exact ⟨fun h => ⟨h.entries, h.bytes⟩, fun h => ⟨h.left, h.right⟩⟩

namespace WithinLimits

theorem drops (h : WithinLimits c) (hd : Drops c c') : WithinLimits c' :=
  withinLimits_iff.mpr (hd.fits (withinLimits_iff.mp h))

theorem maybeEvict : WithinLimits (c.maybeEvict walk) :=
  withinLimits_iff.mpr maybeEvict_fits

theorem new : WithinLimits .new :=
  ⟨absurd rfl, absurd rfl⟩

theorem clear : WithinLimits c.clear :=
  ⟨fun _ => Nat.zero_le _, fun _ => Nat.zero_le _⟩

variable (h : WithinLimits c)

include h

theorem stamp (hl : c.entries.lookup key = some entry) :
    WithinLimits (c.stamp key entry) := by
  have hm : key ∈ c.entries := AList.lookup_isSome.mp (Option.isSome_of_eq_some hl)
  have hw : (c.stamp key entry).totalCodeBytes = c.totalCodeBytes := by
    rw [totalCodeBytes, totalCodeBytes, AList.weight_eq_add_erase hl]
    exact AList.weight_insert _
  refine ⟨fun he => ?_, fun hb => ?_⟩
  case refine_1 => exact (AList.size_insert_of_mem _ hm).trans_le (h.entries he)
  case refine_2 => exact hw.trans_le (h.bytes hb)

theorem lookup (guestAddr : U64) (guestBytes : List U8) :
    WithinLimits (c.lookup guestAddr guestBytes).2 := by
  unfold TranslationCache.lookup
  grind [WithinLimits.stamp]

theorem touch : WithinLimits (c.touch key).2 := by
  unfold TranslationCache.touch
  split
  case h_1 => exact h
  case h_2 hl => exact h.stamp hl

theorem insert : WithinLimits (c.insert walk key entry).2 := by
  unfold TranslationCache.insert
  split
  case isTrue => exact h
  case isFalse => exact .maybeEvict

theorem resetHitCounts : WithinLimits c.resetHitCounts := by
  refine ⟨fun he => ?_, fun hb => ?_⟩
  case refine_1 => exact (AList.size_map _).trans_le (h.entries he)
  case refine_2 => exact (AList.weight_map _).trans_le (h.bytes hb)

theorem apply {call : CacheCall} (hc : ∀ file, call ≠ .loadFromFile file) :
    WithinLimits (call.apply zstd walk c) := by
  cases call with
  | setMaxEntries _ | setMaxBytes _ | setLimits _ _ | upsert _ _ => exact .maybeEvict
  | clear => exact .clear
  | lookup guestAddr guestBytes => exact h.lookup guestAddr guestBytes
  | insert key entry => exact h.insert
  | invalidate key => exact h.drops (.invalidate c key)
  | touch key => exact h.touch
  | invalidatePage pageAddr pageSize => exact h.drops (.invalidatePage c pageAddr pageSize)
  | resetHitCounts => exact h.resetHitCounts
  | compact => exact h.drops (.compact c)
  | setCompressOnSave on => exact ⟨h.entries, h.bytes⟩
  | loadFromFile file => exact absurd rfl (hc file)

end WithinLimits

theorem withinLimits_install :
    WithinLimits (c.install walk (loadedTables zstd compressed records)) ↔
      (c.maxEntries ≠ 0 → (held zstd compressed records).size ≤ c.maxEntries) ∧
        (c.maxBytes ≠ 0 → (held zstd compressed records).weight (·.2.length) ≤ c.maxBytes) := by
  rw [← map_loadedTables, AList.size_map, AList.weight_map, withinLimits_iff, overLimits_eq_false,
    install_size, install_totalCodeBytes]
  rfl

theorem withinLimits_load (h : WithinLimits c) (file : FileRead) :
    WithinLimits (CacheCall.apply zstd walk c (.loadFromFile file)) ↔
      Fits zstd c (.loadFromFile file) := by
  refine ⟨fun hw file' header records hfile hf => ?_, fun hf => ?_⟩
  case refine_1 =>
    cases hfile
    rw [apply_loadFromFile_of_holds hf] at hw
    exact withinLimits_install.mp hw
  case refine_2 =>
    obtain hl | ⟨header, records, hr, hl⟩ := apply_loadFromFile zstd walk c file
    · rw [hl]
      exact h
    · rw [hl]
      exact withinLimits_install.mpr (hf file header records rfl hr)

theorem withinLimits_apply (h : WithinLimits c) (walk : EntryWalk) (call : CacheCall) :
    WithinLimits (CacheCall.apply zstd walk c call) ↔ Fits zstd c call := by
  by_cases hc : ∃ file, call = .loadFromFile file
  case pos =>
    obtain ⟨file, rfl⟩ := hc
    exact withinLimits_load h file
  case neg =>
    refine ⟨fun _ file header records hfile => absurd ⟨file, hfile⟩ hc, fun _ => ?_⟩
    exact h.apply fun file hfile => hc ⟨file, hfile⟩

-- As long as every file that is loaded fits, the cache stays within its limits; a file that does not
-- fit takes it beyond them.
theorem withinLimits_iff_fits (h : Reachable zstd (Fits zstd) c) :
    WithinLimits c ∧
      ∀ walk call, WithinLimits (CacheCall.apply zstd walk c call) ↔ Fits zstd c call := by
  have hw : WithinLimits c := by
    induction h with
    | new => exact .new
    | call _ hp walk hi => exact (withinLimits_apply hi walk _).mpr hp
  exact ⟨hw, withinLimits_apply hw⟩

theorem withinLimits_iff_fits_insert :
    WithinLimits ((TranslationCache.new.setMaxEntries .stored 1).insert .stored (0x1000, 1)
      ⟨0x1000, 1, 1, [0xC3], 0, 0⟩).2 := by
  let zstd : Zstd := ⟨fun _ _ => none, fun _ => none, nofun⟩
  have h₁ : Reachable zstd (Fits zstd) (CacheCall.apply zstd .stored .new (.setMaxEntries 1)) :=
    .call .new nofun .stored
  have h₂ := (withinLimits_iff_fits h₁).right .stored
    (.insert (0x1000, 1) ⟨0x1000, 1, 1, [0xC3], 0, 0⟩)
  exact h₂.mpr nofun

def twoEntryFile : FileRead :=
  .content ⟨FileHeader.bytes ⟨2, 0, 0, 2⟩ ++
    Record.bytes 2 ⟨⟨0x1000, 1, 1, 1, 1⟩, [0xC3]⟩ ++ Record.bytes 2 ⟨⟨0x2000, 1, 1, 1, 1⟩, [0xC3]⟩,
    by decide⟩

-- Loading does not look at the limits.
theorem not_withinLimits_load : ¬∀ (zstd : Zstd) (c : TranslationCache),
    Reachable zstd (fun _ _ => True) c → WithinLimits c := by
  intro h
  let zstd : Zstd := ⟨fun _ _ => none, fun _ => none, nofun⟩
  let limited := CacheCall.apply zstd .stored .new (.setMaxEntries 1)
  have h₁ : Reachable zstd (fun _ _ => True) limited := .call .new trivial .stored
  have h₂ : Reachable zstd (fun _ _ => True)
      (CacheCall.apply zstd .stored limited (.loadFromFile twoEntryFile)) :=
    .call h₁ trivial .stored
  exact absurd ((h zstd _ h₂).entries (by decide +kernel)) (by decide +kernel)

end Prisma.TranslationCache
