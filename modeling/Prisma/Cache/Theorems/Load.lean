import Prisma.Cache.Theorems.Read
import Prisma.Cache.Theorems.WellFormed

-- What loading a file does to the cache.

namespace Prisma.TranslationCache

open CacheFile Fallible Option AList

variable {zstd : Zstd} {walk : EntryWalk} {c c' : TranslationCache} {file : FileRead}

def loadedTables (zstd : Zstd) (compressed : Bool) (records : List Record) : Tables :=
  records.foldl (Tables.addRecord zstd compressed) (∅, ∅)

section Outcome

theorem loadFromFile_eq_none : c.loadFromFile zstd walk file = none ↔ file.Oversized zstd := by
  cases file with
  | openFailed | readFailed =>
    simp [loadFromFile, FileRead.Oversized]
  | content input =>
    have hp := @readFile_panics input.1 zstd input.2
    have hn : c.loadFromFile zstd walk (.content input) = none ↔ Panics (readFile zstd input.1) := by
      unfold loadFromFile Panics
      dsimp only
      split <;> simp_all
    rw [hn, hp]
    simp [FileRead.Oversized]

theorem loadFromFile_error (h : c.loadFromFile zstd walk file = some (some e, c')) : c' = c := by
  unfold loadFromFile at h
  split at h
  case h_1 | h_2 => cases h; rfl
  case h_3 =>
    split at h
    case h_1 => cases h
    case h_2 => cases h; rfl
    case h_3 => cases h

theorem loadFromFile_ok : c.loadFromFile zstd walk file = some (none, c') ↔
    ∃ header records, file.Holds zstd header records ∧
      c' = c.install walk (loadedTables zstd header.compressed records) := by
  cases file with
  | openFailed | readFailed => simp [loadFromFile, FileRead.Holds]
  | content input =>
    have hr := fun tables => @readFile_returns input.1 zstd tables input.2
    have hc : c.loadFromFile zstd walk (.content input) = some (none, c') ↔
        ∃ tables, Returns (readFile zstd input.1) tables ∧ c' = c.install walk tables := by
      unfold loadFromFile Returns
      dsimp only
      split <;> simp_all [eq_comm]
    rw [hc]
    constructor
    case mp =>
      rintro ⟨tables, ht, rfl⟩
      obtain ⟨header, records, hs, hl, ht⟩ := (hr tables).mp ht
      exact ⟨header, records, ⟨input, rfl, hs, hl⟩, ht ▸ rfl⟩
    case mpr =>
      rintro ⟨header, records, ⟨_, hi, hs, hl⟩, rfl⟩
      cases hi
      exact ⟨_, (hr _).mpr ⟨header, records, hs, hl, rfl⟩, rfl⟩

theorem apply_loadFromFile (zstd : Zstd) (walk : EntryWalk) (c : TranslationCache)
    (file : FileRead) :
    CacheCall.apply zstd walk c (.loadFromFile file) = c ∨
      ∃ header records, file.Holds zstd header records ∧
        CacheCall.apply zstd walk c (.loadFromFile file) =
          c.install walk (loadedTables zstd header.compressed records) := by
  change (Option.map _ _).getD c = c ∨ ∃ header records, _ ∧ (Option.map _ _).getD c = _
  cases hl : c.loadFromFile zstd walk file with
  | none => exact .inl rfl
  | some out =>
    obtain ⟨_ | e, c'⟩ := out
    · have ⟨header, records, hf, hc⟩ := loadFromFile_ok.mp hl
      exact .inr ⟨header, records, hf, hc⟩
    · exact .inl (loadFromFile_error hl)

theorem apply_loadFromFile_of_holds (h : file.Holds zstd header records) :
    CacheCall.apply zstd walk c (.loadFromFile file) =
      c.install walk (loadedTables zstd header.compressed records) := by
  have hl := (@loadFromFile_ok zstd walk c _ file).mpr ⟨header, records, h, rfl⟩
  change (Option.map _ _).getD c = _
  rw [hl]
  rfl

-- Loading returns, and leaves the cache alone if it fails, exactly if no entry of the file is
-- oversized.
theorem loadFromFile_returns_iff (zstd : Zstd) (walk : EntryWalk) (file : FileRead)
    (c : TranslationCache) :
    (∃ result c', c.loadFromFile zstd walk file = some (result, c') ∧ (result ≠ none → c' = c)) ↔
      ¬file.Oversized zstd := by
  rw [← @loadFromFile_eq_none zstd walk c]
  constructor
  case mp =>
    rintro ⟨result, c', h, _⟩ hn
    cases hn.symm.trans h
  case mpr =>
    intro h
    have ⟨⟨result, c'⟩, hr⟩ := ne_none_iff_exists'.mp h
    refine ⟨result, c', hr, fun he => ?_⟩
    have ⟨e, he⟩ := ne_none_iff_exists'.mp he
    exact loadFromFile_error (he ▸ hr)

-- One record that announces 2 ^ 64 - 1 bytes of code.
def oversizedFile : FileRead :=
  .content ⟨FileHeader.bytes ⟨2, 0, 0, 1⟩ ++ EntryHeader.bytes 2 ⟨0, 0, 0, -1, 0⟩, by decide⟩

theorem loadFromFile_panics : ¬∀ (zstd : Zstd) (walk : EntryWalk) (file : FileRead)
    (c : TranslationCache), ∃ result c', c.loadFromFile zstd walk file = some (result, c') ∧
      (result ≠ none → c' = c) := by
  intro h
  have ⟨result, c', h, _⟩ := h ⟨fun _ _ => none, fun _ => none, nofun⟩ .stored oversizedFile .new
  have hn : TranslationCache.new.loadFromFile ⟨fun _ _ => none, fun _ => none, nofun⟩ .stored
      oversizedFile = none := by
    decide
  cases hn.symm.trans h

end Outcome

section Records

variable {compressed : Bool} {tables : Tables} {records : List Record} {header : FileHeader}

theorem loadedTables_consistent :
    Consistent (loadedTables zstd compressed records).1 (loadedTables zstd compressed records).2 := by
  refine List.foldlRecOn (motive := fun tables : Tables => Consistent tables.1 tables.2) records _
    WellFormed.new fun tables h r _ => ?_
  exact .insert h.guestAddr (fun _ => h.stored) rfl

theorem map_loadedTables : (loadedTables zstd compressed records).1.map (fun _ e => e.codeBytes) =
    held zstd compressed records := by
  refine (List.foldl_hom (fun tables : Tables => tables.1.map fun _ e => e.codeBytes)
    fun tables r => ?_).symm
  exact (@AList.map_insert _ _ tables.1 _ r.header.key _ (fun _ e => e.codeBytes)
    (r.entry zstd compressed)).symm

theorem install_lookup :
    (c.install walk tables).entries.lookup key = some e →
      ∃ tick e', tables.1.lookup key = some e' ∧ e = { e' with lastUsed := tick } := by
  intro h
  have ⟨tick, e', hl, he⟩ := lookup_mapIdx_eq_some.mp h
  refine ⟨tick, e', ?_, he.symm⟩
  rw [← @AList.lookup_reorder _ _ _ _ _ walk, lookup_eq_some]
  exact List.mem_of_getElem? hl

theorem mem_install : key ∈ (c.install walk tables).entries ↔ key ∈ tables.1 := by
  rw [← @AList.lookup_isSome _ _ _ _ tables.1, ← @AList.lookup_reorder _ _ _ _ _ walk,
    lookup_isSome]
  exact mem_mapIdx _

theorem map_install_lookup {α : Type} {f : CacheEntry → α} {key : CacheKey}
    (hf : ∀ e tick, f { e with lastUsed := tick } = f e) :
    ((c.install walk tables).entries.lookup key).map f = (tables.1.lookup key).map f := by
  cases h : (c.install walk tables).entries.lookup key with
  | none =>
    have hm : key ∉ tables.1 := mt mem_install.mpr (lookup_eq_none.mp h)
    rw [lookup_eq_none.mpr hm]
  | some e =>
    have ⟨tick, e', hl, he⟩ := install_lookup h
    rw [hl, he, map_some, map_some, hf]

theorem install_size : (c.install walk tables).entries.size = tables.1.size :=
  (size_mapIdx _).trans (size_reorder _)

theorem install_totalCodeBytes : (c.install walk tables).totalCodeBytes =
    tables.1.weight fun entry => entry.2.codeBytes.length := by
  refine (weight_mapIdx ?_).trans (weight_reorder _)
  exact fun _ _ _ => rfl

theorem WellFormed.install : WellFormed (c.install walk (loadedTables zstd compressed records)) where
  guestAddr hk := by
    have ⟨tick, e', hk, he⟩ := install_lookup hk
    have hg := loadedTables_consistent.guestAddr hk
    exact he ▸ hg
  stored ha := mem_install.mpr (loadedTables_consistent.stored ha)

end Records

section Calls

theorem WellFormed.apply (h : WellFormed c) (call : CacheCall) :
    WellFormed (call.apply zstd walk c) := by
  cases call with
  | setMaxEntries n => exact (h.limits n c.maxBytes).maybeEvict walk
  | setMaxBytes n => exact (h.limits c.maxEntries n).maybeEvict walk
  | setLimits maxEntries maxBytes => exact (h.limits maxEntries maxBytes).maybeEvict walk
  | clear => exact .clear
  | lookup guestAddr guestBytes => exact h.lookup guestAddr guestBytes
  | insert key entry => exact h.insert
  | upsert key entry => exact h.upsert
  | invalidate key => exact h.invalidate
  | touch key => exact h.touch
  | invalidatePage pageAddr pageSize => exact h.invalidatePage pageAddr pageSize
  | resetHitCounts => exact h.resetHitCounts
  | compact => exact h.compact
  | setCompressOnSave on => exact h
  | loadFromFile file =>
    obtain hl | ⟨header, records, _, hl⟩ := apply_loadFromFile zstd walk c file
    · rw [hl]
      exact h
    · rw [hl]
      exact .install

theorem Reachable.wellFormed {P : TranslationCache → CacheCall → Prop} (h : Reachable zstd P c) :
    WellFormed c := by
  induction h with
  | new => exact .new
  | call _ _ walk hi => exact hi.apply _

end Calls

end Prisma.TranslationCache
