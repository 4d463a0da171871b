import Prisma.Cache.Format

-- The reader of the cache file accepts what has the layout of one.

namespace Prisma.CacheFile

open Fallible List LittleEndian Option

variable {input : List U8} {i j : Nat}

section Fields

theorem append_isPrefix_iff : xs ++ ys <+: input ↔ xs <+: input ∧ ys <+: input.drop xs.length := by
  constructor
  case mp =>
    rintro ⟨rest, h⟩
    rw [← h, append_assoc]
    exact ⟨prefix_append .., by rw [drop_left]; exact prefix_append ..⟩
  case mpr =>
    rintro ⟨⟨rest, h⟩, hy⟩
    rw [← h, drop_left] at hy
    rw [← h]
    exact (prefix_append_right_inj xs).mpr hy

theorem append_prefix_drop :
    xs ++ ys <+: input.drop i ↔ xs <+: input.drop i ∧ ys <+: input.drop (i + xs.length) := by
  rw [append_isPrefix_iff, drop_drop]

theorem readLe_eq_some (hn : n < 256 ^ k) :
    readLe input k i = some (n, j) ↔ LittleEndian.encode k n <+: input.drop i ∧ j = i + k := by
  have hlen : (input.drop i).length = input.length - i := length_drop
  unfold readLe
  split
  case isTrue h =>
    refine ⟨nofun, fun ⟨hp, _⟩ => ?_⟩
    have := hp.length_le
    rw [length_encode] at this
    omega
  case isFalse h =>
    have ht : ((input.drop i).take k).length = k := by rw [length_take]; omega
    simp only [some_inj, Prod.mk.injEq, eq_comm (b := j)]
    refine and_congr_left fun _ => ⟨fun hd => ?_, fun hp => ?_⟩
    case refine_1 =>
      have he := @LittleEndian.encode_decode ((input.drop i).take k)
      rw [ht, hd] at he
      exact he ▸ take_prefix ..
    case refine_2 =>
      have he := prefix_iff_eq_take.mp hp
      rw [length_encode] at he
      rw [← he, decode_encode hn]

theorem readLe_lt (h : readLe input k i = some (n, j)) : n < 256 ^ k := by
  unfold readLe at h
  split at h
  case isTrue => cases h
  case isFalse hl =>
    cases h
    have hd := @LittleEndian.decode_lt ((input.drop i).take k)
    have ht : ((input.drop i).take k).length = k := by
      rw [length_take, length_drop]
      omega
    rwa [ht] at hd

theorem map_readLe_eq_some (hw : 2 ^ w = 256 ^ k) :
    (readLe input k i).map (fun (n, offset) => (BitVec.ofNat w n, offset)) = some (v, j) ↔
      LittleEndian.encode k v.toNat <+: input.drop i ∧ j = i + k := by
  rw [← readLe_eq_some (hw ▸ v.isLt), map_eq_some_iff]
  constructor
  case mp =>
    rintro ⟨⟨n, offset⟩, hr, he⟩
    have hn := readLe_lt hr
    cases he
    rw [BitVec.toNat_ofNat, Nat.mod_eq_of_lt (hw ▸ hn)]
    exact hr
  case mpr => exact fun hr => ⟨_, hr, by simp⟩

theorem readU32_eq_some : readU32 input i = some (v, j) ↔ writeU32 v <+: input.drop i ∧ j = i + 4 :=
  map_readLe_eq_some rfl

theorem readU64_eq_some : readU64 input i = some (v, j) ↔ writeU64 v <+: input.drop i ∧ j = i + 8 :=
  map_readLe_eq_some rfl

@[simp]
theorem length_writeU32 : (writeU32 v).length = 4 :=
  length_encode

@[simp]
theorem length_writeU64 : (writeU64 v).length = 8 :=
  length_encode

end Fields

section Entries

variable {zstd : Zstd} {version : U32} {compressed : Bool} {h : EntryHeader}

theorem length_entryHeader :
    (h.bytes version).length = if version = 2 then 40 else 32 := by
  unfold EntryHeader.bytes
  split <;> simp

theorem entryHeader_isPrefix_iff : h.bytes version <+: input.drop i ↔
    writeU64 h.guestAddr <+: input.drop i ∧ writeU64 h.contentHash <+: input.drop (i + 8) ∧
      writeU64 h.guestSize <+: input.drop (i + 16) ∧ writeU64 h.storedSize <+: input.drop (i + 24) ∧
      (version = 2 → writeU64 h.uncompressedSize <+: input.drop (i + 32)) := by
  unfold EntryHeader.bytes
  split <;> simp_all [append_prefix_drop]

theorem readEntryHeader_returns : Returns (readEntryHeader input version i) (h, j) ↔
    h.bytes version <+: input.drop i ∧ j = i + (h.bytes version).length ∧
      (version ≠ 2 → h.uncompressedSize = h.storedSize) := by
  simp only [readEntryHeader, returns_bind, returns_orFail, Prod.exists, readU64_eq_some,
    returns_ite, returns_pure, entryHeader_isPrefix_iff, length_entryHeader]
  constructor
  case mp =>
    rintro ⟨addr, _, ⟨h₁, rfl⟩, hash, _, ⟨h₂, rfl⟩, size, _, ⟨h₃, rfl⟩, stored, _, ⟨h₄, rfl⟩, h⟩
    obtain ⟨hv, uncompressed, _, ⟨h₅, rfl⟩, he⟩ | ⟨hv, _, _, hd, he⟩ := h
    · have hv : version = 2 := hv
      cases he
      exact ⟨⟨h₁, h₂, h₃, h₄, fun _ => h₅⟩, by rw [if_pos hv], fun h => absurd hv h⟩
    · have hv : version ≠ 2 := hv
      cases hd
      cases he
      exact ⟨⟨h₁, h₂, h₃, h₄, fun h => absurd h hv⟩, by rw [if_neg hv], fun _ => rfl⟩
  case mpr =>
    rintro ⟨⟨h₁, h₂, h₃, h₄, h₅⟩, rfl, hu⟩
    refine ⟨_, _, ⟨h₁, rfl⟩, _, _, ⟨h₂, rfl⟩, _, _, ⟨h₃, rfl⟩, _, _, ⟨h₄, rfl⟩, ?_⟩
    by_cases hv : version = 2
    case pos => exact .inl ⟨hv, _, _, ⟨h₅ hv, rfl⟩, by rw [if_pos hv]⟩
    case neg =>
      refine .inr ⟨hv, _, _, rfl, ?_⟩
      cases h
      cases hu hv
      rw [if_neg hv]

theorem readEntryHeader_not_panics : ¬Panics (readEntryHeader input version i) := by
  simp [readEntryHeader]

-- Version 1 has no field for the uncompressed size, which is then the stored size.
def normalize (version : U32) (h : EntryHeader) : EntryHeader :=
  if version = 2 then h else { h with uncompressedSize := h.storedSize }

theorem normalize_bytes : (normalize version h).bytes version = h.bytes version := by
  unfold normalize EntryHeader.bytes
  split <;> rfl

theorem normalize_storedSize : (normalize version h).storedSize = h.storedSize := by
  unfold normalize
  split <;> rfl

theorem normalize_uncompressedSize (hv : version ≠ 2) :
    (normalize version h).uncompressedSize = (normalize version h).storedSize := by
  rw [normalize, if_neg hv]

theorem readCode_returns :
    Returns (readCode zstd compressed frame size) code ↔
      if compressed then decompress zstd frame = some code ∧ code.length = size
      else code = frame := by
  unfold readCode
  split
  case isTrue h => simp
  case isFalse h => simp

theorem readCode_not_panics : ¬Panics (readCode zstd compressed frame size) := by
  simp [readCode]

theorem record_code {r : Record} : r.code zstd compressed = some code ↔
    Returns (readCode zstd compressed r.frame r.header.uncompressedSize.toNat) code ∧
      code.length < 2 ^ 32 := by
  rw [readCode_returns, Record.code, filter_eq_some_iff]
  split
  case isTrue => simp only [filter_eq_some_iff, decide_eq_true_eq]
  case isFalse => simp only [some_inj, decide_eq_true_eq, eq_comm (a := r.frame)]

theorem slice_returns : Returns (slice input start stop) xs ↔
    (start ≤ stop ∧ stop ≤ input.length) ∧ xs = (input.drop start).take (stop - start) := by
  simp [slice]

theorem slice_panics : Panics (slice input start stop) ↔ ¬(start ≤ stop ∧ stop ≤ input.length) := by
  simp [slice]

theorem prefix_drop_le (h : xs <+: input.drop i) (hx : 0 < xs.length) :
    i + xs.length ≤ input.length := by
  have := h.length_le
  rw [length_drop] at this
  omega

section Bounded

variable (hl : input.length < 2 ^ 63)

include hl

theorem frame_iff (hi : i ≤ input.length) {stored : U64} :
    (¬input.length < (i + stored.toNat) % 2 ^ 64 ∧
        Returns (slice input i ((i + stored.toNat) % 2 ^ 64)) frame) ↔
      frame <+: input.drop i ∧ stored.toNat = frame.length := by
  have := stored.isLt
  rw [slice_returns]
  constructor
  case mp =>
    rintro ⟨_, ⟨h₁, h₂⟩, rfl⟩
    have hs : (i + stored.toNat) % 2 ^ 64 - i = stored.toNat := by omega
    rw [hs, length_take, length_drop]
    exact ⟨ take_prefix .., by omega⟩
  case mpr =>
    rintro ⟨hp, hs⟩
    have hle := hp.length_le
    rw [length_drop] at hle
    rw [Nat.mod_eq_of_lt (by omega)]
    refine ⟨by omega, ⟨by omega, by omega⟩, ?_⟩
    rw [Nat.add_sub_cancel_left, hs]
    exact prefix_iff_eq_take.mp hp

theorem frame_panics (hi : i ≤ input.length) {stored : U64} :
    (¬input.length < (i + stored.toNat) % 2 ^ 64 ∧
        Panics (slice input i ((i + stored.toNat) % 2 ^ 64))) ↔ 2 ^ 64 ≤ i + stored.toNat := by
  have := stored.isLt
  rw [slice_panics]
  omega

theorem readEntry_returns :
    Returns (readEntry zstd input version compressed i) ((key, entry), j) ↔
      ∃ r : Record, r.bytes version <+: input.drop i ∧ j = i + (r.bytes version).length ∧
        r.header.storedSize.toNat = r.frame.length ∧
        (version ≠ 2 → r.header.uncompressedSize = r.header.storedSize) ∧
        ∃ code, r.code zstd compressed = some code ∧ key = r.header.key ∧
          entry = r.header.entry code := by
  simp only [readEntry, returns_bind, Prod.exists, readEntryHeader_returns, returns_ite,
    returns_throw, returns_pure, and_false, false_or]
  constructor
  case mp =>
    rintro ⟨h, _, ⟨hh, rfl, hu⟩, hlt, frame, hf, code, hc, hcl, he⟩
    have hp := prefix_drop_le hh (by rw [length_entryHeader]; split <;> decide)
    obtain ⟨hf, hs⟩ := (frame_iff hl hp).mp ⟨hlt, hf⟩
    cases he
    refine ⟨⟨h, frame⟩, append_prefix_drop.mpr ⟨hh, hf⟩, ?_, hs, hu, code,
      record_code.mpr ⟨hc, Nat.not_le.mp hcl⟩, rfl, rfl⟩
    rw [Record.bytes, length_append, ← hs, ← Nat.add_assoc]
    exact Nat.mod_eq_of_lt (by have := hf.length_le; rw [length_drop] at this; omega)
  case mpr =>
    rintro ⟨⟨h, frame⟩, hb, rfl, hs, hu, code, hc, rfl, rfl⟩
    obtain ⟨hh, hf⟩ := append_prefix_drop.mp hb
    have hp := prefix_drop_le hh (by rw [length_entryHeader]; split <;> decide)
    obtain ⟨hlt, hf⟩ := (frame_iff hl hp).mpr ⟨hf, hs⟩
    obtain ⟨hc, hcl⟩ := record_code.mp hc
    refine ⟨h, _, ⟨hh, rfl, hu⟩, hlt, frame, hf, code, hc, Nat.not_le.mpr hcl, ?_⟩
    have hle := (slice_returns.mp hf).left
    have := h.storedSize.isLt
    dsimp only at hs hle ⊢
    rw [Record.bytes, length_append, ← hs, ← Nat.add_assoc, Nat.mod_eq_of_lt (by omega)]

theorem readEntry_panics :
    Panics (readEntry zstd input version compressed i) ↔
      ∃ h : EntryHeader, h.bytes version <+: input.drop i ∧
        2 ^ 64 ≤ i + (h.bytes version).length + h.storedSize.toNat := by
  simp only [readEntry, panics_bind, Prod.exists, readEntryHeader_returns, panics_ite,
    panics_throw, panics_pure, readEntryHeader_not_panics, readCode_not_panics, and_false, false_or,
    or_false, exists_false]
  constructor
  case mp =>
    rintro ⟨h, _, ⟨hh, rfl, hu⟩, hf⟩
    have hp := prefix_drop_le hh (by rw [length_entryHeader]; split <;> decide)
    exact ⟨h, hh, (frame_panics hl hp).mp hf⟩
  case mpr =>
    rintro ⟨h, hh, ho⟩
    rw [← @normalize_bytes version h] at hh ho
    rw [← @normalize_storedSize version h] at ho
    have hp := prefix_drop_le hh (by rw [length_entryHeader]; split <;> decide)
    exact ⟨_, _, ⟨hh, rfl, normalize_uncompressedSize⟩, (frame_panics hl hp).mpr ho⟩

end Bounded

-- The entry that a record stands for.
def Record.entry (zstd : Zstd) (compressed : Bool) (r : Record) : CacheEntry :=
  r.header.entry ((r.code zstd compressed).getD [])

theorem record_code_normalize (hv : compressed = true → version = 2) :
    Record.code zstd compressed ⟨normalize version h, frame⟩ =
      Record.code zstd compressed ⟨h, frame⟩ := by
  unfold Record.code
  cases compressed with
  | false => rfl
  | true => rw [normalize, if_pos (hv rfl)]

theorem normalize_key : (normalize version h).key = h.key := by
  unfold normalize
  split <;> rfl

theorem normalize_entry : (normalize version h).entry code = h.entry code := by
  unfold normalize
  split <;> rfl

theorem readEntry_ok (hl : input.length < 2 ^ 63) (hv : compressed = true → version = 2) :
    Returns (readEntry zstd input version compressed i) out ↔
      ∃ r : Record, r.bytes version <+: input.drop i ∧ r.Valid zstd compressed ∧
        out = ((r.header.key, r.entry zstd compressed), i + (r.bytes version).length) := by
  obtain ⟨⟨key, entry⟩, j⟩ := out
  rw [readEntry_returns hl]
  constructor
  case mp =>
    rintro ⟨r, hb, rfl, hs, _, code, hc, rfl, rfl⟩
    exact ⟨r, hb, ⟨hs, isSome_of_eq_some hc⟩, by rw [Record.entry, hc]; rfl⟩
  case mpr =>
    rintro ⟨⟨h, frame⟩, hb, ⟨hs, hc⟩, he⟩
    have ⟨code, hc⟩ := isSome_iff_exists.mp hc
    cases he
    refine ⟨⟨normalize version h, frame⟩, ?_, ?_, ?_, normalize_uncompressedSize, code, ?_,
      normalize_key.symm, ?_⟩
    · rwa [Record.bytes, normalize_bytes]
    · rw [Record.bytes, Record.bytes, normalize_bytes]
    · rwa [normalize_storedSize]
    · rwa [record_code_normalize hv]
    · rw [normalize_entry, Record.entry, hc]
      rfl

end Entries

section Loop

variable {zstd : Zstd} {version : U32} {compressed : Bool} {count : Nat} {tables tables' : Tables}

def Tables.addRecord (zstd : Zstd) (compressed : Bool) (tables : Tables) (r : Record) : Tables :=
  tables.add r.header.key (r.entry zstd compressed)

theorem readEntries_returns (hl : input.length < 2 ^ 63) (hv : compressed = true → version = 2) :
    Returns (readEntries zstd input version compressed count i tables) tables' ↔
      ∃ records : List Record, records.length = count ∧
        records.flatMap (Record.bytes version) <+: input.drop i ∧
        (∀ r ∈ records, r.Valid zstd compressed) ∧
        tables' = records.foldl (Tables.addRecord zstd compressed) tables := by
  induction count generalizing i tables with
  | zero =>
    simp only [readEntries, returns_pure, length_eq_zero_iff]
    simp
  | succ count hi =>
    simp only [readEntries, returns_bind, readEntry_ok hl hv]
    constructor
    case mp =>
      rintro ⟨_, ⟨r, hb, hr, rfl⟩, h⟩
      obtain ⟨records, hlen, hbs, hrs, ht⟩ := hi.mp h
      subst hlen ht
      refine ⟨r :: records, rfl, append_prefix_drop.mpr ⟨hb, hbs⟩, ?_, rfl⟩
      exact forall_mem_cons.mpr ⟨hr, hrs⟩
    case mpr =>
      rintro ⟨records, hlen, hb, hr, rfl⟩
      cases records with
      | nil => cases hlen
      | cons r records =>
        obtain ⟨hb, hbs⟩ := append_prefix_drop.mp hb
        obtain ⟨hr, hrs⟩ := forall_mem_cons.mp hr
        exact ⟨_, ⟨r, hb, hr, rfl⟩, hi.mpr ⟨records, Nat.succ.inj hlen, hbs, hrs, rfl⟩⟩

theorem readEntries_panics (hl : input.length < 2 ^ 63) (hv : compressed = true → version = 2) :
    Panics (readEntries zstd input version compressed count i tables) ↔
      ∃ (records : List Record) (h : EntryHeader), records.length < count ∧
        records.flatMap (Record.bytes version) ++ h.bytes version <+: input.drop i ∧
        (∀ r ∈ records, r.Valid zstd compressed) ∧
        2 ^ 64 ≤ i + (records.flatMap (Record.bytes version) ++ h.bytes version).length +
          h.storedSize.toNat := by
  induction count generalizing i tables with
  | zero => simp [readEntries]
  | succ count hi =>
    simp only [readEntries, panics_bind, readEntry_ok hl hv, readEntry_panics hl]
    constructor
    case mp =>
      rintro (⟨h, hb, ho⟩ | ⟨_, ⟨r, hb, hr, rfl⟩, h⟩)
      · exact ⟨[], h, Nat.succ_pos _, hb, by simp, ho⟩
      · obtain ⟨records, h, hlt, hbs, hrs, ho⟩ := hi.mp h
        refine ⟨r :: records, h, Nat.succ_lt_succ hlt, ?_, forall_mem_cons.mpr ⟨hr, hrs⟩, ?_⟩
        · rw [flatMap_cons, append_assoc]
          exact append_prefix_drop.mpr ⟨hb, hbs⟩
        · rwa [flatMap_cons, append_assoc, length_append, ← Nat.add_assoc i]
    case mpr =>
      rintro ⟨records, h, hlt, hb, hr, ho⟩
      cases records with
      | nil => exact .inl ⟨h, hb, ho⟩
      | cons r records =>
        rw [flatMap_cons, append_assoc] at hb ho
        rw [length_append, ← Nat.add_assoc i] at ho
        obtain ⟨hb, hbs⟩ := append_prefix_drop.mp hb
        obtain ⟨hr, hrs⟩ := forall_mem_cons.mp hr
        refine .inr ⟨_, ⟨r, hb, hr, rfl⟩, hi.mpr ?_⟩
        exact ⟨records, h, Nat.lt_of_succ_lt_succ hlt, hbs, hrs, ho⟩

end Loop

section File

variable {zstd : Zstd} {tables : Tables}

theorem and_one_ne_zero (flags : U32) : flags &&& flagCompressed ≠ 0 ↔ flags.getLsbD 0 = true := by
  have h : flags &&& flagCompressed = (BitVec.ofBool (flags.getLsbD 0)).setWidth 32 := by
    exact BitVec.and_one_eq_setWidth_ofBool_getLsbD
  rw [h]
  cases flags.getLsbD 0 <;> decide

theorem compressed_eq {header : FileHeader} (hs : header.Supported) :
    (currentVersion ≤ header.version && header.flags &&& flagCompressed ≠ 0 : Bool) =
      header.compressed := by
  have hf := and_one_ne_zero header.flags
  rw [FileHeader.compressed, Bool.eq_iff_iff, Bool.and_eq_true, Bool.and_eq_true, decide_eq_true_iff,
    decide_eq_true_iff, decide_eq_true_iff, hf]
  refine and_congr_left fun _ => ?_
  cases hs with
  | inl h => rw [h]; decide
  | inr h => rw [h]; decide

theorem length_fileHeader {header : FileHeader} : header.bytes.length = 32 := by
  simp [FileHeader.bytes]

theorem fileHeader_isPrefix_iff {header : FileHeader} : header.bytes <+: input ↔
    writeU64 magic <+: input.drop 0 ∧ writeU32 header.version <+: input.drop 8 ∧
      writeU32 header.flags <+: input.drop 12 ∧ writeU64 header.cpuFp <+: input.drop 16 ∧
      writeU64 header.count <+: input.drop 24 := by
  simp [FileHeader.bytes, append_isPrefix_iff]

theorem readHeader_returns : Returns (readHeader input) out ↔
    ∃ header : FileHeader, header.bytes <+: input ∧ header.Supported ∧ out = (header, 32) := by
  simp only [readHeader, returns_bind, returns_orFail, Prod.exists, readU64_eq_some,
    readU32_eq_some, returns_ite, returns_throw, and_false, false_or, returns_pure,
    fileHeader_isPrefix_iff]
  constructor
  case mp =>
    rintro ⟨m, _, ⟨h₁, rfl⟩, hm, version, _, ⟨h₂, rfl⟩, hv, flags, _, ⟨h₃, rfl⟩, cpuFp, _, ⟨h₄, rfl⟩,
      count, _, ⟨h₅, rfl⟩, rfl⟩
    cases not_not.mp hm
    exact ⟨⟨version, flags, cpuFp, count⟩, ⟨h₁, h₂, h₃, h₄, h₅⟩, by grind [FileHeader.Supported, currentVersion], rfl⟩
  case mpr =>
    rintro ⟨header, ⟨h₁, h₂, h₃, h₄, h₅⟩, hs, rfl⟩
    exact ⟨_, _, ⟨h₁, rfl⟩, not_not.mpr rfl, _, _, ⟨h₂, rfl⟩, by grind [FileHeader.Supported, currentVersion], _, _, ⟨h₃, rfl⟩, _, _,
      ⟨h₄, rfl⟩, _, _, ⟨h₅, rfl⟩, rfl⟩

theorem readHeader_panics : ¬Panics (readHeader input) := by
  simp [readHeader]

theorem compressed_version {header : FileHeader} (h : header.compressed = true) :
    header.version = 2 := by
  simp only [FileHeader.compressed, Bool.and_eq_true, decide_eq_true_eq] at h
  exact h.left

theorem readFile_returns (hl : input.length < 2 ^ 63) :
    Returns (readFile zstd input) tables ↔
      ∃ header records, StartsWith zstd input header records ∧
        records.length = header.count.toNat ∧
        tables = records.foldl (Tables.addRecord zstd header.compressed) (∅, ∅) := by
  simp only [readFile, returns_bind, readHeader_returns]
  constructor
  case mp =>
    rintro ⟨_, ⟨header, hb, hs, rfl⟩, h⟩
    dsimp only at h
    rw [compressed_eq hs] at h
    obtain ⟨records, hlen, hbs, hr, ht⟩ := (readEntries_returns hl compressed_version).mp h
    refine ⟨header, records, ⟨?_, hs, hr⟩, hlen, ht⟩
    exact append_isPrefix_iff.mpr ⟨hb, by rwa [length_fileHeader]⟩
  case mpr =>
    rintro ⟨header, records, ⟨hb, hs, hr⟩, hlen, ht⟩
    obtain ⟨hb, hbs⟩ := append_isPrefix_iff.mp hb
    rw [length_fileHeader] at hbs
    refine ⟨_, ⟨header, hb, hs, rfl⟩, ?_⟩
    dsimp only
    rw [compressed_eq hs]
    exact (readEntries_returns hl compressed_version).mpr ⟨records, hlen, hbs, hr, ht⟩

theorem readFile_panics (hl : input.length < 2 ^ 63) :
    Panics (readFile zstd input) ↔ ∃ header records h, Oversized zstd input header records h := by
  simp only [readFile, panics_bind, readHeader_panics, readHeader_returns, false_or]
  constructor
  case mp =>
    rintro ⟨_, ⟨header, hb, hs, rfl⟩, h⟩
    dsimp only at h
    rw [compressed_eq hs] at h
    obtain ⟨records, h, hlt, hbs, hr, ho⟩ := (readEntries_panics hl compressed_version).mp h
    obtain ⟨hbs, hh⟩ := append_prefix_drop.mp hbs
    refine ⟨header, records, h, ⟨append_isPrefix_iff.mpr ⟨hb, ?_⟩, hs, hr⟩, hlt, ?_, ?_⟩
    · rwa [length_fileHeader]
    · rwa [length_append, length_fileHeader]
    · rw [length_append, ← Nat.add_assoc] at ho
      rwa [length_append, length_fileHeader]
  case mpr =>
    rintro ⟨header, records, h, ⟨hb, hs, hr⟩, hlt, hh, ho⟩
    obtain ⟨hb, hbs⟩ := append_isPrefix_iff.mp hb
    rw [length_append, length_fileHeader] at hh ho
    rw [length_fileHeader] at hbs
    refine ⟨_, ⟨header, hb, hs, rfl⟩, ?_⟩
    dsimp only
    rw [compressed_eq hs]
    refine (readEntries_panics hl compressed_version).mpr ⟨records, h, hlt, ?_, hr, ?_⟩
    · exact append_prefix_drop.mpr ⟨hbs, hh⟩
    · rwa [length_append, ← Nat.add_assoc]

end File

end Prisma.CacheFile
