import Prisma.Orchestrator.PeLoader

-- When the parser of executables panics.

namespace Prisma.PeLoader

open Fallible

variable {bytes : List U8} {off n eLfanew opt : Nat}

def field (bytes : List U8) (off n : Nat) : Nat :=
  LittleEndian.decode ((bytes.drop off).take n)

section Read

theorem field_lt : field bytes off n < 256 ^ n :=
  LittleEndian.decode_lt.trans_le (Nat.pow_le_pow_right (by decide) (List.length_take_le ..))

@[simp]
theorem readBytes_panics : Panics (readBytes bytes off n) ↔ bytes.length < off + n := by
  simp [readBytes]

@[simp]
theorem readBytes_returns : Returns (readBytes bytes off n) xs ↔
    off + n ≤ bytes.length ∧ xs = (bytes.drop off).take n := by
  simp [readBytes]

theorem map_readBytes_returns {α : Type} {f : List U8 → α} {v : α} :
    Returns (f <$> readBytes bytes off n) v ↔
      off + n ≤ bytes.length ∧ v = f ((bytes.drop off).take n) := by
  simp [and_assoc]

@[simp]
theorem readU16_panics : Panics (readU16 bytes off) ↔ bytes.length < off + 2 := by
  simp [readU16]

@[simp]
theorem readU32_panics : Panics (readU32 bytes off) ↔ bytes.length < off + 4 := by
  simp [readU32]

@[simp]
theorem readU64_panics : Panics (readU64 bytes off) ↔ bytes.length < off + 8 := by
  simp [readU64]

@[simp]
theorem readU16_returns {v : U16} : Returns (readU16 bytes off) v ↔
    off + 2 ≤ bytes.length ∧ v = BitVec.ofNat 16 (field bytes off 2) :=
  map_readBytes_returns

@[simp]
theorem readU32_returns {v : U32} : Returns (readU32 bytes off) v ↔
    off + 4 ≤ bytes.length ∧ v = BitVec.ofNat 32 (field bytes off 4) :=
  map_readBytes_returns

@[simp]
theorem readU64_returns {v : U64} : Returns (readU64 bytes off) v ↔
    off + 8 ≤ bytes.length ∧ v = BitVec.ofNat 64 (field bytes off 8) :=
  map_readBytes_returns

theorem toNat_field {w : Nat} (hw : 2 ^ w = 256 ^ n) :
    (BitVec.ofNat w (field bytes off n)).toNat = field bytes off n := by
  rw [BitVec.toNat_ofNat, Nat.mod_eq_of_lt (hw ▸ field_lt)]

theorem field_eq_iff {w : Nat} (hw : 2 ^ w = 256 ^ n) {v : BitVec w} :
    BitVec.ofNat w (field bytes off n) = v ↔ field bytes off n = v.toNat := by
  rw [← BitVec.toNat_inj, toNat_field hw]

end Read

section Headers

-- The DOS header and the COFF header are well formed, and the optional header ends within the file.
structure ReachesOptHeader (bytes : List U8) (eLfanew : Nat) : Prop where
  size : 64 ≤ bytes.length
  dosMagic : field bytes 0 2 = 0x5A4D
  lfanew : field bytes 0x3C 4 = eLfanew
  inside : eLfanew + 24 ≤ bytes.length
  ntMagic : field bytes eLfanew 4 = 0x4550
  optHdrSize : eLfanew + 24 + field bytes (eLfanew + 20) 2 ≤ bytes.length

theorem readDosHeader_not_panics : ¬Panics (readDosHeader bytes) := by
  simp [readDosHeader]
  omega

theorem readDosHeader_returns : Returns (readDosHeader bytes) eLfanew ↔
    64 ≤ bytes.length ∧ field bytes 0 2 = 0x5A4D ∧ field bytes 0x3C 4 = eLfanew ∧
      eLfanew + 24 ≤ bytes.length := by
  have hm := @field_eq_iff bytes 0 2 16 rfl 0x5A4D
  have hl := @toNat_field bytes 0x3C 4 32 rfl
  simp only [readDosHeader, returns_ite, returns_throw, returns_bind, readU16_returns,
    readU32_returns, returns_pure, ne_eq, and_false, false_or, and_assoc, exists_and_left,
    exists_eq_left, hm, hl, not_not, Nat.not_lt]
  grind

theorem readCoffHeader_not_panics (h : eLfanew + 24 ≤ bytes.length) :
    ¬Panics (readCoffHeader bytes eLfanew) := by
  simp [readCoffHeader]
  omega

theorem readCoffHeader_returns (h : eLfanew + 24 ≤ bytes.length) :
    (∃ coff, Returns (readCoffHeader bytes eLfanew) coff) ↔ field bytes eLfanew 4 = 0x4550 ∧
      eLfanew + 24 + field bytes (eLfanew + 20) 2 ≤ bytes.length := by
  have hm := @field_eq_iff bytes eLfanew 4 32 rfl 0x4550
  have hs := @toNat_field bytes (eLfanew + 4 + 16) 2 16 rfl
  simp only [readCoffHeader, returns_ite, returns_throw, returns_bind, readU16_returns,
    readU32_returns, returns_pure, ne_eq, and_false, false_or, and_assoc, exists_and_left,
    exists_eq_left, hm, hs, not_not, Nat.not_lt]
  grind

-- The magic number and the fields up to the size of the image are read without a check.
theorem readOptHeader_panics : Panics (readOptHeader bytes opt) ↔
    bytes.length < opt + 2 ∨
      bytes.length < opt + 60 ∧ (field bytes opt 2 = 0x010B ∨ field bytes opt 2 = 0x020B) := by
  have hm := @field_eq_iff bytes opt 2 16 rfl 0x010B
  have hm' := @field_eq_iff bytes opt 2 16 rfl 0x020B
  simp only [readOptHeader, panics_ite, panics_throw, panics_bind, readU16_panics, readU32_panics,
    readU64_panics, readU16_returns, readU32_returns, readU64_returns, panics_pure, and_false,
    or_false, and_assoc, exists_and_left, exists_eq_left, hm, hm', exists_const]
  grind

end Headers

section Tables

theorem readU32At_not_panics : ¬Panics (readU32At bytes optEnd off) := by
  simp [readU32At]

theorem readDirectory_not_panics :
    ¬Panics (readDirectory bytes optEnd datadirOff numDirs index) := by
  simp [readDirectory, readU32At_not_panics]

theorem readSection_not_panics : ¬Panics (readSection bytes off) := by
  simp [readSection]
  omega

theorem readSections_not_panics : ¬Panics (readSections bytes n off) := by
  induction n generalizing off with
  | zero => simp [readSections]
  | succ n hi => simp [readSections, readSection_not_panics, hi]

end Tables

-- The optional header is cut off by the end of the file.
def CutOptHeader (bytes : List U8) : Prop :=
  ∃ eLfanew, ReachesOptHeader bytes eLfanew ∧ (bytes.length < eLfanew + 26 ∨
    bytes.length < eLfanew + 84 ∧
      (field bytes (eLfanew + 24) 2 = 0x010B ∨ field bytes (eLfanew + 24) 2 = 0x020B))

theorem parse_panics_iff_readOptHeader : Panics (parse bytes) ↔
    ∃ eLfanew, Returns (readDosHeader bytes) eLfanew ∧
      (∃ coff, Returns (readCoffHeader bytes eLfanew) coff) ∧
        Panics (readOptHeader bytes (eLfanew + 24)) := by
  unfold parse
  rw [panics_bind, or_iff_right readDosHeader_not_panics]
  refine exists_congr fun eLfanew => and_congr_right fun hl => ?_
  have hin := (readDosHeader_returns.mp hl).2.2.2
  rw [panics_bind, or_iff_right (readCoffHeader_not_panics hin), ← exists_and_right]
  refine exists_congr fun coff => and_congr_right fun _ => ?_
  rw [panics_bind, or_iff_left]
  rintro ⟨header, _, hr⟩
  simp [readU32At_not_panics, readDirectory_not_panics, readSections_not_panics] at hr

theorem parse_panics : Panics (parse bytes) ↔ CutOptHeader bytes := by
  rw [parse_panics_iff_readOptHeader]
  refine exists_congr fun eLfanew => ?_
  rw [readOptHeader_panics]
  constructor
  case mp =>
    rintro ⟨hd, hc, hp⟩
    have ⟨hsize, hmagic, hlfanew, hin⟩ := readDosHeader_returns.mp hd
    have ⟨hnt, hopt⟩ := (readCoffHeader_returns hin).mp hc
    exact ⟨⟨hsize, hmagic, hlfanew, hin, hnt, hopt⟩, hp⟩
  case mpr =>
    rintro ⟨h, hp⟩
    have hd := readDosHeader_returns.mpr ⟨h.size, h.dosMagic, h.lfanew, h.inside⟩
    exact ⟨hd, (readCoffHeader_returns h.inside).mpr ⟨h.ntMagic, h.optHdrSize⟩, hp⟩

theorem parse_returns_iff (bytes : List U8) :
    (∃ result, (parse bytes).run = some result) ↔ ¬CutOptHeader bytes := by
  rw [← parse_panics, Panics, ← ne_eq, Option.ne_none_iff_exists']

-- The file ends where the optional header would start.
theorem parse_not_returns : ¬∀ bytes : List U8, ∃ result, (parse bytes).run = some result := by
  intro h
  let dosHeader : List U8 := [0x4D, 0x5A] ++ List.replicate 58 0 ++ [0x40, 0, 0, 0]
  let coffHeader : List U8 := [0x50, 0x45, 0, 0] ++ List.replicate 20 0
  have ⟨result, hr⟩ := h (dosHeader ++ coffHeader)
  have hn : (parse (dosHeader ++ coffHeader)).run = none := by decide +kernel
  cases hn.symm.trans hr

end Prisma.PeLoader
