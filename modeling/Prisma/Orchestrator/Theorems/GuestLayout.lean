import Prisma.Orchestrator.GuestLayout
import Prisma.Orchestrator.Theorems.MapImage
import Prisma.Orchestrator.Theorems.MemHistory

namespace Prisma

open Extent List Option

namespace BackedAddressSpace

variable {space space' : BackedAddressSpace} {base x : U64} {prot : Protection} {bytes : List U8}
  {b : U8}

-- A new region has its bytes, and the bytes of the others stay.
structure Inserts (space space' : BackedAddressSpace) (base : U64) (bytes : List U8) : Prop where
  sound : Sound space'
  fits : base.toNat + bytes.length < 2 ^ 64
  given : ∀ k < bytes.length, space'.view.byte (base + BitVec.ofNat 64 k) = bytes[k]?
  keeps : ∀ x b, space.view.byte x = some b → space'.view.byte x = some b

theorem mapWithBytes_inserts (h : Sound space)
    (hok : space.mapWithBytes base bytes prot = (.ok (), space')) :
    Inserts space space' base bytes := by
  have hcall : MemCall.apply space (.mapWithBytes base bytes prot) = some (.ok .done, space') := by
    rw [MemCall.apply, hok]
    rfl
  obtain ⟨happly, hsound⟩ := apply_view h hcall
  have hwf : space.view.space.WellFormed := wellFormed_view h.wellFormed
  obtain ⟨_, hinsert, _⟩ := spaceResult_eq_ok happly
  have houtcome : MappedMemory.Outcome space.view _
      (space.view.insert space.room base prot bytes) := MappedMemory.insert_outcome
  rw [hinsert] at houtcome
  have hbyte : space'.view.byte = MappedMemory.give space.view.byte base bytes := by
    generalize space'.view = mem at houtcome
    cases houtcome
    rfl
  obtain ⟨_, hfits, _⟩ := (MappedMemory.insert_ok_iff hwf).mp (congrArg Prod.fst hinsert)
  refine ⟨hsound, hfits, fun k hk => ?_, fun x b hb => ?_⟩
  · have hadd : (base + BitVec.ofNat 64 k).toNat = base.toNat + k :=
      AddressSpace.toNat_add_ofNat (by omega)
    rw [hbyte, MappedMemory.give, if_pos ⟨by omega, by omega⟩, hadd, Nat.add_sub_cancel_left]
  · obtain ⟨r, hr, hc, _⟩ := (view_byte_eq_some h).mp hb
    rw [view_byte_frame h hcall hr (by rintro ⟨⟩) hc, hb]

end BackedAddressSpace

namespace GuestLayout

open BackedAddressSpace

variable {image : List U8} {va vsize k : Nat} {space space' : BackedAddressSpace}
  {mapped : MappedImage} {sec : PeSection} {secs : List PeSection} {img : PeImage}
  {stackBase : U64} {layout : BackedGuestLayout} {file : List U8}

@[simp]
theorem length_sectionContent : (sectionContent image va vsize).length = vsize := by
  unfold sectionContent
  split <;> simp

theorem getElem?_sectionContent (hk : k < vsize) :
    (sectionContent image va vsize)[k]? = some (image.getD (va + k) 0) := by
  unfold sectionContent
  rw [getD_eq_getElem?_getD]
  split
  case isTrue hva =>
    have hlen : (image.slice va (min (va + vsize) image.length - va)).length =
        min (va + vsize) image.length - va := length_slice (by omega)
    rw [List.getElem?_overwrite (by rw [hlen, length_replicate]; omega), hlen]
    split
    case isTrue hin =>
      rw [List.getElem?_slice, if_pos (by omega), Nat.sub_zero,
        List.getElem?_eq_getElem (by omega), getD_some]
    case isFalse hin =>
      rw [List.getElem?_replicate, if_pos hk, List.getElem?_eq_none (by omega), getD_none]
  case isFalse hva =>
    rw [List.getElem?_replicate, if_pos hk, List.getElem?_eq_none (by omega), getD_none]

-- The bytes of a section are in the space, and nothing else is lost.
structure Populates (mapped : MappedImage) (secs : List PeSection)
    (space space' : BackedAddressSpace) : Prop where
  sound : Sound space'
  given : ∀ sec ∈ secs, ∀ k < sec.virtualSize.toNat,
    space'.view.byte (mapped.base + sec.virtualAddress.setWidth 64 + BitVec.ofNat 64 k) =
      some (mapped.bytes.getD (sec.virtualAddress.toNat + k) 0)
  keeps : ∀ x b, space.view.byte x = some b → space'.view.byte x = some b

theorem populateSection_populates (h : Sound space)
    (hok : populateSection space mapped sec = (.ok (), space')) :
    Populates mapped [sec] space space' := by
  unfold populateSection at hok
  split at hok
  case isTrue hz =>
    cases hok
    refine ⟨h, fun s hs k hk => ?_, fun _ _ hb => hb⟩
    rw [mem_singleton.mp hs, hz] at hk
    exact absurd hk (Nat.not_lt_zero k)
  case isFalse =>
    split at hok
    · nomatch hok
    case _ base hbase =>
      have hins := mapWithBytes_inserts h hok
      have hbase : base = mapped.base + sec.virtualAddress.setWidth 64 := by
        rw [BitVec.checkedAdd] at hbase
        split at hbase
        · exact (some_inj.mp hbase).symm
        · nomatch hbase
      refine ⟨hins.sound, fun s hs k hk => ?_, hins.keeps⟩
      cases mem_singleton.mp hs
      rw [← hbase, hins.given k (by rwa [length_sectionContent]), getElem?_sectionContent hk]

theorem populateSections_populates (h : Sound space)
    (hok : populateSections mapped secs space = (.ok (), space')) :
    Populates mapped secs space space' := by
  induction secs generalizing space with
  | nil =>
    cases hok
    exact ⟨h, nofun, fun _ _ hb => hb⟩
  | cons sec secs hi =>
    unfold populateSections at hok
    split at hok
    · nomatch hok
    case _ hsec =>
      have hfirst := populateSection_populates h hsec
      have hrest := hi hfirst.sound hok
      refine ⟨hrest.sound, forall_mem_cons.mpr ⟨fun k hk => ?_, hrest.given⟩,
        fun x b hb => hrest.keeps x b (hfirst.keeps x b hb)⟩
      exact hrest.keeps _ _ (hfirst.given sec (.head _) k hk)

-- Every section reads as its data in the file, filled up with zeros, and the stack as zeros.
theorem read_backedLayoutSections (hmap : Fallible.Returns (PeLoader.mapImage img file) mapped)
    (hlayout : backedLayoutSections img mapped stackBase = .ok layout)
    (hdisj : img.sections.Pairwise Apart) :
    (∀ sec ∈ img.sections, ∀ k < sec.virtualSize.toNat, ∃ b,
      Fallible.Returns (layout.space.read
        (img.imageBase + sec.virtualAddress.setWidth 64 + BitVec.ofNat 64 k) 1) [b] ∧
      (k < sec.rawDataSize.toNat → file[sec.rawDataOffset.toNat + k]? = some b) ∧
      (sec.rawDataSize.toNat ≤ k → b = 0)) ∧
    ∀ k < defaultStackSize.toNat,
      Fallible.Returns (layout.space.read (stackBase + BitVec.ofNat 64 k) 1) [0] := by
  have ⟨_, hbase, _⟩ := PeLoader.returns_mapImage hmap
  unfold backedLayoutSections populateBacked at hlayout
  split at hlayout
  · nomatch hlayout
  case _ space' hok =>
    cases hlayout
    split at hok
    · nomatch hok
    case _ hsections =>
      have hpop := populateSections_populates sound_new hsections
      have hstack := mapWithBytes_inserts hpop.sound hok
      refine ⟨fun sec hsec k hk => ?_, fun k hk => ?_⟩
      · have hb := hstack.keeps _ _ (hpop.given sec hsec k hk)
        have hbytes := PeLoader.mapImage_bytes hmap hdisj hsec hk
        rw [hbase] at hb
        refine ⟨_, read_byte hstack.sound hb, fun hraw => ?_, fun hraw => ?_⟩
        · rwa [if_pos hraw] at hbytes
        · rwa [if_neg (Nat.not_lt.mpr hraw)] at hbytes
      · refine read_byte hstack.sound ?_
        rw [hstack.given k (by rwa [length_replicate]), List.getElem?_replicate, if_pos hk]

-- One section of four bytes, of which the file has two.
def sampleImage : PeImage where
  machine := .x86_64
  sectionCount := 1
  timestamp := 0
  entryPointRva := 0x10
  imageBase := 0x400000
  sizeOfImage := 0x20
  sections := [⟨List.replicate 8 0, 4, 0x10, 2, 1, imageScnMemExecute⟩]
  pe32Plus := true
  importDirRva := 0
  importDirSize := 0
  relocDirRva := 0
  relocDirSize := 0
  exportDirRva := 0
  exportDirSize := 0

def sampleMapped : MappedImage :=
  ⟨0x400000, 0x400010, List.replicate 16 0 ++ [0x90, 0xC3] ++ List.replicate 14 0⟩

theorem exists_backedLayoutSections
    (hpop : populateSections mapped img.sections .new = (.ok (), space))
    (hok : (space.mapZeroed stackBase defaultStackSize .readWrite).fst = .ok ()) :
    ∃ layout, backedLayoutSections img mapped stackBase = .ok layout := by
  have hmap : populateBacked .new img mapped stackBase =
      space.mapZeroed stackBase defaultStackSize .readWrite := by
    simp only [populateBacked, hpop]
  rw [← hmap] at hok
  rw [backedLayoutSections]
  generalize populateBacked .new img mapped stackBase = result at hok ⊢
  match result, hok with
  | (.ok (), _), _ => exact ⟨_, rfl⟩

theorem backedLayoutSections_sample :
    ∃ layout, backedLayoutSections sampleImage sampleMapped 0x10000000 = .ok layout := by
  have hpop : populateSections sampleMapped sampleImage.sections .new =
      (.ok (), ⟨[⟨0x400010, .readExecute, 4, some [0x90, 0xC3, 0, 0]⟩], none⟩) := rfl
  have hsound := (populateSections_populates sound_new hpop).sound
  refine exists_backedLayoutSections hpop
    ((mapZeroed_ok_iff hsound).mpr ⟨by decide, ⟨by decide, ?_⟩, rfl⟩)
  intro r hr
  cases mem_singleton.mp hr
  unfold Meets
  decide

theorem read_backedLayoutSections_sample :
    ∃ mapped layout, Fallible.Returns (PeLoader.mapImage sampleImage [0x00, 0x90, 0xC3]) mapped ∧
      backedLayoutSections sampleImage mapped 0x10000000 = .ok layout ∧
      Fallible.Returns (layout.space.read 0x400011 1) [0xC3] ∧
      Fallible.Returns (layout.space.read 0x400012 1) [0] := by
  have hmap : Fallible.Returns (PeLoader.mapImage sampleImage [0x00, 0x90, 0xC3]) sampleMapped :=
    rfl
  have ⟨layout, hlayout⟩ := backedLayoutSections_sample
  have ⟨hsections, _⟩ := read_backedLayoutSections hmap hlayout (by simp [sampleImage])
  have ⟨b, hread, hfile, _⟩ := hsections _ (.head _) 1 (by decide)
  have ⟨b', hread', _, hzero⟩ := hsections _ (.head _) 2 (by decide)
  cases hfile (by decide)
  cases hzero (by decide)
  exact ⟨_, layout, hmap, hlayout, hread, hread'⟩

end GuestLayout

end Prisma
