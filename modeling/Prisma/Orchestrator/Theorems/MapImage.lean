import Prisma.Orchestrator.MapImage
import Prisma.Lib.Intervals

namespace Prisma

open Extent Fallible

-- The addresses of a section, relative to the image base: its data or its size in memory, whichever
-- is larger.
instance : Extent PeSection where
  lo sec := sec.virtualAddress.toNat
  hi sec := sec.virtualAddress.toNat + max sec.rawDataSize.toNat sec.virtualSize.toNat

namespace PeLoader

variable {img : PeImage} {file bytes bytes' src : List U8} {start stop idx x : Nat}
  {sec : PeSection} {secs : List PeSection} {mapped : MappedImage}

theorem returns_range :
    Fallible.Returns (range bytes start stop) src ↔
      (start ≤ stop ∧ stop ≤ bytes.length) ∧ src = bytes.slice start (stop - start) := by
  simp [range]

theorem returns_copyRange :
    Fallible.Returns (copyRange bytes start stop src) bytes' ↔
      (start ≤ stop ∧ stop ≤ bytes.length ∧ src.length = stop - start) ∧
        bytes' = bytes.overwrite start src := by
  simp [copyRange]

-- Whether the position gets its byte from the section's data.
def Copied (sec : PeSection) (x : Nat) : Prop :=
  sec.virtualAddress.toNat ≤ x ∧ x < sec.virtualAddress.toNat + sec.rawDataSize.toNat

theorem Copied.covers (h : Copied sec x) : Covers sec x :=
  ⟨h.left, Nat.lt_of_lt_of_le h.right (Nat.add_le_add_left (Nat.le_max_left ..) _)⟩

structure Copies (file : List U8) (sec : PeSection) (bytes bytes' : List U8) : Prop where
  length : bytes'.length = bytes.length
  copied : ∀ x, Copied sec x → x < bytes.length ∧
    ∃ b, file[sec.rawDataOffset.toNat + (x - sec.virtualAddress.toNat)]? = some b ∧
      bytes'[x]? = some b
  others : ∀ x, ¬Copied sec x → bytes'[x]? = bytes[x]?

theorem copySection_copies (h : Fallible.Returns (copySection img file idx sec bytes) bytes') :
    Copies file sec bytes bytes' := by
  simp only [copySection, returns_ite, returns_pure, returns_bind,
    returns_orFail, returns_range, returns_copyRange, Option.filter_eq_some_iff,
    Option.map_eq_some_iff, BitVec.checkedAdd_eq_some, decide_eq_true_eq] at h
  cases h with
  | inl h =>
    obtain ⟨hz, he⟩ := h
    subst he
    refine ⟨rfl, fun x hx => ?_, fun _ _ => rfl⟩
    have hx : _ ∧ _ < _ + sec.rawDataSize.toNat := hx
    rw [hz] at hx
    exact absurd hx.left (Nat.not_le.mpr hx.right)
  | inr h =>
    obtain ⟨_, vaEnd, ⟨hva, _⟩, rawEnd, ⟨⟨rawEnd', hraw, he⟩, hfile⟩, src, hsrc, hcopy⟩ := h
    subst he
    obtain ⟨_, hsrc⟩ := hsrc
    obtain ⟨⟨_, hlen, hsize⟩, hbytes⟩ := hcopy
    subst hbytes
    have hget : ∀ x, (bytes.overwrite sec.virtualAddress.toNat src)[x]? = _ := fun x =>
      List.getElem?_overwrite (by omega)
    refine ⟨List.length_overwrite, fun x hx => ?_, fun x hx => ?_⟩
    · obtain ⟨hlo, hhi⟩ := hx
      have hlt : sec.rawDataOffset.toNat + (x - sec.virtualAddress.toNat) < file.length := by omega
      refine ⟨by omega, _, List.getElem?_eq_getElem hlt, ?_⟩
      rw [hget, if_pos (by omega), hsrc, List.getElem?_slice, if_pos (by omega),
        List.getElem?_eq_getElem hlt]
    · rw [hget, if_neg]
      unfold Copied at hx
      omega

theorem copySections_others (h : Fallible.Returns (copySections img file idx secs bytes) bytes')
    (hx : ∀ sec ∈ secs, ¬Copied sec x) : bytes'[x]? = bytes[x]? := by
  induction secs generalizing idx bytes with
  | nil =>
    rw [copySections, returns_pure] at h
    rw [h]
  | cons sec secs hi =>
    rw [copySections, returns_bind] at h
    have ⟨_, hsec, hsecs⟩ := h
    have ⟨hx, hxs⟩ := List.forall_mem_cons.mp hx
    rw [hi hsecs hxs, (copySection_copies hsec).others x hx]

theorem copySections_copied (h : Fallible.Returns (copySections img file idx secs bytes) bytes')
    (hdisj : secs.Pairwise Apart) (hm : sec ∈ secs)
    (hx : Copied sec x) :
    ∃ b, file[sec.rawDataOffset.toNat + (x - sec.virtualAddress.toNat)]? = some b ∧
      bytes'[x]? = some b := by
  induction secs generalizing idx bytes with
  | nil => nomatch hm
  | cons s secs hi =>
    rw [copySections, returns_bind] at h
    have ⟨_, hsec, hsecs⟩ := h
    have ⟨hfirst, hdisj⟩ := List.pairwise_cons.mp hdisj
    cases hm with
    | head =>
      have ⟨_, b, hfile, hb⟩ := (copySection_copies hsec).copied x hx
      refine ⟨b, hfile, ?_⟩
      rw [copySections_others hsecs fun s hs hx' => hfirst s hs x hx.covers hx'.covers, hb]
    | tail _ hm => exact hi hsecs hdisj hm

theorem returns_mapImage (h : Fallible.Returns (mapImage img file) mapped) :
    Fallible.Returns
      (copySections img file 0 img.sections (List.replicate img.sizeOfImage.toNat 0))
      mapped.bytes ∧ mapped.base = img.imageBase ∧
      img.imageBase.toNat + img.entryPointRva.toNat = mapped.entryPc.toNat := by
  simp only [mapImage, returns_ite, returns_throw, and_false, false_or,
    returns_bind, returns_pure, returns_orAbort,
    BitVec.checkedAdd_eq_some] at h
  obtain ⟨_, _, _, bytes, hbytes, entryPc, hentry, he⟩ := h
  subst he
  refine ⟨hbytes, rfl, ?_⟩
  rw [← hentry, BitVec.toNat_setWidth_of_le (by decide)]

theorem mapImage_bytes (h : Fallible.Returns (mapImage img file) mapped)
    (hdisj : img.sections.Pairwise Apart) (hm : sec ∈ img.sections) (hk : k < sec.virtualSize.toNat) :
    if k < sec.rawDataSize.toNat then
      file[sec.rawDataOffset.toNat + k]? =
        some (mapped.bytes.getD (sec.virtualAddress.toNat + k) 0)
    else mapped.bytes.getD (sec.virtualAddress.toNat + k) 0 = 0 := by
  have ⟨hcopy, _⟩ := returns_mapImage h
  rw [List.getD_eq_getElem?_getD]
  split
  case isTrue hraw =>
    have hx : Copied sec (sec.virtualAddress.toNat + k) := ⟨by omega, by omega⟩
    have ⟨b, hfile, hb⟩ := copySections_copied hcopy hdisj hm hx
    rw [Nat.add_sub_cancel_left] at hfile
    rw [hfile, hb, Option.getD_some]
  case isFalse hraw =>
    have hcov : Covers sec (sec.virtualAddress.toNat + k) :=
      ⟨Nat.le_add_right .., Nat.add_lt_add_left (Nat.lt_of_lt_of_le hk (Nat.le_max_right ..)) _⟩
    rw [copySections_others hcopy, List.getElem?_replicate]
    · split <;> rfl
    · intro s hs hx
      by_cases he : s = sec
      case pos =>
        have := hx.right
        rw [he] at this
        omega
      case neg => exact hdisj.forall hs hm he _ hx.covers hcov

end PeLoader

end Prisma
