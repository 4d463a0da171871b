import Prisma.Orchestrator.MappedMemory
import Prisma.Orchestrator.Theorems.AddressSpace

namespace Prisma

open Extent Placed BitVec Option List

namespace GuestArena

variable {arena : GuestArena} {va : U64} {len off : Nat}

theorem toNat_size : arena.size.toNat = arena.bytes.length := by
  rw [size, toNat_ofNat, Nat.mod_eq_of_lt (Nat.lt_trans arena.fits (by decide))]

theorem offset_eq_some :
    arena.offset va len = some off ↔
      arena.base.toNat + off = va.toNat ∧ off + len ≤ arena.bytes.length := by
  have hfits := arena.fits
  have := va.isLt
  simp only [offset, bind, bind_eq_some_iff, checkedSub_eq_some,
    checkedAddNat_eq_some, le_def, toNat_size]
  constructor
  · rintro ⟨o, ho, e, he, hif⟩
    split at hif
    case isTrue hle =>
      cases hif
      omega
    case isFalse => nomatch hif
  · rintro ⟨hva, hle⟩
    refine ⟨BitVec.ofNat 64 off, ?_, BitVec.ofNat 64 (off + len), ?_, ?_⟩
    all_goals simp only [toNat_ofNat]
    · omega
    · omega
    · rw [if_pos (by omega), Nat.mod_eq_of_lt (by omega)]

theorem isSome_offset : (arena.offset va len).isSome ↔
    arena.base.toNat ≤ va.toNat ∧ va.toNat + len ≤ arena.base.toNat + arena.bytes.length := by
  rw [isSome_iff_exists]
  constructor
  · rintro ⟨off, hoff⟩
    have := offset_eq_some.mp hoff
    omega
  · intro h
    exact ⟨va.toNat - arena.base.toNat, offset_eq_some.mpr (by omega)⟩

theorem write_eq_some (h : arena.write va src = some arena') :
    ∃ off, arena.base.toNat + off = va.toNat ∧ off + src.length ≤ arena.bytes.length ∧
      arena'.base = arena.base ∧ arena'.bytes = arena.bytes.overwrite off src := by
  have ⟨off, hoff, he⟩ := bind_eq_some_iff.mp h
  have ⟨hva, hle⟩ := offset_eq_some.mp hoff
  cases he
  exact ⟨off, hva, hle, rfl, rfl⟩

theorem isSome_write : (arena.write va src).isSome = (arena.offset va src.length).isSome := by
  rw [write]
  cases arena.offset va src.length <;> rfl

theorem offset_congr {arena' : GuestArena} (hb : arena'.base = arena.base)
    (hl : arena'.bytes.length = arena.bytes.length) : arena'.offset va len = arena.offset va len := by
  refine Option.ext fun off => ?_
  rw [offset_eq_some, offset_eq_some, hb, hl]

end GuestArena

theorem MappedMemory.resizeByte_eq {base oldSize newSize : U64}
    (hold : base.toNat + oldSize.toNat < 2 ^ 64) (hnew : base.toNat + newSize.toNat < 2 ^ 64) :
    resizeByte f base oldSize newSize x =
      if InRange base oldSize.toNat x then if InRange base newSize.toNat x then f x else none
      else if InRange base newSize.toNat x then some 0 else f x := by
  have hlo : (base + oldSize).toNat = base.toNat + oldSize.toNat := by
    rw [toNat_add, Nat.mod_eq_of_lt hold]
  have hlo' : (base + newSize).toNat = base.toNat + newSize.toNat := by
    rw [toNat_add, Nat.mod_eq_of_lt hnew]
  by_cases hle : oldSize ≤ newSize
  case pos =>
    rw [resizeByte, if_pos hle, give, length_replicate, List.getElem?_replicate,
      toNat_sub_of_le hle]
    rw [le_def] at hle
    split_ifs
    all_goals first | rfl | (simp only [InRange] at *; omega)
  case neg =>
    have hlt : newSize ≤ oldSize := BitVec.le_of_lt (BitVec.not_le.mp hle)
    rw [resizeByte, if_neg hle, take, toNat_sub_of_le hlt]
    rw [le_def] at hlt
    split_ifs
    all_goals first | rfl | (simp only [InRange] at *; omega)

namespace BackedAddressSpace

variable {space space' : BackedAddressSpace} {arena : GuestArena} {r : MemRegion}
  {regions before after : List MemRegion} {base x : U64} {i : Nat} {b : U8}

-- What keeps the bytes where the regions expect them.
structure Sound (space : BackedAddressSpace) : Prop where
  wellFormed : Placed.WellFormed space.regions
  owned : space.arena = none → ∀ r ∈ space.regions, ∃ bytes, r.bytes = some bytes ∧
    bytes.length = r.len.toNat
  window : ∀ arena, space.arena = some arena → ∀ r ∈ space.regions, r.bytes = none ∧
    arena.base.toNat ≤ lo r ∧ hi r ≤ arena.base.toNat + arena.bytes.length

theorem sound_new : Sound new where
  wellFormed := .nil
  owned _ _ h := nomatch h
  window _ _ _ h := nomatch h

theorem sound_arena : Sound ⟨[], some arena⟩ where
  wellFormed := .nil
  owned _ _ h := nomatch h
  window _ _ _ h := nomatch h

section View

theorem wellFormed_view (h : Placed.WellFormed regions) :
    Placed.WellFormed (regions.map MemRegion.asRegion) where
  nonempty ha := by
    have ⟨r, hr, he⟩ := mem_map.mp ha
    exact he ▸ h.nonempty hr
  apart := pairwise_map.mpr h.apart
  fits ha := by
    have ⟨r, hr, he⟩ := mem_map.mp ha
    exact he ▸ h.fits hr

theorem regions_view : space.view.space.regions = space.regions.map MemRegion.asRegion :=
  rfl

-- The byte of a region at an address.
def cell (space : BackedAddressSpace) (r : MemRegion) (x : U64) : Option U8 :=
  match r.bytes, space.arena with
  | some bytes, _ => bytes[x.toNat - lo r]?
  | none, some arena => arena.bytes[x.toNat - arena.base.toNat]?
  | none, none => none

theorem Sound.offset (h : Sound space) (ha : space.arena = some arena) (hm : r ∈ space.regions) :
    r.bytes = none ∧ arena.base.toNat ≤ lo r ∧
      r.base.checkedSub arena.base = some (r.base - arena.base) ∧
      (r.base - arena.base).toNat = lo r - arena.base.toNat ∧
      lo r - arena.base.toNat + r.len.toNat ≤ arena.bytes.length := by
  have ⟨hb, hlo, hhi⟩ := h.window arena ha r hm
  have : hi r = lo r + r.len.toNat := rfl
  exact ⟨hb, hlo, if_pos hlo, toNat_sub_of_le (le_def.mpr hlo), by omega⟩

theorem regionBytes_eq (h : Sound space) (hr : space.regions[i]? = some r) :
    ∃ bytes, space.regionBytes i = some bytes ∧ bytes.length = r.len.toNat ∧
      ∀ x, Covers r x.toNat → bytes[x.toNat - lo r]? = space.cell r x := by
  have hm := mem_of_getElem? hr
  cases ha : space.arena with
  | none =>
    have ⟨bytes, hb, hl⟩ := h.owned ha r hm
    refine ⟨bytes, ?_, hl, fun x _ => ?_⟩
    · simp [regionBytes, hr, hb]
    · rw [cell, hb]
  | some arena =>
    have ⟨hb, hlo, hsub, hoff, hfit⟩ := h.offset ha hm
    refine ⟨_, ?_, length_slice hfit, fun x hx => ?_⟩
    · simp only [regionBytes, hr, hb, ha, hsub, hoff, bind, bind_some, if_pos hfit]
    · have hx : lo r ≤ x.toNat ∧ x.toNat < lo r + r.len.toNat := hx
      rw [List.getElem?_slice, if_pos (by omega), cell, hb, ha]
      simp only
      congr 1
      omega

theorem view_byte_of_covers (h : Sound space) (hr : r ∈ space.regions)
    (hc : Covers r x.toNat) : space.view.byte x = space.cell r x := by
  have ⟨i, hi, hget⟩ := regionIdx_of_covers h.wellFormed hr hc
  have ⟨bytes, hbytes, _, hcell⟩ := regionBytes_eq h hget
  have hoff : (x - r.base).toNat = x.toNat - lo r :=
    toNat_sub_of_le (le_def.mpr hc.left)
  simp only [view, regionIdx, hi, hget, hbytes, bind, bind_some, hoff, hcell x hc]

theorem view_byte_eq_none (h : Sound space) (hc : ∀ r ∈ space.regions, ¬Covers r x.toNat) :
    space.view.byte x = none := by
  have hi : space.regionIdx x = none := by
    refine eq_none_iff_forall_not_mem.mpr fun i hi => ?_
    have ⟨r, hr, hcov⟩ := regionIdx_eq_some h.wellFormed hi
    exact hc r (mem_of_getElem? hr) hcov
  simp only [view, hi, bind, bind_none]

theorem view_byte_eq_some (h : Sound space) :
    space.view.byte x = some b ↔
      ∃ r ∈ space.regions, Covers r x.toNat ∧ space.cell r x = some b := by
  constructor
  · intro hb
    by_contra hn
    by_cases hc : ∃ r ∈ space.regions, Covers r x.toNat
    case pos =>
      have ⟨r, hr, hcov⟩ := hc
      exact hn ⟨r, hr, hcov, view_byte_of_covers h hr hcov ▸ hb⟩
    case neg =>
      rw [view_byte_eq_none h fun r hr hcov => hc ⟨r, hr, hcov⟩] at hb
      nomatch hb
  · rintro ⟨r, hr, hcov, hb⟩
    rw [view_byte_of_covers h hr hcov, hb]

end View

theorem view_byte_congr (h : Sound space) (h' : Sound space')
    (hkeep : ∀ r ∈ space.regions, Covers r x.toNat →
      ∃ r' ∈ space'.regions, Covers r' x.toNat ∧ space'.cell r' x = space.cell r x)
    (hback : ∀ r' ∈ space'.regions, Covers r' x.toNat → ∃ r ∈ space.regions, Covers r x.toNat) :
    space'.view.byte x = space.view.byte x := by
  by_cases hc : ∃ r ∈ space.regions, Covers r x.toNat
  case pos =>
    have ⟨r, hr, hcov⟩ := hc
    have ⟨r', hr', hcov', hcell⟩ := hkeep r hr hcov
    rw [view_byte_of_covers h' hr' hcov', view_byte_of_covers h hr hcov, hcell]
  case neg =>
    rw [view_byte_eq_none h fun r hr hcov => hc ⟨r, hr, hcov⟩,
      view_byte_eq_none h' fun r hr hcov => hc (hback r hr hcov)]

section Split

variable {new : Option MemRegion} (h : Sound space) (h' : Sound space')
  (hl : space.regions = before ++ r :: after)
  (hl' : space'.regions = before ++ new.toList ++ after)
include h h' hl hl'

theorem view_byte_removed (hr : Covers r x.toNat) (hn : ∀ r' ∈ new, ¬Covers r' x.toNat) :
    space'.view.byte x = none := by
  refine view_byte_eq_none h' fun c hc hcov => ?_
  have hw : Placed.WellFormed (before ++ r :: after) := hl ▸ h.wellFormed
  rw [hl', mem_append, mem_append, mem_toList] at hc
  match hc with
  | .inl (.inl hc) => exact hw.not_covers hr c (mem_append_left _ hc) hcov
  | .inl (.inr hc) => exact hn c hc hcov
  | .inr hc => exact hw.not_covers hr c (mem_append_right _ hc) hcov

theorem view_byte_others (hr : ¬Covers r x.toNat) (hn : ∀ r' ∈ new, ¬Covers r' x.toNat)
    (hcell : ∀ c ∈ before ++ after, Covers c x.toNat → space'.cell c x = space.cell c x) :
    space'.view.byte x = space.view.byte x := by
  refine view_byte_congr h h' (fun c hc hcov => ?_) (fun c hc hcov => ?_)
  · rw [hl, mem_append, mem_cons] at hc
    have hm : c ∈ before ++ after := by
      match hc with
      | .inl hc => exact mem_append_left _ hc
      | .inr (.inl he) => exact absurd (he ▸ hcov) hr
      | .inr (.inr hc) => exact mem_append_right _ hc
    refine ⟨c, ?_, hcov, hcell c hm hcov⟩
    rw [hl']
    simp only [mem_append] at hm ⊢
    tauto
  · rw [hl', mem_append, mem_append, mem_toList] at hc
    refine ⟨c, ?_, hcov⟩
    rw [hl]
    match hc with
    | .inl (.inl hc) => exact mem_append_left _ hc
    | .inl (.inr hc) => exact absurd hcov (hn c hc)
    | .inr hc => exact mem_append_right _ (.tail _ hc)

end Split

-- A call has the same result as on the view, and leaves a space with the right view.
structure Refines {ε : Type} (space : BackedAddressSpace) (result : ε × BackedAddressSpace)
    (spec : ε × MappedMemory) : Prop where
  fst : result.fst = spec.fst
  view : result.snd.view = spec.snd
  sound : result.snd.Sound
  room : result.snd.room = space.room

theorem Refines.unchanged {ε : Type} {result : ε} (h : Sound space) :
    Refines space (result, space) (result, space.view) :=
  ⟨rfl, rfl, h, rfl⟩

theorem room_owned (ha : space.arena = none) : space.room base n = true := by
  rw [room, ha]

theorem room_arena (ha : space.arena = some arena) :
    space.room base n = (arena.offset base n).isSome := by
  rw [room, ha]

theorem room_congr (ha : space.arena = some arena) (ha' : space'.arena = some arena')
    (hb : arena'.base = arena.base) (hl : arena'.bytes.length = arena.bytes.length) :
    space'.room = space.room := by
  funext base n
  rw [room_arena ha, room_arena ha', GuestArena.offset_congr hb hl]

end BackedAddressSpace

end Prisma
