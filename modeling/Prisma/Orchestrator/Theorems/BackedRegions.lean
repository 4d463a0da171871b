import Prisma.Orchestrator.Theorems.BackedView

namespace Prisma.BackedAddressSpace

open Extent Placed List BitVec Option

variable {space space' : BackedAddressSpace} {arena : GuestArena} {r : MemRegion}
  {regions before after : List MemRegion} {base newSize x : U64} {prot : Protection}
  {bytes : List U8}

theorem view_eq {mem : MappedMemory} (hs : space.view.space.regions = mem.space.regions)
    (hb : space.view.byte = mem.byte) : space.view = mem :=
  match mem, hs, hb with
  | ⟨⟨_⟩, _⟩, rfl, rfl => rfl

section Insert

-- The memory that a successful insertion leaves.
abbrev inserted (mem : MappedMemory) (base : U64) (prot : Protection) (bytes : List U8) :
    MappedMemory :=
  ⟨⟨mem.space.regions.insertIdx (mem.space.regions.partitionPoint (·.base < base))
    ⟨base, BitVec.ofNat 64 bytes.length, prot, ""⟩⟩, MappedMemory.give mem.byte base bytes⟩

theorem find?_overlaps_view {endAddr : U64} (he : base.saturatingAdd len = endAddr) :
    (regions.map MemRegion.asRegion).find? (·.overlaps base len) =
      (regions.find? fun r => r.base < endAddr && base < r.endAddr).map MemRegion.asRegion := by
  rw [List.find?_map]
  congr 2
  funext r
  simp only [Function.comp_apply, Region.overlaps, he]
  rfl

theorem mem_insertIdx :
    r' ∈ regions.insertIdx (regions.partitionPoint p) r ↔ r' = r ∨ r' ∈ regions := by
  have hm : r' ∈ regions ↔ r' ∈ regions.takeWhile p ∨ r' ∈ regions.dropWhile p := by
    rw [← mem_append, takeWhile_append_dropWhile]
  rw [insertIdx_partitionPoint, mem_append, mem_cons, hm]
  tauto

theorem map_insertIdx_view :
    (regions.insertIdx (regions.partitionPoint (·.base < base)) r).map MemRegion.asRegion =
      (regions.map MemRegion.asRegion).insertIdx
        ((regions.map MemRegion.asRegion).partitionPoint (·.base < base)) r.asRegion := by
  rw [insertIdx_partitionPoint, insertIdx_partitionPoint, map_append, map_cons,
    takeWhile_map, dropWhile_map]
  rfl

theorem view_byte_insert (h : Sound space) (h' : Sound space')
    (hm : ∀ c, c ∈ space'.regions ↔ c = r ∨ c ∈ space.regions)
    (hr : ∀ x : U64, Covers r x.toNat ↔ MappedMemory.InRange base bytes.length x)
    (hnew : ∀ x, Covers r x.toNat → space'.cell r x = bytes[x.toNat - base.toNat]?)
    (hold : ∀ c ∈ space.regions, ∀ x, Covers c x.toNat → ¬Covers r x.toNat →
      space'.cell c x = space.cell c x) :
    space'.view.byte = MappedMemory.give space.view.byte base bytes := by
  funext x
  rw [MappedMemory.give]
  split
  case isTrue hx =>
    have hcov := (hr x).mpr hx
    rw [view_byte_of_covers h' ((hm r).mpr (.inl rfl)) hcov, hnew x hcov]
  case isFalse hx =>
    have hcov := mt (hr x).mp hx
    refine view_byte_congr h h' (fun c hc hcc => ?_) (fun c hc hcc => ?_)
    · exact ⟨c, (hm c).mpr (.inr hc), hcc, hold c hc x hcc hcov⟩
    · cases (hm c).mp hc with
      | inl he => exact absurd (he ▸ hcc) hcov
      | inr hc => exact ⟨c, hc, hcc⟩

theorem map_view (hl : bytes.length < 2 ^ 64) :
    (space.view.space.map base (BitVec.ofNat 64 bytes.length) prot "").fst =
      (if bytes.length = 0 then .error .zeroSize
      else
        match base.checkedAddNat bytes.length with
        | none => .error (.overflow base (BitVec.ofNat 64 bytes.length))
        | some endAddr =>
          match space.regions.find? (fun r => r.base < endAddr && base < r.endAddr) with
          | some r => .error (.overlap base r.base)
          | none => .ok ()) := by
  have hlen : (BitVec.ofNat 64 bytes.length).toNat = bytes.length := Nat.mod_eq_of_lt hl
  rw [AddressSpace.map]
  by_cases hz : bytes.length = 0
  case pos => rw [if_pos hz, if_pos (by rw [hz]; rfl)]
  rw [if_neg hz, if_neg (fun he => hz (by rw [← hlen, he]; rfl))]
  cases hend : base.checkedAddNat bytes.length with
  | none =>
    rw [checkedAddNat_eq_none] at hend
    rw [if_pos]
    rw [isNone_iff_eq_none, checkedAdd_eq_none, hlen]
    exact hend
  | some endAddr =>
    rw [checkedAddNat_eq_some] at hend
    have := endAddr.isLt
    have hsat : base.saturatingAdd (BitVec.ofNat 64 bytes.length) = endAddr := by
      apply eq_of_toNat_eq
      rw [toNat_saturatingAdd, hlen]
      omega
    rw [if_neg, regions_view, find?_overlaps_view hsat]
    · dsimp only
      cases space.regions.find? (fun r => r.base < endAddr && base < r.endAddr) <;> rfl
    · rw [isNone_iff_eq_none, checkedAdd_eq_none, hlen]
      omega

theorem insert_of_error {mem : MappedMemory} {room : U64 → Nat → Bool} {e : AddressSpaceError}
    (hl : bytes.length < 2 ^ 64)
    (hm : (mem.space.map base (BitVec.ofNat 64 bytes.length) prot "").fst = .error e) :
    mem.insert room base prot bytes = (.error e, mem) := by
  rw [MappedMemory.insert, if_neg (by omega)]
  split
  case _ he => rw [he] at hm; cases hm; rfl
  case _ he => rw [he] at hm; nomatch hm

theorem insert_of_ok {mem : MappedMemory} {room : U64 → Nat → Bool} (hl : bytes.length < 2 ^ 64)
    (hm : (mem.space.map base (BitVec.ofNat 64 bytes.length) prot "").fst = .ok ()) :
    mem.insert room base prot bytes =
      if room base bytes.length then (.ok (), inserted mem base prot bytes)
      else (.error (.noSpace (BitVec.ofNat 64 bytes.length)), mem) := by
  rw [MappedMemory.insert, if_neg (by omega), AddressSpace.map_eq_of_ok hm]

section Placed

variable (h : Sound space) (hz : bytes.length ≠ 0) (hfits : base.toNat + bytes.length < 2 ^ 64)
  (hfree : ∀ r ∈ space.regions, ¬Meets r base.toNat (base.toNat + bytes.length))
include h hz hfits hfree

theorem wellFormed_insert (hb : r.base = base) (hl : r.len = BitVec.ofNat 64 bytes.length) :
    Placed.WellFormed
      (space.regions.insertIdx (space.regions.partitionPoint (·.base < base)) r) := by
  have hlen : (BitVec.ofNat 64 bytes.length).toNat = bytes.length := Nat.mod_eq_of_lt (by omega)
  have hlo : lo r = base.toNat := congrArg BitVec.toNat hb
  have hhi : hi r = base.toNat + bytes.length := by
    show r.base.toNat + r.len.toNat = _
    rw [hb, hl, hlen]
  have := h.wellFormed.insert (r := r) (by omega) (by omega) (by rwa [hlo, hhi])
  rwa [show Placed.base r = base from hb] at this

theorem insert_refines (hr : r = ⟨base, prot, BitVec.ofNat 64 bytes.length, stored⟩)
    (hregions : space'.regions =
      space.regions.insertIdx (space.regions.partitionPoint (·.base < base)) r)
    (howned : space'.arena = none → ∀ r ∈ space'.regions, ∃ bytes, r.bytes = some bytes ∧
      bytes.length = r.len.toNat)
    (hwindow : ∀ arena, space'.arena = some arena → ∀ r ∈ space'.regions, r.bytes = none ∧
      arena.base.toNat ≤ lo r ∧ hi r ≤ arena.base.toNat + arena.bytes.length)
    (hroom : space'.room = space.room)
    (hnew : ∀ x, Covers r x.toNat → space'.cell r x = bytes[x.toNat - base.toNat]?)
    (hold : ∀ c ∈ space.regions, ∀ x, Covers c x.toNat → ¬Covers r x.toNat →
      space'.cell c x = space.cell c x) :
    Refines (ε := Except AddressSpaceError Unit) space (.ok (), space')
      (.ok (), inserted space.view base prot bytes) := by
  subst hr
  have hs : Sound space' :=
    ⟨hregions ▸ wellFormed_insert h hz hfits hfree rfl rfl, howned, hwindow⟩
  refine ⟨rfl, view_eq ?_ (view_byte_insert h hs (fun c => ?_) (fun x => ?_) hnew hold), hs, hroom⟩
  · rw [regions_view, hregions, map_insertIdx_view]
    rfl
  · rw [hregions, mem_insertIdx]
  · have hlen : (BitVec.ofNat 64 bytes.length).toNat = bytes.length :=
      Nat.mod_eq_of_lt (by omega)
    show base.toNat ≤ x.toNat ∧ x.toNat < base.toNat + (BitVec.ofNat 64 _).toNat ↔ _
    rw [hlen]
    rfl

theorem insert_owned (ha : space.arena = none) :
    Refines (ε := Except AddressSpaceError Unit) space
      (.ok (), ⟨space.regions.insertIdx (space.regions.partitionPoint (·.base < base))
        ⟨base, prot, BitVec.ofNat 64 bytes.length, some bytes⟩, none⟩)
      (.ok (), inserted space.view base prot bytes) := by
  refine insert_refines h hz hfits hfree rfl rfl (fun _ c hc => ?_) (fun _ ha' => by cases ha') ?_
    (fun _ _ => rfl) fun c hc x _ _ => ?_
  · cases mem_insertIdx.mp hc with
    | inl he => exact ⟨bytes, he ▸ rfl, he ▸ (Nat.mod_eq_of_lt (by omega)).symm⟩
    | inr hc => exact h.owned ha c hc
  · funext base len
    rw [room, room, ha]
  · obtain ⟨bytes', hb, _⟩ := h.owned ha c hc
    rw [cell, cell, hb]

theorem insert_arena (ha : space.arena = some arena) (hw : arena.write base bytes = some arena') :
    Refines (ε := Except AddressSpaceError Unit) space
      (.ok (), ⟨space.regions.insertIdx (space.regions.partitionPoint (·.base < base))
        ⟨base, prot, BitVec.ofNat 64 bytes.length, none⟩, some arena'⟩)
      (.ok (), inserted space.view base prot bytes) := by
  obtain ⟨off, hoff, hle, hbase, hbytes⟩ := GuestArena.write_eq_some hw
  have hlen : (BitVec.ofNat 64 bytes.length).toNat = bytes.length := Nat.mod_eq_of_lt (by omega)
  have hsize : arena'.bytes.length = arena.bytes.length := by rw [hbytes, length_overwrite]
  refine insert_refines h hz hfits hfree rfl rfl (fun ha' => by cases ha') (fun a ha' c hc => ?_) ?_
    (fun x hx => ?_) fun c hc x hcov hx => ?_
  · cases ha'
    rw [hbase, hsize]
    cases mem_insertIdx.mp hc with
    | inl he =>
      subst he
      refine ⟨rfl, ?_⟩
      show arena.base.toNat ≤ base.toNat ∧ base.toNat + (BitVec.ofNat 64 bytes.length).toNat ≤ _
      omega
    | inr hc => exact h.window arena ha c hc
  · exact room_congr ha rfl hbase hsize
  · have hx : base.toNat ≤ x.toNat ∧
        x.toNat < base.toNat + (BitVec.ofNat 64 bytes.length).toNat := hx
    rw [cell]
    dsimp only
    rw [hbytes, hbase, List.getElem?_overwrite hle, if_pos (by omega)]
    congr 1
    omega
  · have hx : ¬(base.toNat ≤ x.toNat ∧
        x.toNat < base.toNat + (BitVec.ofNat 64 bytes.length).toNat) := hx
    obtain ⟨hb, hlo, _⟩ := h.window arena ha c hc
    have := hcov.left
    rw [cell, cell, hb, ha]
    dsimp only
    rw [hbytes, hbase, List.getElem?_overwrite hle, if_neg (by omega)]

end Placed

theorem not_meets_of_find? (h : Sound space) {endAddr : U64}
    (hend : base.toNat + bytes.length = endAddr.toNat)
    (hnone : space.regions.find? (fun r => r.base < endAddr && base < r.endAddr) = none) :
    ∀ r ∈ space.regions, ¬Meets r base.toNat (base.toNat + bytes.length) := by
  intro r hr ⟨hlo, hhi⟩
  refine List.find?_eq_none.mp hnone r hr ?_
  rw [Bool.and_eq_true, decide_eq_true_iff, decide_eq_true_iff, lt_def, lt_def,
    MemRegion.endAddr, toNat_endAddr (h.wellFormed.fits hr), ← hend]
  exact ⟨hlo, hhi⟩

theorem insertRegion_refines (h : Sound space) :
    Refines space (space.insertRegion base prot bytes)
      (space.view.insert space.room base prot bytes) := by
  by_cases hl : bytes.length < 2 ^ 64
  case neg =>
    rw [insertRegion, if_neg (by omega), checkedAddNat_eq_none.mpr (by omega),
      MappedMemory.insert, if_pos (by omega)]
    exact .unchanged h
  have hmap : (space.view.space.map base _ prot "").fst = _ := map_view hl
  rw [insertRegion]
  split
  case isTrue hz =>
    rw [if_pos hz] at hmap
    rw [insert_of_error hl hmap]
    exact .unchanged h
  case isFalse hz =>
    rw [if_neg hz] at hmap
    split
    case _ hend =>
      rw [hend] at hmap
      rw [insert_of_error hl hmap]
      exact .unchanged h
    case _ endAddr hend =>
      rw [hend] at hmap
      dsimp only at hmap
      split
      case _ r hr =>
        rw [hr] at hmap
        rw [insert_of_error hl hmap]
        exact .unchanged h
      case _ hnone =>
        rw [hnone] at hmap
        rw [insert_of_ok hl hmap]
        rw [checkedAddNat_eq_some] at hend
        have hfits : base.toNat + bytes.length < 2 ^ 64 := hend ▸ endAddr.isLt
        have hfree := not_meets_of_find? h hend hnone
        cases ha : space.arena with
        | none =>
          rw [if_pos (room_owned ha)]
          exact insert_owned h hz hfits hfree ha
        | some arena =>
          dsimp only
          cases hw : arena.write base bytes with
          | none =>
            rw [if_neg (by rw [room_arena ha, ← GuestArena.isSome_write, hw]; exact nofun)]
            exact .unchanged h
          | some arena' =>
            rw [if_pos (by rw [room_arena ha, ← GuestArena.isSome_write, hw]; rfl)]
            exact insert_arena h hz hfits hfree ha hw

end Insert

section Edit

theorem covers_iff (hb : r.base = base) :
    Covers r x.toNat ↔ MappedMemory.InRange base r.len.toNat x := by
  subst hb
  rfl

section Split

variable (hl : space.regions = before ++ r :: after)

include hl

theorem view_split :
    space.view.space.regions =
      before.map MemRegion.asRegion ++ r.asRegion :: after.map MemRegion.asRegion := by
  rw [regions_view, hl, map_append, map_cons]

theorem mem_of_split : r ∈ space.regions :=
  hl ▸ mem_append_right _ (.head _)

theorem mem_of_others (hc : c ∈ before ++ after) :
    c ∈ space.regions := by
  rw [hl]
  simp only [mem_append, mem_cons] at hc ⊢
  tauto

end Split

theorem split_of_find? (hr : space.regions.find? (·.base = base) = some r) :
    ∃ before after, space.regions = before ++ r :: after ∧ r.base = base ∧
      space.regions.findIdx (·.base = base) = before.length ∧
      space.view.space.regions.find? (·.base = base) = some r.asRegion ∧
      space.view.space.regions.findIdx (·.base = base) =
        (before.map MemRegion.asRegion).length := by
  have ⟨before, after, hl, hidx, hb⟩ := List.find?_split hr
  refine ⟨before, after, hl, of_decide_eq_true hb, hidx, ?_, ?_⟩
  · rw [regions_view, List.find?_map]
    exact congrArg (Option.map _) hr
  · rw [regions_view, findIdx_map, length_map]
    exact hidx

theorem find?_view_eq_none (hr : space.regions.find? (·.base = base) = none) :
    space.view.space.regions.find? (·.base = base) = none := by
  rw [regions_view, List.find?_map]
  exact congrArg (Option.map _) hr

theorem Sound.erase (h : Sound space) (hl : space.regions = before ++ r :: after) :
    Sound { space with regions := before ++ after } := by
  exact ⟨(hl ▸ h.wellFormed).erase, fun ha c hc => h.owned ha c (mem_of_others hl hc),
    fun a ha c hc => h.window a ha c (mem_of_others hl hc)⟩

theorem unmap_refines (h : Sound space) :
    Refines space (space.unmap base) (space.view.unmap base) := by
  unfold unmap MappedMemory.unmap AddressSpace.unmap
  cases hr : space.regions.find? (·.base = base) with
  | none =>
    rw [find?_view_eq_none hr]
    exact .unchanged h
  | some r =>
    obtain ⟨before, after, hl, hb, hidx, hview, hidx'⟩ := split_of_find? hr
    have hs := h.erase hl
    have herase : space.regions.eraseIdx before.length = before ++ after := by
      rw [hl, eraseIdx_split]
    rw [hview]
    simp only [hidx, hidx', herase]
    refine ⟨rfl, view_eq ?_ ?_, hs, rfl⟩
    · dsimp only
      rw [regions_view, map_append, view_split hl, eraseIdx_split]
    · funext x
      dsimp only
      rw [MappedMemory.take]
      have hl' : before ++ after = before ++ (none : Option MemRegion).toList ++ after := by simp
      split
      case isTrue hx => exact view_byte_removed h hs hl hl' ((covers_iff hb).mpr hx) (by simp)
      case isFalse hx =>
        exact view_byte_others h hs hl hl' (mt (covers_iff hb).mp hx) (by simp) fun _ _ _ => rfl

theorem Sound.replace (h : Sound space) (hl : space.regions = before ++ r :: after)
    (hl' : space'.regions = before ++ r' :: after) (hw : Placed.WellFormed (before ++ r' :: after))
    (howned : space'.arena = none → space.arena = none ∧
      ∃ bytes, r'.bytes = some bytes ∧ bytes.length = r'.len.toNat)
    (hwindow : ∀ a', space'.arena = some a' → ∃ a, space.arena = some a ∧ a'.base = a.base ∧
      a'.bytes.length = a.bytes.length ∧ r'.bytes = none ∧ a.base.toNat ≤ lo r' ∧
      hi r' ≤ a.base.toNat + a.bytes.length) : Sound space' := by
  have hm : ∀ c ∈ space'.regions, c = r' ∨ c ∈ space.regions := by
    intro c hc
    rw [hl', mem_append, mem_cons] at hc
    rw [hl, mem_append, mem_cons]
    tauto
  refine ⟨hl' ▸ hw, fun ha c hc => ?_, fun a' ha' c hc => ?_⟩
  · have ⟨ha, hb⟩ := howned ha
    cases hm c hc with
    | inl he => exact he ▸ hb
    | inr hc => exact h.owned ha c hc
  · have ⟨a, ha, hbase, hlen, hr'⟩ := hwindow a' ha'
    rw [hbase, hlen]
    cases hm c hc with
    | inl he => exact he ▸ hr'
    | inr hc => exact h.window a ha c hc

theorem mprotect_refines (h : Sound space) :
    Refines space (space.mprotect base prot) (space.view.mprotect base prot) := by
  unfold mprotect MappedMemory.mprotect AddressSpace.mprotect
  cases hr : space.regions.find? (·.base = base) with
  | none =>
    rw [find?_view_eq_none hr]
    exact .unchanged h
  | some r =>
    have ⟨before, after, hl, hb, hidx, hview, hidx'⟩ := split_of_find? hr
    have hmodify : space.regions.modify before.length ({ · with prot }) =
        before ++ { r with prot } :: after := by rw [hl, modify_split]
    rw [hview]
    simp only [hidx, hidx', hmodify]
    have hw : Placed.WellFormed (before ++ r :: after) := hl ▸ h.wellFormed
    have hm := mem_of_split hl
    have hs : Sound { space with regions := before ++ { r with prot } :: after } :=
      h.replace hl rfl (hw.replace rfl rfl) (fun ha => ⟨ha, h.owned ha r hm⟩)
        fun a ha => ⟨a, ha, rfl, rfl, h.window a ha r hm⟩
    refine ⟨rfl, view_eq ?_ ?_, hs, rfl⟩
    · dsimp only
      rw [regions_view, map_append, view_split hl, modify_split]
      rfl
    · funext x
      have hl' : before ++ { r with prot } :: after =
        before ++ (some { r with prot }).toList ++ after := by simp
      by_cases hx : Covers r x.toNat
      case pos =>
        have hx' : Covers { r with prot } x.toNat := hx
        have hm' : { r with prot } ∈ before ++ { r with prot } :: after :=
          mem_append_right _ (.head _)
        exact (view_byte_of_covers hs hm' hx').trans (view_byte_of_covers h hm hx).symm
      case neg =>
        refine view_byte_others h hs hl hl' hx ?_ fun _ _ _ => rfl
        rintro _ ⟨⟩
        exact hx

end Edit

section Resize

variable {r' : MemRegion}

-- The memory that a successful resize leaves.
abbrev resized (byte : U64 → Option U8) (before : List MemRegion) (r : MemRegion)
    (after : List MemRegion) (base newSize : U64) : MappedMemory :=
  ⟨⟨before.map MemRegion.asRegion ++ { r.asRegion with size := newSize } ::
    after.map MemRegion.asRegion⟩, MappedMemory.resizeByte byte base r.len newSize⟩

theorem view_byte_resize (h : Sound space) (hs : Sound space')
    (hl : space.regions = before ++ r :: after) (hl' : space'.regions = before ++ r' :: after)
    (hb : r.base = base) (hb' : r'.base = base)
    (hcell : ∀ c ∈ before ++ after, ∀ x, Covers c x.toNat → space'.cell c x = space.cell c x)
    (hold : ∀ x, Covers r x.toNat → Covers r' x.toNat → space'.cell r' x = space.cell r x)
    (hnew : ∀ x, ¬Covers r x.toNat → Covers r' x.toNat → space'.cell r' x = some 0) :
    space'.view.byte = MappedMemory.resizeByte space.view.byte base r.len r'.len := by
  have hm := mem_of_split hl
  have hm' := mem_of_split hl'
  have hl'' : space'.regions = before ++ (some r').toList ++ after := by simp [hl']
  have hsome : ∀ x : U64, ¬Covers r' x.toNat → ∀ c ∈ some r', ¬Covers c x.toNat := by
    rintro x hx _ ⟨⟩
    exact hx
  funext x
  have hcov := covers_iff (x := x) hb
  have hcov' := covers_iff (x := x) hb'
  rw [MappedMemory.resizeByte_eq (hb ▸ h.wellFormed.fits hm) (hb' ▸ hs.wellFormed.fits hm')]
  by_cases hr : Covers r x.toNat
  case pos =>
    rw [if_pos (hcov.mp hr)]
    by_cases hx : Covers r' x.toNat
    case pos =>
      rw [if_pos (hcov'.mp hx), view_byte_of_covers hs hm' hx, hold x hr hx,
        view_byte_of_covers h hm hr]
    case neg =>
      rw [if_neg (mt hcov'.mpr hx)]
      exact view_byte_removed h hs hl hl'' hr (hsome x hx)
  case neg =>
    rw [if_neg (mt hcov.mpr hr)]
    by_cases hx : Covers r' x.toNat
    case pos => rw [if_pos (hcov'.mp hx), view_byte_of_covers hs hm' hx, hnew x hr hx]
    case neg =>
      rw [if_neg (mt hcov'.mpr hx)]
      exact view_byte_others h hs hl hl'' hr (hsome x hx) fun c hc => hcell c hc x

section Sized

variable (h : Sound space) (hl : space.regions = before ++ r :: after) (hb : r.base = base)
  (hz : newSize ≠ 0) (hfits : base.toNat + newSize.toNat < 2 ^ 64)
  (hnext : ∀ c ∈ after.head?, base.toNat + newSize.toNat ≤ lo c)
include h hl hb hz hfits hnext

theorem wellFormed_resize (hb' : r'.base = base) (hlen : r'.len = newSize) :
    Placed.WellFormed (before ++ r' :: after) := by
  have hw : Placed.WellFormed (before ++ r :: after) := hl ▸ h.wellFormed
  have hhi : hi r' = base.toNat + newSize.toNat := by
    show r'.base.toNat + r'.len.toNat = _
    rw [hb', hlen]
  have hz' : r'.len ≠ 0 := hlen ▸ hz
  exact hw.resize (hb'.trans hb.symm) hz' (hhi ▸ hfits) fun c hc => hhi ▸ hnext c hc

theorem resize_owned (ha : space.arena = none) (hbytes : r.bytes = some bytes) :
    Refines (ε := Except AddressSpaceError Unit) space (.ok (), { space with regions := before ++
      { r with len := newSize, bytes := some (bytes.resize newSize.toNat 0) } :: after })
      (.ok (), resized space.view.byte before r after base newSize) := by
  have hm := mem_of_split hl
  have ⟨bytes', hbytes', hlen⟩ := h.owned ha r hm
  cases hbytes.symm.trans hbytes'
  have hs : Sound { space with regions := before ++
      { r with len := newSize, bytes := some (bytes.resize newSize.toNat 0) } :: after } :=
    h.replace hl rfl (wellFormed_resize h hl hb hz hfits hnext hb rfl)
      (fun _ => ⟨ha, _, rfl, length_resize⟩) fun a ha' => nomatch ha.symm.trans ha'
  refine ⟨rfl, view_eq ?_ (view_byte_resize h hs hl rfl hb hb ?_ ?_ ?_), hs, rfl⟩
  · dsimp only
    rw [regions_view, map_append]
    rfl
  · intro c hc x _
    have ⟨_, hc, _⟩ := h.owned ha c (mem_of_others hl hc)
    rw [cell, cell, hc]
  · intro x hx hx'
    have hx : lo r ≤ x.toNat ∧ x.toNat < lo r + r.len.toNat := hx
    have hx' : lo r ≤ x.toNat ∧ x.toNat < lo r + newSize.toNat := hx'
    rw [cell, cell, hbytes]
    dsimp only
    rw [List.getElem?_resize, if_pos (by show x.toNat - lo r < _; omega),
      getD_eq_getElem?_getD]
    show some (bytes[x.toNat - lo r]?.getD 0) = bytes[x.toNat - lo r]?
    rw [List.getElem?_eq_getElem (by omega), getD_some]
  · intro x hx hx'
    have hx : ¬(lo r ≤ x.toNat ∧ x.toNat < lo r + r.len.toNat) := hx
    have hx' : lo r ≤ x.toNat ∧ x.toNat < lo r + newSize.toNat := hx'
    rw [cell]
    dsimp only
    rw [List.getElem?_resize, if_pos (by show x.toNat - lo r < _; omega),
      getD_eq_getElem?_getD]
    show some (bytes[x.toNat - lo r]?.getD 0) = some 0
    rw [List.getElem?_eq_none (by omega), getD_none]

theorem resize_arena {arena' : GuestArena} (ha : space.arena = some arena)
    (hwindow : base.toNat + newSize.toNat ≤ arena.base.toNat + arena.bytes.length)
    (hbase : arena'.base = arena.base) (hsize : arena'.bytes.length = arena.bytes.length)
    (hzero : ∀ x : U64, r.base.toNat + r.len.toNat ≤ x.toNat →
      x.toNat < base.toNat + newSize.toNat → arena'.bytes[x.toNat - arena.base.toNat]? = some 0)
    (hkeep : ∀ x : U64, arena.base.toNat ≤ x.toNat → ¬(r.base.toNat + r.len.toNat ≤ x.toNat ∧
      x.toNat < base.toNat + newSize.toNat) →
      arena'.bytes[x.toNat - arena.base.toNat]? = arena.bytes[x.toNat - arena.base.toNat]?) :
    Refines (ε := Except AddressSpaceError Unit) space
      (.ok (), ⟨before ++ { r with len := newSize } :: after, some arena'⟩)
      (.ok (), resized space.view.byte before r after base newSize) := by
  have hm := mem_of_split hl
  have ⟨hbytes, hlo, hhi⟩ := h.window arena ha r hm
  have hw : Placed.WellFormed (before ++ { r with len := newSize } :: after) :=
    wellFormed_resize h hl hb hz hfits hnext hb rfl
  have hs : Sound ⟨before ++ { r with len := newSize } :: after, some arena'⟩ := by
    refine h.replace hl rfl hw nofun ?_
    rintro _ ⟨⟩
    refine ⟨arena, ha, hbase, hsize, hbytes, hlo, ?_⟩
    show r.base.toNat + newSize.toNat ≤ _
    rw [hb]
    exact hwindow
  refine ⟨rfl, view_eq ?_ (view_byte_resize h hs hl rfl hb hb ?_ ?_ ?_), hs,
    room_congr ha rfl hbase hsize⟩
  · dsimp only
    rw [regions_view, map_append]
    rfl
  · intro c hc x hcov
    have hn : ¬Covers r x.toNat := fun hx =>
      Placed.WellFormed.not_covers (hl ▸ h.wellFormed) hx c hc hcov
    have hn' : ¬Covers { r with len := newSize } x.toNat := fun hx => hw.not_covers hx c hc hcov
    have ⟨hc, hclo, _⟩ := h.window arena ha c (mem_of_others hl hc)
    rw [cell, cell, hc, ha]
    dsimp only
    rw [hbase]
    refine hkeep x (Nat.le_trans hclo hcov.left) fun hx => hn' ?_
    show r.base.toNat ≤ x.toNat ∧ x.toNat < r.base.toNat + newSize.toNat
    rw [hb] at hx ⊢
    omega
  · intro x hx hx'
    have hx : r.base.toNat ≤ x.toNat ∧ x.toNat < r.base.toNat + r.len.toNat := hx
    rw [cell, cell, hbytes, ha]
    dsimp only
    rw [hbase]
    exact hkeep x (Nat.le_trans hlo hx.left) (by omega)
  · intro x hx hx'
    have hx : ¬(r.base.toNat ≤ x.toNat ∧ x.toNat < r.base.toNat + r.len.toNat) := hx
    have hx' : r.base.toNat ≤ x.toNat ∧ x.toNat < r.base.toNat + newSize.toNat := hx'
    rw [cell]
    simp only [hbytes, hbase]
    exact hzero x (by omega) (hb ▸ hx'.right)

theorem resize_window (ha : space.arena = some arena)
    (hwindow : base.toNat + newSize.toNat ≤ arena.base.toNat + arena.bytes.length) :
    ∃ result, (if newSize > r.len then
        match arena.write (base + r.len) (List.replicate (newSize - r.len).toNat 0) with
        | none => some (.error (.noSpace newSize), space)
        | some arena' =>
          some (.ok (), ⟨before ++ { r with len := newSize } :: after, some arena'⟩)
      else some (.ok (), ⟨before ++ { r with len := newSize } :: after, some arena⟩)) =
        some result ∧
      Refines (ε := Except AddressSpaceError Unit) space result
        (.ok (), resized space.view.byte before r after base newSize) := by
  have hm := mem_of_split hl
  have ⟨_, hlo, hhi⟩ := h.window arena ha r hm
  have hlo : arena.base.toNat ≤ base.toNat := hb ▸ hlo
  have hhi : base.toNat + r.len.toNat ≤ arena.base.toNat + arena.bytes.length := hb ▸ hhi
  have hold : base.toNat + r.len.toNat < 2 ^ 64 := hb ▸ h.wellFormed.fits hm
  split
  case isTrue hgt =>
    have hlt : r.len.toNat < newSize.toNat := lt_def.mp hgt
    have hsub : (newSize - r.len).toNat = newSize.toNat - r.len.toNat :=
      toNat_sub_of_le (le_def.mpr (Nat.le_of_lt hlt))
    have hadd : (base + r.len).toNat = base.toNat + r.len.toNat := by
      rw [toNat_add, Nat.mod_eq_of_lt hold]
    have hwrite : (arena.write (base + r.len)
        (List.replicate (newSize - r.len).toNat 0)).isSome := by
      rw [GuestArena.isSome_write, GuestArena.isSome_offset, length_replicate, hadd, hsub]
      omega
    have ⟨arena', hw⟩ := isSome_iff_exists.mp hwrite
    have ⟨off, hoff, hle, hbase, hbytes⟩ := GuestArena.write_eq_some hw
    rw [hadd] at hoff
    rw [hw]
    refine ⟨_, rfl, resize_arena h hl hb hz hfits hnext ha hwindow hbase ?_ ?_ ?_⟩
    · rw [hbytes, length_overwrite]
    · intro x hx hx'
      rw [hb] at hx
      rw [hbytes, List.getElem?_overwrite hle, length_replicate, hsub, if_pos (by omega),
        List.getElem?_replicate, if_pos (by omega)]
    · intro x hx hx'
      rw [hb] at hx'
      rw [hbytes, List.getElem?_overwrite hle, length_replicate, hsub, if_neg (by omega)]
  case isFalse hle =>
    have hle : newSize.toNat ≤ r.len.toNat := Nat.not_lt.mp (mt lt_def.mpr hle)
    refine ⟨_, rfl, resize_arena h hl hb hz hfits hnext ha hwindow rfl rfl ?_ fun _ _ _ => rfl⟩
    intro x hx hx'
    rw [hb] at hx
    omega

end Sized

theorem resize_refines (h : Sound space) :
    (∃ result, space.resize base newSize = some result ∧
      Refines space result (space.view.resize space.room base newSize)) ∨
    space.resize base newSize = none ∧ 2 ^ 63 ≤ newSize.toNat := by
  unfold resize MappedMemory.resize AddressSpace.resizeRegion
  by_cases hz : newSize = 0
  case pos =>
    rw [if_pos hz, if_pos hz]
    exact .inl ⟨_, rfl, .unchanged h⟩
  rw [if_neg hz, if_neg hz]
  cases hr : space.regions.find? (·.base = base) with
  | none =>
    rw [find?_view_eq_none hr]
    exact .inl ⟨_, rfl, .unchanged h⟩
  | some r =>
    obtain ⟨before, after, hl, hb, hidx, hview, hidx'⟩ := split_of_find? hr
    have hnext : space.regions[before.length + 1]? = after.head? := by
      rw [hl, List.getElem?_split_succ]
    have hnext' : space.view.space.regions[(before.map MemRegion.asRegion).length + 1]? =
        after.head?.map MemRegion.asRegion := by
      rw [view_split hl, List.getElem?_split_succ, List.head?_map]
    simp only [hview, hidx, hidx', hnext, hnext']
    cases hend : base.checkedAdd newSize with
    | none => exact .inl ⟨_, rfl, .unchanged h⟩
    | some newEnd =>
      dsimp only
      rw [Option.filter_map]
      have hcomp : after.head?.filter ((fun x => decide (newEnd > x.base)) ∘ MemRegion.asRegion) =
          after.head?.filter (newEnd > ·.base) := rfl
      rw [hcomp]
      cases hfilter : after.head?.filter (newEnd > ·.base) with
      | some next => exact .inl ⟨_, rfl, .unchanged h⟩
      | none =>
        rw [checkedAdd_eq_some] at hend
        have hfits : base.toNat + newSize.toNat < 2 ^ 64 := hend ▸ newEnd.isLt
        have hafter : ∀ c ∈ after.head?, base.toNat + newSize.toNat ≤ lo c := by
          intro c hc
          have := filter_eq_none_iff.mp hfilter c hc
          rw [decide_eq_true_iff, gt_iff_lt, lt_def, Nat.not_lt, ← hend] at this
          exact this
        have hmodify : ∀ region : MemRegion, (space.regions.modify before.length fun _ => region) =
            before ++ region :: after := fun region => by rw [hl, modify_split]
        have hmodify' : (space.view.space.regions.modify (before.map MemRegion.asRegion).length
            ({ · with size := newSize })) = before.map MemRegion.asRegion ++
              { r.asRegion with size := newSize } :: after.map MemRegion.asRegion := by
          rw [view_split hl, modify_split]
        simp only [hmodify, hmodify', map_none, map_some, getD_some]
        have hm := mem_of_split hl
        cases ha : space.arena with
        | none =>
          obtain ⟨bytes, hbytes, _⟩ := h.owned ha r hm
          simp only [hbytes, room_owned ha, if_true]
          by_cases hsize : newSize.toNat < 2 ^ 63
          case pos =>
            rw [if_pos hsize]
            exact .inl ⟨_, rfl, ha ▸ resize_owned h hl hb hz hfits hafter ha hbytes⟩
          case neg => exact .inr ⟨if_neg hsize, Nat.not_lt.mp hsize⟩
        | some arena =>
          obtain ⟨hbytes, hlo, hhi⟩ := h.window arena ha r hm
          have hlo : arena.base.toNat ≤ base.toNat := hb ▸ hlo
          have hsat : (newEnd > arena.base.saturatingAdd arena.size) ↔
              arena.base.toNat + arena.bytes.length < base.toNat + newSize.toNat := by
            rw [gt_iff_lt, lt_def, toNat_saturatingAdd, GuestArena.toNat_size, ← hend]
            omega
          have hroom : (arena.offset base newSize.toNat).isSome ↔
              ¬arena.base.toNat + arena.bytes.length < base.toNat + newSize.toNat := by
            rw [GuestArena.isSome_offset, Nat.not_lt]
            exact and_iff_right hlo
          simp only [hbytes, room_arena ha, hsat, hroom]
          by_cases hwin : arena.base.toNat + arena.bytes.length < base.toNat + newSize.toNat
          case pos =>
            rw [if_pos hwin, if_neg (not_not.mpr hwin)]
            exact .inl ⟨_, rfl, .unchanged h⟩
          case neg =>
            rw [if_neg hwin, if_pos hwin]
            have hresult := resize_window h hl hb hz hfits hafter ha (by omega)
            simp only [hbytes] at hresult
            exact .inl hresult

end Resize

end Prisma.BackedAddressSpace
