import Prisma.Session.MemSyscalls
import Prisma.Orchestrator.Theorems.ArenaMode
import Prisma.Orchestrator.Theorems.MemHistory

namespace Prisma

open Extent Placed

namespace BackedAddressSpace

variable {space : BackedAddressSpace} {arena : GuestArena} {base len minAddr : U64}
  {prot : Protection}

theorem free_view : Free space.view.space.regions len base ↔ Free space.regions len base := by
  rw [regions_view]
  exact and_congr_right fun _ => List.forall_mem_map

theorem mapZeroed_error (h : Sound space) (hf : (space.mapZeroed base len prot).fst ≠ .ok ()) :
    Refines space ((), (space.mapZeroed base len prot).snd) ((), space.view) := by
  have ⟨hfst, hview, hsound, hroom⟩ : Refines space (space.mapZeroed base len prot) _ :=
    insertRegion_refines h
  refine ⟨rfl, hview.trans ?_, hsound, hroom⟩
  have hf : _ ≠ _ := fun he => hf (hfst.trans he)
  have houtcome : MappedMemory.Outcome space.view _
      (space.view.insert space.room base prot (List.replicate len.toNat 0)) :=
    MappedMemory.insert_outcome
  generalize space.view.insert space.room base prot (List.replicate len.toNat 0) = result at *
  cases houtcome with
  | fails => rfl
  | succeeds => exact absurd rfl hf

theorem mmapAnon_ok_iff (h : Sound space) (hs : len.toNat < 2 ^ 63) :
    (∃ b space', space.mmapAnon len minAddr prot = some (.ok b, space')) ↔
      len ≠ 0 ∧ ∃ b, space.findFreeRange len minAddr = some b ∧ space.room b len.toNat := by
  unfold mmapAnon
  split
  case isTrue hz =>
    simp [hz]
  case isFalse hz =>
    cases hf : space.findFreeRange len minAddr with
    | none => simp
    | some b =>
      have ⟨⟨_, hfree⟩, _⟩ := (findFreeRange_eq_some h.wellFormed hz).mp hf
      have hmap : _ ↔ _ := @mapZeroed_ok_iff space len b prot h
      dsimp only
      rw [map, if_pos hs]
      generalize space.mapZeroed b len prot = result at hmap ⊢
      match result with
      | (.ok (), _) => simp_all [Except.map]
      | (.error _, _) => simp_all [Except.map]

end BackedAddressSpace

namespace MemSyscalls

open BackedAddressSpace

variable {space : BackedAddressSpace} {arena : GuestArena} {log : List MemEvent} {addr len b : U64}
  {prot : BitVec 32} {protection : Protection}

-- A range of the window that is free and not below the lowest address that is given out. It may end
-- where the address space ends.
def FreeRange (space : BackedAddressSpace) (arena : GuestArena) (len b : U64) : Prop :=
  mmapMinAddr ≤ b ∧ arena.Inside b len.toNat ∧ b.toNat + len.toNat ≤ 2 ^ 64 ∧
    ∀ r ∈ space.regions, ∀ k < len.toNat, ¬r.contains (b + BitVec.ofNat 64 k)

theorem freeRange_iff (h : Sound space) (ha : space.arena = some arena) (hl : len ≠ 0) :
    FreeRange space arena len b ∧ b.toNat + len.toNat < 2 ^ 64 ↔
      mmapMinAddr ≤ b ∧ Free space.regions len b ∧ space.room b len.toNat := by
  have hfree : Free space.regions len b ↔ b.toNat + len.toNat < 2 ^ 64 ∧
      ∀ r ∈ space.regions, ∀ k < len.toNat, ¬r.contains (b + BitVec.ofNat 64 k) := by
    have hwf : space.view.space.WellFormed := wellFormed_view h.wellFormed
    rw [← free_view, AddressSpace.free_iff hwf hl, regions_view]
    exact and_congr_right fun _ => List.forall_mem_map
  rw [hfree, room_arena ha, GuestArena.isSome_offset, FreeRange]
  constructor
  · rintro ⟨⟨hmin, hinside, _, hfree⟩, hlt⟩
    exact ⟨hmin, ⟨hlt, hfree⟩, hinside⟩
  · rintro ⟨hmin, ⟨hlt, hfree⟩, hinside⟩
    exact ⟨⟨hmin, hinside, Nat.le_of_lt hlt, hfree⟩, hlt⟩

theorem findFreeRange_room (h : Sound space) (ha : space.arena = some arena) (hl : len ≠ 0) :
    (∃ b, space.findFreeRange len mmapMinAddr = some b ∧ space.room b len.toNat) ↔
      (arena.base ≤ mmapMinAddr ∨
        ∃ r ∈ space.regions, r.base.toNat < mmapMinAddr.toNat + len.toNat) ∧
      ∃ b, FreeRange space arena len b ∧ b.toNat + len.toNat < 2 ^ 64 := by
  have hmin : mmapMinAddr.toNat = 0x10000 := rfl
  have hroom : ∀ b, space.room b len.toNat ↔ arena.Inside b len.toNat := fun b => by
    rw [room_arena ha]
    exact GuestArena.isSome_offset
  have hpos : 0 < len.toNat := Nat.pos_of_ne_zero fun he => hl (BitVec.eq_of_toNat_eq he)
  simp only [freeRange_iff h ha hl, BackedAddressSpace.findFreeRange,
    Placed.findFreeRange_eq_some h.wellFormed hl]
  constructor
  · rintro ⟨b, ⟨⟨hb, hfree⟩, hleast⟩, hr⟩
    refine ⟨?_, b, hb, hfree, hr⟩
    by_contra hno
    rw [not_or, not_exists] at hno
    obtain ⟨hbase, hregions⟩ := hno
    -- Nothing is in the way at the lowest address, and it is not in the window.
    have hle : b ≤ mmapMinAddr := by
      refine hleast _ (BitVec.le_refl _) ⟨?_, fun r hr hm => hregions r ⟨hr, ?_⟩⟩
      · have := hfree.left
        have := BitVec.le_def.mp hb
        omega
      · exact hm.left
    have := ((hroom b).mp hr).left
    rw [BitVec.le_def] at hbase hle
    omega
  · rintro ⟨hcond, s, hs, hfree, hr⟩
    cases hf : Placed.findFreeRange space.regions len mmapMinAddr with
    | none => exact absurd ⟨s, hs, hfree⟩ ((findFreeRange_eq_none h.wellFormed hl).mp hf)
    | some b =>
      have hfirst := (findFreeRange_eq_some h.wellFormed hl).mp hf
      refine ⟨b, hfirst, (hroom b).mpr ?_⟩
      obtain ⟨⟨hb, hfree'⟩, hleast⟩ := hfirst
      obtain ⟨hlo, hhi⟩ := (hroom s).mp hr
      have hle := BitVec.le_def.mp (hleast s hs hfree)
      rw [BitVec.le_def] at hb hcond
      refine ⟨?_, by omega⟩
      cases hcond with
      | inl hbase => omega
      | inr hregion =>
        obtain ⟨r, hr, hlt⟩ := hregion
        obtain ⟨_, hwlo, _⟩ := h.window arena ha r hr
        have hnm := hfree'.right r hr
        have hne := h.wellFormed.nonempty hr
        have hlo : lo r = r.base.toNat := rfl
        unfold Meets at hnm
        omega

theorem mmapAnywhere_ok_iff :
    (∃ b space', mmapAnywhere space len protection = some (.ok b, space')) ↔
      ∃ b space', space.mmapAnon len mmapMinAddr protection = some (.ok b, space') := by
  unfold mmapAnywhere
  generalize space.mmapAnon len mmapMinAddr protection = result
  match result with
  | none => simp
  | some (.ok _, _) => simp
  | some (.error (.noSpace _), _) => simp
  | some (.error .zeroSize, _) => simp
  | some (.error (.overflow ..), _) => simp
  | some (.error (.overlap ..), _) => simp
  | some (.error (.notMapped _), _) => simp

theorem mmap_ok_iff (h : Sound space) (hlen : len ≤ maxMapBytes)
    (hhint : addr < mmapMinAddr ∨
      ∀ space', space.map addr len (protectionFromProt prot) ≠ some (.ok (), space')) :
    (∃ b space', mmap space addr len prot = some (.ok b, space')) ↔
      len ≠ 0 ∧ ∃ b, space.findFreeRange len mmapMinAddr = some b ∧ space.room b len.toNat := by
  have hs : len.toNat < 2 ^ 63 := Nat.lt_of_le_of_lt (BitVec.le_def.mp hlen) (by decide)
  unfold mmap
  split
  case isTrue hz => simp [hz]
  case isFalse hz =>
    rw [if_neg (BitVec.not_lt.mpr hlen)]
    dsimp only
    split
    case isFalse => rw [mmapAnywhere_ok_iff, mmapAnon_ok_iff h hs]
    case isTrue hge =>
      have hfails := hhint.resolve_left (BitVec.not_lt.mpr hge)
      rw [map, if_pos hs] at hfails ⊢
      have hfails : (space.mapZeroed addr len (protectionFromProt prot)).fst ≠ .ok () :=
        fun he => hfails _ (congrArg some (Prod.ext he rfl))
      have ⟨_, hview, hsound, hroom⟩ := mapZeroed_error h hfails
      rw [Option.bind_eq_bind, Option.bind_some]
      split
      case _ he => exact absurd (congrArg Prod.fst he) hfails
      case _ space' he =>
        rw [he] at hview hsound hroom
        rw [mmapAnywhere_ok_iff, mmapAnon_ok_iff hsound hs, ← findFreeRange_view, hview,
          findFreeRange_view, hroom]

-- The search for a free range does not know the window, only the first range above the lowest
-- address is tried.
theorem mmap_succeeds_iff (h : Recorded space log) (ha : space.arena = some arena)
    (hlen : len ≤ maxMapBytes)
    (hhint : addr < mmapMinAddr ∨
      ∀ space', space.map addr len (protectionFromProt prot) ≠ some (.ok (), space'))
    (_ : ∃ b, FreeRange space arena len b) :
    (∃ b space', mmap space addr len prot = some (.ok b, space')) ↔
      len ≠ 0 ∧ (arena.base ≤ mmapMinAddr ∨
        ∃ r ∈ space.regions, r.base.toNat < mmapMinAddr.toNat + len.toNat) ∧
      ∃ b, FreeRange space arena len b ∧ b.toNat + len.toNat < 2 ^ 64 := by
  have hsound := h.view_byte.left
  rw [mmap_ok_iff hsound hlen hhint]
  exact and_congr_right fun hz => findFreeRange_room hsound ha hz

theorem freeRange_of_new {pageSize : Nat} (hmin : mmapMinAddr ≤ b) (hlen : len.toNat < 2 ^ 63)
    (hsize : GuestArena.roundUp pageSize len.toNat = len.toNat)
    (hfits : b.toNat + len.toNat ≤ 2 ^ 64) :
    ∃ arena, withArena pageSize b len.toNat = some ⟨[], some arena⟩ ∧ arena.base = b ∧
      FreeRange ⟨[], some arena⟩ arena len b := by
  have hlt : GuestArena.roundUp pageSize len.toNat < 2 ^ 63 := by rwa [hsize]
  refine ⟨_, congrArg (Option.map _) (dif_pos hlt), rfl, hmin, ⟨Nat.le_refl _, ?_⟩, hfits, nofun⟩
  rw [List.length_replicate]
  exact Nat.add_le_add_left hsize.ge _

theorem mmap_succeeds_iff_low :
    ∃ space b space', withArena 4096 0x10000 4096 = some space ∧
      mmap space 0 4096 3 = some (.ok b, space') := by
  have ⟨arena, hnew, hbase, hfree⟩ :=
    @freeRange_of_new 4096 0x10000 4096 (by decide) (by decide) rfl (by decide)
  have ⟨b, space', hb⟩ : ∃ b space', mmap ⟨[], some arena⟩ 0 4096 3 = some (.ok b, space') :=
    (mmap_succeeds_iff (.withArena hnew) rfl (by decide) (.inl (by decide)) ⟨_, hfree⟩).mpr
      ⟨by decide, .inl (hbase ▸ by decide), _, hfree, by decide⟩
  exact ⟨_, b, space', hnew, hb⟩

-- The whole window is free, and the one range that is tried lies below it.
theorem not_mmap_succeeds :
    ¬∀ (space : BackedAddressSpace) (log : List MemEvent) (arena : GuestArena) (addr len : U64)
      (prot : BitVec 32), Recorded space log → space.arena = some arena → len ≠ 0 →
      len ≤ maxMapBytes →
      addr < mmapMinAddr ∨
        (∀ space', space.map addr len (protectionFromProt prot) ≠ some (.ok (), space')) →
      (∃ b, FreeRange space arena len b) →
      ∃ b space', mmap space addr len prot = some (.ok b, space') := by
  intro hall
  have ⟨arena, hnew, hbase, hfree⟩ :=
    @freeRange_of_new 4096 0x400000 4096 (by decide) (by decide) rfl (by decide)
  have hmmap := hall _ [] _ 0 4096 3 (.withArena hnew) rfl (by decide) (by decide)
    (.inl (by decide)) ⟨_, hfree⟩
  rw [mmap_ok_iff sound_arena (by decide) (.inl (by decide)),
    findFreeRange_room sound_arena rfl (by decide)] at hmmap
  have ⟨_, hcond, _⟩ := hmmap
  cases hcond with
  | inl hle => exact absurd (hbase ▸ hle) (by decide)
  | inr hregion =>
    have ⟨_, hr, _⟩ := hregion
    nomatch hr

end MemSyscalls

end Prisma
