import Prisma.Orchestrator.Theorems.BackedRegions

namespace Prisma.BackedAddressSpace

open Extent Placed Option List BitVec

variable {space : BackedAddressSpace} {arena : GuestArena} {r : MemRegion}
  {regions : List MemRegion} {len minAddr addr : U64} {i : Nat} {prot : Protection}
  {bytes src : List U8}

section Range

theorem regionIdx_cases (h : Sound space) (addr : U64) :
    (space.regionIdx addr = none ∧ space.view.space.translate addr = none) ∨
    ∃ i r, space.regionIdx addr = some i ∧ space.regions[i]? = some r ∧ Covers r addr.toNat ∧
      space.view.space.translate addr = some (r.asRegion, addr - r.base) := by
  have hwf : space.view.space.WellFormed := wellFormed_view h.wellFormed
  cases hi : space.regionIdx addr with
  | none =>
    refine .inl ⟨rfl, eq_none_iff_forall_not_mem.mpr fun p ht => ?_⟩
    obtain ⟨hm, hc, _⟩ := AddressSpace.translate_eq_some hwf ht
    obtain ⟨r, hr, he⟩ := mem_map.mp hm
    have hc : Covers r.asRegion addr.toNat := he ▸ hc
    obtain ⟨i, hi', _⟩ := regionIdx_of_covers h.wellFormed hr hc
    rw [regionIdx, hi'] at hi
    cases hi
  | some i =>
    obtain ⟨r, hr, hc⟩ := regionIdx_eq_some h.wellFormed hi
    have hm : r.asRegion ∈ space.view.space.regions :=
      mem_map_of_mem (mem_of_getElem? hr)
    exact .inr ⟨i, r, rfl, hr, hc, AddressSpace.translate_of_covers hwf hm hc⟩

theorem toNat_sub_base (hc : Covers r addr.toNat) : (addr - r.base).toNat = addr.toNat - lo r :=
  toNat_sub_of_le (le_def.mpr hc.left)

theorem slice_eq_view (h : Sound space) (hr : space.regions[i]? = some r) (hc : Covers r addr.toNat)
    (hn : addr.toNat - lo r + n ≤ r.len.toNat) (hb : space.regionBytes i = some bytes) :
    bytes.slice (addr.toNat - lo r) n =
      (List.range n).map fun k => (space.view.byte (addr + BitVec.ofNat 64 k)).getD 0 := by
  have ⟨bytes', hb', hlen, hcell⟩ := regionBytes_eq h hr
  cases hb.symm.trans hb'
  have hm := mem_of_getElem? hr
  have hfits := h.wellFormed.fits hm
  have hhi : hi r = lo r + r.len.toNat := rfl
  have hlo := hc.left
  refine ext_getElem? fun k => ?_
  rw [List.getElem?_slice, List.getElem?_map]
  split
  case isTrue hk =>
    have hx : (addr + BitVec.ofNat 64 k).toNat = addr.toNat + k :=
      AddressSpace.toNat_add_ofNat (by omega)
    have hcov : Covers r (addr + BitVec.ofNat 64 k).toNat := ⟨by omega, by omega⟩
    have hbyte := hcell _ hcov
    rw [← view_byte_of_covers h hm hcov, hx,
      show addr.toNat + k - lo r = addr.toNat - lo r + k by omega] at hbyte
    rw [List.getElem?_range hk, map_some, ← hbyte, List.getElem?_eq_getElem (by omega),
      getD_some]
  case isFalse hk =>
    rw [List.getElem?_eq_none (by rw [length_range]; omega), map_none]

theorem read_refines (h : Sound space) :
    (space.read addr len).run = some (space.view.read addr len) := by
  unfold read MappedMemory.read
  cases regionIdx_cases h addr with
  | inl hn =>
    rw [hn.left, hn.right]
    rfl
  | inr hs =>
    obtain ⟨i, r, hi, hr, hc, ht⟩ := hs
    rw [ht]
    simp only [hi, Fallible.orFail, Fallible.orAbort, hr, pure_bind]
    cases hadd : (addr - r.base).checkedAdd len with
    | none => rfl
    | some endOff =>
      rw [checkedAdd_eq_some, toNat_sub_base hc] at hadd
      simp only [pure_bind]
      have hsize : r.asRegion.size = r.len := rfl
      rw [hsize]
      split
      case isTrue => rfl
      case isFalse hle =>
        have hle : endOff.toNat ≤ r.len.toNat := Nat.not_lt.mp (mt lt_def.mpr hle)
        obtain ⟨bytes, hbytes, _⟩ := regionBytes_eq h hr
        have hslice := slice_eq_view h hr hc (hadd ▸ hle) hbytes
        rw [hbytes, ← hslice, toNat_sub_base hc]
        rfl

theorem writableAt_cases (h : Sound space) (addr : U64) (n : Nat) :
    (∃ e, (space.writableAt addr n).run = some (.error e) ∧
      space.view.ensureWritable addr n = .error e) ∨
    ∃ i r, (space.writableAt addr n).run = some (.ok (i, addr - r.base)) ∧
      space.view.ensureWritable addr n = .ok () ∧ space.regions[i]? = some r ∧
      Covers r addr.toNat ∧ addr.toNat - lo r + n ≤ r.len.toNat := by
  unfold writableAt MappedMemory.ensureWritable
  cases regionIdx_cases h addr with
  | inl hn =>
    rw [hn.left, hn.right]
    exact .inl ⟨_, rfl, rfl⟩
  | inr hs =>
    have ⟨i, r, hi, hr, hc, ht⟩ := hs
    have hprot : r.asRegion.prot = r.prot := rfl
    have hsize : r.asRegion.size = r.len := rfl
    simp only [ht, hi, Fallible.orFail, Fallible.orAbort, hr, pure_bind, hprot, hsize]
    split
    case isTrue => exact .inl ⟨_, rfl, rfl⟩
    case isFalse =>
      cases hadd : (addr - r.base).checkedAddNat n with
      | none => exact .inl ⟨_, rfl, rfl⟩
      | some endOff =>
        rw [checkedAddNat_eq_some, toNat_sub_base hc] at hadd
        simp only [pure_bind]
        split
        case isTrue => exact .inl ⟨_, rfl, rfl⟩
        case isFalse hle =>
          have hle : endOff.toNat ≤ r.len.toNat := Nat.not_lt.mp (mt lt_def.mpr hle)
          exact .inr ⟨i, r, rfl, rfl, hr, hc, hadd ▸ hle⟩

theorem ensureWritable_refines (h : Sound space) :
    (space.ensureWritable addr len).run = some (space.view.ensureWritable addr len.toNat) := by
  rw [ensureWritable, ExceptT.run_bind]
  cases writableAt_cases h addr len.toNat with
  | inl he =>
    have ⟨e, hrun, hview⟩ := he
    rw [hrun, hview]
    rfl
  | inr hs =>
    have ⟨i, r, hrun, hview, _⟩ := hs
    rw [hrun, hview]
    rfl

section Write

variable (h : Sound space) (hr : space.regions[i]? = some r) (hc : Covers r addr.toNat)
  (hn : addr.toNat - lo r + src.length ≤ r.len.toNat)
include h hr hc hn

theorem write_owned (ha : space.arena = none) (hb : r.bytes = some bytes) :
    Refines space (((), { space with
        regions := space.regions.modify i
          ({ · with bytes := some (bytes.overwrite (addr.toNat - lo r) src) }) }) :
        Unit × BackedAddressSpace)
      ((), { space.view with byte := MappedMemory.give space.view.byte addr src }) := by
  obtain ⟨before, after, hl, hlen⟩ := List.getElem?_split hr
  have hm := mem_of_getElem? hr
  obtain ⟨bytes', hb', hlength⟩ := h.owned ha r hm
  cases hb.symm.trans hb'
  have hle : addr.toNat - lo r + src.length ≤ bytes.length := hlength ▸ hn
  rw [← hlen, hl, modify_split]
  have hw : Placed.WellFormed (before ++ r :: after) := hl ▸ h.wellFormed
  generalize hr' : { r with bytes := some (bytes.overwrite (addr.toNat - lo r) src) } = r'
  have hcov : ∀ x, Covers r' x ↔ Covers r x := fun x => hr' ▸ Iff.rfl
  have hs : Sound { space with regions := before ++ r' :: after } := by
    refine h.replace hl rfl (hw.replace (hr' ▸ rfl) (hr' ▸ rfl)) (fun _ => ⟨ha, ?_⟩)
      fun a ha' => by cases ha.symm.trans ha'
    exact hr' ▸ ⟨_, rfl, length_overwrite.trans hlength⟩
  have hm' : r' ∈ before ++ r' :: after := mem_append_right _ (.head _)
  have hl' : before ++ r' :: after = before ++ (some r').toList ++ after := by simp
  have hcell : ∀ x : U64, BackedAddressSpace.cell { space with regions := before ++ r' :: after }
      r' x = (bytes.overwrite (addr.toNat - lo r) src)[x.toNat - lo r]? := fun x => hr' ▸ rfl
  refine ⟨rfl, view_eq ?_ ?_, hs, rfl⟩
  · dsimp only
    rw [regions_view, view_split hl, map_append, ← hr']
    rfl
  · funext x
    dsimp only
    rw [MappedMemory.give]
    have hlo := hc.left
    have hhi : hi r = lo r + r.len.toNat := rfl
    split
    case isTrue hx =>
      unfold MappedMemory.InRange at hx
      have hx' : Covers r' x.toNat := (hcov _).mpr ⟨by omega, by omega⟩
      rw [view_byte_of_covers hs hm' hx', hcell, List.getElem?_overwrite hle, if_pos (by omega)]
      congr 1
      omega
    case isFalse hx =>
      unfold MappedMemory.InRange at hx
      by_cases hx' : Covers r x.toNat
      case pos =>
        have := hx'.left
        rw [view_byte_of_covers hs hm' ((hcov _).mpr hx'), view_byte_of_covers h hm hx', hcell,
          List.getElem?_overwrite hle, if_neg (by omega), cell, hb]
      case neg =>
        refine view_byte_others h hs hl hl' hx' ?_ fun c hc _ => ?_
        · rintro _ ⟨⟩
          exact mt (hcov _).mp hx'
        · obtain ⟨_, hc, _⟩ := h.owned ha c (mem_of_others hl hc)
          rw [cell, cell, hc]

theorem write_arena {arena' : GuestArena} (ha : space.arena = some arena)
    (hbase : arena'.base = arena.base)
    (hbytes : arena'.bytes = arena.bytes.overwrite (addr.toNat - arena.base.toNat) src) :
    Refines space (((), { space with arena := some arena' }) : Unit × BackedAddressSpace)
      ((), { space.view with byte := MappedMemory.give space.view.byte addr src }) := by
  have hm := mem_of_getElem? hr
  have ⟨hb, hlo, hhi⟩ := h.window arena ha r hm
  have hsize : arena'.bytes.length = arena.bytes.length := by rw [hbytes, length_overwrite]
  have hend : hi r = lo r + r.len.toNat := rfl
  have hclo := hc.left
  have hle : addr.toNat - arena.base.toNat + src.length ≤ arena.bytes.length := by omega
  have hs : Sound { space with arena := some arena' } := by
    refine ⟨h.wellFormed, nofun, ?_⟩
    rintro _ ⟨⟩ c hc
    rw [hbase, hsize]
    exact h.window arena ha c hc
  refine ⟨rfl, view_eq rfl ?_, hs, room_congr ha rfl hbase hsize⟩
  have hcell : ∀ c ∈ space.regions, ∀ x : U64,
      BackedAddressSpace.cell { space with arena := some arena' } c x =
        (arena.bytes.overwrite (addr.toNat - arena.base.toNat) src)[x.toNat - arena.base.toNat]? := by
    intro c hc x
    have ⟨hcb, _⟩ := h.window arena ha c hc
    rw [cell, hcb]
    dsimp only
    rw [hbytes, hbase]
  funext x
  dsimp only
  rw [MappedMemory.give]
  split
  case isTrue hx =>
    unfold MappedMemory.InRange at hx
    have hx' : Covers r x.toNat := ⟨by omega, by omega⟩
    rw [view_byte_of_covers hs hm hx', hcell r hm, List.getElem?_overwrite hle, if_pos (by omega)]
    congr 1
    omega
  case isFalse hx =>
    unfold MappedMemory.InRange at hx
    refine view_byte_congr h hs (fun c hc hcov => ⟨c, hc, hcov, ?_⟩) fun c hc hcov => ⟨c, hc, hcov⟩
    have ⟨hcb, hclo', _⟩ := h.window arena ha c hc
    have := hcov.left
    rw [hcell c hc, List.getElem?_overwrite hle, if_neg (by omega), cell, hcb, ha]

theorem setRegionBytes_refines :
    ∃ space', space.setRegionBytes i (addr - r.base).toNat src = some space' ∧
      Refines space (((), space') : Unit × BackedAddressSpace)
        ((), { space.view with byte := MappedMemory.give space.view.byte addr src }) := by
  have hm := mem_of_getElem? hr
  rw [toNat_sub_base hc]
  cases ha : space.arena with
  | none =>
    have ⟨bytes, hb, _⟩ := h.owned ha r hm
    refine ⟨_, ?_, write_owned h hr hc hn ha hb⟩
    simp only [setRegionBytes, hr, hb, bind, bind_some]
  | some arena =>
    have ⟨hb, hlo, hsub, hoff, hfit⟩ := h.offset ha hm
    have hclo := hc.left
    have ⟨arena', hset, hbase, hbytes⟩ : ∃ arena' : GuestArena,
        space.setRegionBytes i (addr.toNat - lo r) src = some { space with arena := some arena' } ∧
        arena'.base = arena.base ∧ arena'.bytes =
          arena.bytes.overwrite (lo r - arena.base.toNat + (addr.toNat - lo r)) src := by
      simp only [setRegionBytes, hr, hb, ha, hsub, hoff, bind, bind_some, if_pos hfit]
      exact ⟨_, rfl, rfl, rfl⟩
    rw [show lo r - arena.base.toNat + (addr.toNat - lo r) = addr.toNat - arena.base.toNat by omega]
      at hbytes
    exact ⟨_, hset, write_arena h hr hc hn ha hbase hbytes⟩

end Write

theorem write_refines (h : Sound space) :
    (∃ e, (space.write addr src).run = some (.error e) ∧
      space.view.write addr src = (.error e, space.view)) ∨
    ∃ space', (space.write addr src).run = some (.ok space') ∧
      Refines space ((.ok (), space') : Except RangeError Unit × BackedAddressSpace)
        (space.view.write addr src) := by
  unfold write MappedMemory.write
  rw [ExceptT.run_bind]
  cases writableAt_cases h addr src.length with
  | inl he =>
    have ⟨e, hrun, hview⟩ := he
    rw [hrun, hview]
    exact .inl ⟨e, rfl, rfl⟩
  | inr hs =>
    have ⟨i, r, hrun, hview, hr, hc, hn⟩ := hs
    have ⟨space', hset, _, hv, hsound, hroom⟩ := setRegionBytes_refines h hr hc hn
    rw [hrun, hview]
    refine .inr ⟨space', ?_, rfl, hv, hsound, hroom⟩
    show (Fallible.orAbort _).run = _
    rw [hset]
    rfl

end Range

section Mmap

theorem freeCursor_view :
    freeCursor len (regions.map MemRegion.asRegion) cursor = freeCursor len regions cursor := by
  induction regions generalizing cursor with
  | nil => rfl
  | cons r regions ih =>
    rw [map_cons, freeCursor, freeCursor]
    simp only [ih]
    rfl

theorem findFreeRange_view :
    space.view.space.findFreeRange len minAddr = space.findFreeRange len minAddr := by
  simp only [AddressSpace.findFreeRange, findFreeRange, Placed.findFreeRange, regions_view,
    freeCursor_view]

theorem map_refines {base : U64} (h : Sound space) :
    (∃ result, space.map base len prot = some result ∧
      Refines space result
        (space.view.insert space.room base prot (List.replicate len.toNat 0))) ∨
    space.map base len prot = none ∧ 2 ^ 63 ≤ len.toNat := by
  by_cases hlen : len.toNat < 2 ^ 63
  case pos => exact .inl ⟨_, if_pos hlen, insertRegion_refines h⟩
  case neg => exact .inr ⟨if_neg hlen, Nat.not_lt.mp hlen⟩

theorem mmapAnon_refines (h : Sound space) :
    (∃ result, space.mmapAnon len minAddr prot = some result ∧
      Refines space result (space.view.mmapAnon space.room len minAddr prot)) ∨
    space.mmapAnon len minAddr prot = none ∧ 2 ^ 63 ≤ len.toNat := by
  unfold mmapAnon MappedMemory.mmapAnon
  split
  case isTrue => exact .inl ⟨_, rfl, .unchanged h⟩
  case isFalse =>
    rw [findFreeRange_view]
    cases space.findFreeRange len minAddr with
    | none => exact .inl ⟨_, rfl, .unchanged h⟩
    | some base =>
      dsimp only
      obtain ⟨result, hmap, hinsert⟩ | ⟨hmap, hlen⟩ := @map_refines space len prot base h
      case inr => exact .inr ⟨by rw [hmap]; rfl, hlen⟩
      case inl =>
      rw [hmap]
      refine .inl ⟨_, rfl, ?_⟩
      generalize space.view.insert space.room base prot (List.replicate len.toNat 0) = spec at *
      match result, spec, hinsert with
      | (.ok (), _), (_, _), ⟨rfl, hview, hsound, hroom⟩ => exact ⟨rfl, hview, hsound, hroom⟩
      | (.error _, _), (_, _), ⟨rfl, hview, hsound, hroom⟩ => exact ⟨rfl, hview, hsound, hroom⟩

end Mmap

section Calls

theorem Refines.spaceResult {α : Type} {f : α → MemReply}
    {result : Except AddressSpaceError α × BackedAddressSpace}
    {spec : Except AddressSpaceError α × MappedMemory} (h : Refines space result spec) :
    Refines space (MemCall.spaceResult f result) (MappedMemory.spaceResult f spec) where
  fst := congrArg (fun r => (MemCall.spaceResult f (r, result.snd)).fst) h.fst
  view := h.view
  sound := h.sound
  room := h.room

theorem rangeResult_refines {α : Type} {f : α → MemReply} {m : Fallible RangeError α}
    {result : Except RangeError α} (h : Sound space) (hm : m.run = some result) :
    ∃ res, MemCall.rangeResult space ((fun a => (f a, space)) <$> m) = some res ∧
      Refines space res (MappedMemory.rangeResult f result, space.view) := by
  rw [MemCall.rangeResult, ExceptT.run_map, hm]
  cases result <;> exact ⟨_, rfl, .unchanged h⟩

theorem Refines.mapResult {α : Type} {f : α → MemReply} {n : Nat}
    {m : Option (Except AddressSpaceError α × BackedAddressSpace)}
    {spec : Except AddressSpaceError α × MappedMemory}
    (h : (∃ result, m = some result ∧ Refines space result spec) ∨ m = none ∧ 2 ^ 63 ≤ n) :
    (∃ result, m.map (MemCall.spaceResult f) = some result ∧
      Refines space result (MappedMemory.spaceResult f spec)) ∨
    m.map (MemCall.spaceResult f) = none ∧ 2 ^ 63 ≤ n := by
  obtain ⟨result, hm, hrefines⟩ | ⟨hm, hn⟩ := h
  case inl => exact .inl ⟨_, by rw [hm]; rfl, hrefines.spaceResult⟩
  case inr => exact .inr ⟨by rw [hm]; rfl, hn⟩

-- Every call behaves as on the view of the space, and it does not panic unless it allocates too
-- much.
theorem apply_refines (h : Sound space) (call : MemCall) :
    (∃ result, call.apply space = some result ∧
      Refines space result (space.view.apply space.room call)) ∨
    call.apply space = none ∧ 2 ^ 63 ≤ call.allocates := by
  cases call with
  | map => exact Refines.mapResult (map_refines h)
  | mmapAnon => exact Refines.mapResult (mmapAnon_refines h)
  | resize => exact Refines.mapResult (resize_refines h)
  | mapWithBytes => exact .inl ⟨_, rfl, (insertRegion_refines h).spaceResult⟩
  | unmap => exact .inl ⟨_, rfl, (unmap_refines h).spaceResult⟩
  | read => exact .inl (rangeResult_refines h (read_refines h))
  | write addr src =>
    rw [MemCall.apply, MemCall.rangeResult, ExceptT.run_map, MappedMemory.apply]
    cases @write_refines space addr src h with
    | inl he =>
      obtain ⟨e, hrun, hview⟩ := he
      rw [hrun, hview]
      exact .inl ⟨_, rfl, .unchanged h⟩
    | inr hs =>
      obtain ⟨space', hrun, hfst, hview, hsound, hroom⟩ := hs
      rw [hrun]
      refine .inl ⟨_, rfl, ?_, hview, hsound, hroom⟩
      dsimp only
      rw [← hfst]
      rfl
  | ensureWritable => exact .inl (rangeResult_refines h (ensureWritable_refines h))
  | mprotect => exact .inl ⟨_, rfl, (mprotect_refines h).spaceResult⟩

end Calls

end Prisma.BackedAddressSpace
