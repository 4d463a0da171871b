import Prisma.Orchestrator.Theorems.MemHistory

-- Which ranges of a backed address space can be read and written.

namespace Prisma.BackedAddressSpace

open Extent Placed

-- The spaces that calls lead to from a new one.
inductive Reachable : BackedAddressSpace → Prop
  | new : Reachable new
  | withArena {pageSize windowBase windowSize space}
    (hnew : withArena pageSize windowBase windowSize = some space) : Reachable space
  | call {space space' result} (call : MemCall) (h : Reachable space)
    (hcall : call.apply space = some (result, space')) : Reachable space'
  | clear {space} (h : Reachable space) : Reachable space.clear

variable {space space' : BackedAddressSpace} {addr len : U64} {src : List U8} {n : Nat}
  {needWrite : Bool}

theorem Reachable.sound (h : space.Reachable) : space.Sound := by
  induction h with
  | new => exact sound_new
  | withArena hnew =>
    have ⟨_, _, he⟩ := Option.map_eq_some_iff.mp hnew
    exact he ▸ sound_arena
  | call _ _ hcall hi => exact (apply_view hi hcall).right
  | clear => exact ⟨.nil, fun _ _ hr => (nomatch hr), fun _ _ _ hr => (nomatch hr)⟩

def InOneRegion (space : BackedAddressSpace) (needWrite : Bool) (addr : U64) (n : Nat) : Prop :=
  ∃ r ∈ space.regions, Covers r addr.toNat ∧ addr.toNat + n ≤ hi r ∧
    (needWrite → r.prot.isWritable)

section Sound

variable (h : space.Sound)

include h

theorem returns_read_iff :
    (∃ bytes, Fallible.Returns (space.read addr len) bytes) ↔
      space.InOneRegion false addr len.toNat := by
  simp [read_returns_iff h, view_read_ok_iff h, InOneRegion]

theorem view_ensureWritable_iff :
    space.view.ensureWritable addr n = .ok () ↔ space.InOneRegion true addr n := by
  rw [MappedMemory.ensureWritable_ok_iff (wellFormed_view h.wellFormed), regions_view]
  simp only [List.mem_map, exists_exists_and_eq_and, InOneRegion, forall_const]
  rfl

theorem returns_ensureWritable_iff :
    Fallible.Returns (space.ensureWritable addr len) () ↔
      space.InOneRegion true addr len.toNat := by
  rw [Fallible.Returns, ensureWritable_refines h, Option.some_inj, view_ensureWritable_iff h]

theorem write_cases (addr : U64) (src : List U8) :
    (¬space.InOneRegion true addr src.length ∧
      ∃ e, (space.write addr src).run = some (.error e)) ∨
    (space.InOneRegion true addr src.length ∧
      ∃ space', Fallible.Returns (space.write addr src) space' ∧ space'.Sound ∧
        space'.view =
          { space.view with byte := MappedMemory.give space.view.byte addr src }) := by
  cases @write_refines space addr src h with
  | inl herror =>
    have ⟨e, hrun, hview⟩ := herror
    refine .inl ⟨fun hin => ?_, e, hrun⟩
    rw [MappedMemory.write, (view_ensureWritable_iff h).mpr hin] at hview
    nomatch hview
  | inr hok =>
    have ⟨space', hrun, href⟩ := hok
    unfold MappedMemory.write at href
    cases hensure : space.view.ensureWritable addr src.length with
    | error e =>
      rw [hensure] at href
      nomatch href.fst
    | ok =>
      rw [hensure] at href
      exact .inr ⟨(view_ensureWritable_iff h).mp hensure, space', hrun, href.sound, href.view⟩

theorem returns_write_iff :
    (∃ space', Fallible.Returns (space.write addr src) space') ↔
      space.InOneRegion true addr src.length := by
  cases write_cases h addr src with
  | inl hn =>
    have ⟨hin, e, hrun⟩ := hn
    refine iff_of_false ?_ hin
    rintro ⟨space', hok⟩
    nomatch hok.symm.trans hrun
  | inr hs =>
    have ⟨hin, space', hok, _⟩ := hs
    exact iff_of_true ⟨space', hok⟩ hin

theorem inOneRegion_iff (hl : len ≠ 0) :
    space.InOneRegion needWrite addr len.toNat ↔
      ∃ r ∈ space.regions, (needWrite → r.prot.isWritable) ∧
        ∀ k < len.toNat, r.contains (addr + BitVec.ofNat 64 k) := by
  have hpos : 0 < len.toNat := Nat.pos_of_ne_zero fun hz => hl (BitVec.eq_of_toNat_eq hz)
  refine exists_congr fun r => and_congr_right fun hr => ?_
  have hfits := h.wellFormed.fits hr
  have hcontains := fun a => @contains_iff _ _ r a hfits
  constructor
  · rintro ⟨hc, hle, hw⟩
    refine ⟨hw, fun k hk => (hcontains _).mpr ?_⟩
    rw [AddressSpace.toNat_add_ofNat (by omega)]
    exact ⟨Nat.le_add_right_of_le hc.left, by omega⟩
  · rintro ⟨hw, hall⟩
    have hcovers : ∀ k < len.toNat, Covers r (addr.toNat + k) := by
      intro k
      induction k with
      | zero => exact fun hk => by simpa using (hcontains _).mp (hall 0 hk)
      | succ k hi =>
        intro hk
        have hprev := hi (by omega)
        have hlt : addr.toNat + (k + 1) < 2 ^ 64 := by
          have := hprev.right
          omega
        have hc := (hcontains _).mp (hall (k + 1) hk)
        rwa [AddressSpace.toNat_add_ofNat hlt] at hc
    have hlast := (hcovers (len.toNat - 1) (by omega)).right
    exact ⟨hcovers 0 hpos, by omega, hw⟩

theorem validateRange_view_iff (hl : len ≠ 0) (hr : len.toNat ≤ rounds) :
    space.view.space.validateRange rounds addr len needWrite = some (.ok ()) ↔
      addr.toNat + len.toNat < 2 ^ 64 ∧ ∀ k < len.toNat, ∃ r ∈ space.regions,
        r.contains (addr + BitVec.ofNat 64 k) ∧ (needWrite → r.prot.isWritable) := by
  have hwf : space.view.space.WellFormed := wellFormed_view h.wellFormed
  have ⟨result, hres, hiff⟩ := AddressSpace.validateRange_spec hwf addr len needWrite
  rw [hres rounds hr, Option.some.injEq, hiff, or_iff_right hl, regions_view]
  simp only [List.mem_map, exists_exists_and_eq_and]
  rfl

theorem validateRange_of_inOneRegion (hl : len ≠ 0)
    (hin : space.InOneRegion needWrite addr len.toNat) (hr : len.toNat ≤ rounds) :
    space.view.space.validateRange rounds addr len needWrite = some (.ok ()) := by
  have ⟨r, hm, hw, hall⟩ := (inOneRegion_iff h hl).mp hin
  have ⟨q, hq, _, hle, _⟩ := hin
  have hfits := h.wellFormed.fits hq
  exact (validateRange_view_iff h hl hr).mpr ⟨by omega, fun k hk => ⟨r, hm, hall k hk, hw⟩⟩

end Sound

-- Reads and writes need one region for the whole range. The range check on the same regions goes
-- from one region to the next, so it accepts whatever they accept and more.
theorem access_succeeds_iff (h : space.Reachable) (addr : U64) (hl : len ≠ 0) :
    ((∃ bytes, Fallible.Returns (space.read addr len) bytes) ↔
      ∃ r ∈ space.regions, ∀ k < len.toNat, r.contains (addr + BitVec.ofNat 64 k)) ∧
    (∀ src : List U8, src.length = len.toNat →
      ((∃ space', Fallible.Returns (space.write addr src) space') ↔
        ∃ r ∈ space.regions, r.prot.isWritable ∧
          ∀ k < len.toNat, r.contains (addr + BitVec.ofNat 64 k))) ∧
    (Fallible.Returns (space.ensureWritable addr len) () ↔
      ∃ r ∈ space.regions, r.prot.isWritable ∧
        ∀ k < len.toNat, r.contains (addr + BitVec.ofNat 64 k)) ∧
    ∀ rounds ≥ len.toNat,
      ((∃ bytes, Fallible.Returns (space.read addr len) bytes) →
        space.view.space.validateRange rounds addr len false = some (.ok ())) ∧
      (Fallible.Returns (space.ensureWritable addr len) () →
        space.view.space.validateRange rounds addr len true = some (.ok ())) ∧
      ∀ needWrite, space.view.space.validateRange rounds addr len needWrite = some (.ok ()) ↔
        addr.toNat + len.toNat < 2 ^ 64 ∧ ∀ k < len.toNat, ∃ r ∈ space.regions,
          r.contains (addr + BitVec.ofNat 64 k) ∧ (needWrite → r.prot.isWritable) := by
  have hs := h.sound
  have hread := @inOneRegion_iff space addr len false hs hl
  have hwrite := @inOneRegion_iff space addr len true hs hl
  simp only [Bool.false_eq_true, false_implies, true_and, forall_const] at hread hwrite
  refine ⟨(returns_read_iff hs).trans hread, fun src hsrc => ?_,
    (returns_ensureWritable_iff hs).trans hwrite, fun rounds hr =>
      ⟨fun hok => ?_, fun hok => ?_, fun needWrite => validateRange_view_iff hs hl hr⟩⟩
  · rw [returns_write_iff hs, hsrc, hwrite]
  · exact validateRange_of_inOneRegion hs hl ((returns_read_iff hs).mp hok) hr
  · exact validateRange_of_inOneRegion hs hl ((returns_ensureWritable_iff hs).mp hok) hr

-- Two regions of two bytes, one right behind the other.
def neighbours : BackedAddressSpace :=
  ⟨[⟨0x1000, .readWrite, 2, some [1, 2]⟩, ⟨0x1002, .readWrite, 2, some [3, 4]⟩], none⟩

theorem reachable_neighbours : Reachable neighbours :=
  .call (.mapWithBytes 0x1002 [3, 4] .readWrite)
    (.call (.mapWithBytes 0x1000 [1, 2] .readWrite) .new rfl) rfl

theorem access_succeeds_iff_neighbours :
    (∃ bytes, Fallible.Returns (neighbours.read 0x1002 2) bytes) ∧
    ¬Fallible.Returns (neighbours.ensureWritable 0x1001 2) () ∧
    neighbours.view.space.validateRange 2 0x1001 2 true = some (.ok ()) := by
  have ⟨hread, _⟩ := @access_succeeds_iff _ 2 reachable_neighbours 0x1002 (by decide)
  have ⟨_, _, hwrite, hvalidate⟩ := @access_succeeds_iff _ 2 reachable_neighbours 0x1001 (by decide)
  exact ⟨hread.mpr (by decide), hwrite.not.mpr (by decide),
    ((hvalidate 2 le_rfl).right.right true).mpr (by decide)⟩

-- A range over both of them can be neither read nor written.
theorem not_access_succeeds :
    ¬∀ space : BackedAddressSpace, space.Reachable → ∀ addr len : U64, len ≠ 0 →
      addr.toNat + len.toNat < 2 ^ 64 →
      ((∀ k < len.toNat, ∃ r ∈ space.regions, r.contains (addr + BitVec.ofNat 64 k)) →
        ∃ bytes, Fallible.Returns (space.read addr len) bytes) ∧
      ((∀ k < len.toNat, ∃ r ∈ space.regions,
          r.contains (addr + BitVec.ofNat 64 k) ∧ r.prot.isWritable) →
        (∀ src : List U8, src.length = len.toNat →
          ∃ space', Fallible.Returns (space.write addr src) space') ∧
        Fallible.Returns (space.ensureWritable addr len) ()) := by
  intro h
  have ⟨hread, _⟩ := h neighbours reachable_neighbours 0x1001 2 (by decide) (by decide)
  have ⟨bytes, hok⟩ := hread (by decide)
  have herror : (neighbours.read 0x1001 2).run = some (.error .unmapped) := rfl
  nomatch hok.symm.trans herror

end Prisma.BackedAddressSpace
