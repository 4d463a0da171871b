import Prisma.Orchestrator.GuestMem
import Prisma.Orchestrator.Theorems.BackedAccess

-- What the handlers of system calls can rely on, whichever kind of guest memory they work on.

namespace Prisma

open Extent

namespace GuestMem

variable {M : Type} [GuestMem M]

-- The byte at an address, if it can be read.
def byte (mem : M) (addr : U64) : Option U8 :=
  match (read mem addr 1).run with
  | some (.ok [b]) => some b
  | _ => none

def Readable (mem : M) (addr len : U64) : Prop :=
  ∃ bytes, Fallible.Returns (read mem addr len) bytes

def Writable (mem : M) (addr len : U64) : Prop :=
  Fallible.Returns (ensureWritable mem addr len) ()

-- The same ranges are accepted in both memories.
structure SameRanges (mem mem' : M) : Prop where
  readable : ∀ addr len, Readable mem' addr len ↔ Readable mem addr len
  writable : ∀ addr len, Writable mem' addr len ↔ Writable mem addr len

theorem SameRanges.refl (mem : M) : SameRanges mem mem :=
  ⟨fun _ _ => .rfl, fun _ _ => .rfl⟩

theorem SameRanges.trans {mem₁ mem₂ mem₃ : M} (h : SameRanges mem₁ mem₂)
    (h' : SameRanges mem₂ mem₃) : SameRanges mem₁ mem₃ :=
  ⟨fun addr len => (h'.readable addr len).trans (h.readable addr len),
    fun addr len => (h'.writable addr len).trans (h.writable addr len)⟩

end GuestMem

open GuestMem MappedMemory in
-- Accesses do not panic, a range is read as its single bytes, and an accepted write changes these
-- bytes and no others.
class LawfulGuestMem (M : Type) [GuestMem M] where
  Valid : M → Prop
  read_runs {mem : M} {addr len : U64} (h : Valid mem) :
    ∃ result, (read mem addr len).run = some result
  ensureWritable_runs {mem : M} {addr len : U64} (h : Valid mem) :
    ∃ result, (ensureWritable mem addr len).run = some result
  readable_of_writable {mem : M} {addr len : U64} (h : Valid mem)
    (hw : Writable mem addr len) : Readable mem addr len
  read_returns {mem : M} {addr len : U64} {bytes : List U8} (h : Valid mem)
    (hread : Fallible.Returns (read mem addr len) bytes) :
    addr.toNat + len.toNat < 2 ^ 64 ∧ bytes.length = len.toNat ∧
      ∀ k < len.toNat, byte mem (addr + BitVec.ofNat 64 k) = bytes[k]?
  write_refused {mem : M} {addr : U64} {src : List U8} (h : Valid mem) (hl : src.length < 2 ^ 64)
    (hw : ¬Writable mem addr (BitVec.ofNat 64 src.length)) :
    ∃ e, (write mem addr src).run = some (.error e)
  write_accepted {mem : M} {addr : U64} {src : List U8} (h : Valid mem) (hl : src.length < 2 ^ 64)
    (hw : Writable mem addr (BitVec.ofNat 64 src.length)) :
    addr.toNat + src.length < 2 ^ 64 ∧
      ∃ mem', Fallible.Returns (write mem addr src) mem' ∧ Valid mem' ∧ SameRanges mem mem' ∧
        byte mem' = give (byte mem) addr src

namespace BackedAddressSpace

variable {space space' : BackedAddressSpace} {addr len : U64} {src : List U8}

theorem byte_eq_view (h : space.Sound) : GuestMem.byte space = space.view.byte := by
  funext x
  have hrun : (GuestMem.read space x 1).run = some (space.view.read x 1) := read_refines h
  rw [GuestMem.byte, hrun]
  cases hb : space.view.byte x with
  | some b =>
    have hread := (read_returns_iff h).mp (read_byte h hb)
    rw [hread]
  | none =>
    cases hread : space.view.read x 1 with
    | error => rfl
    | ok bytes =>
      have ⟨⟨r, hr, hc, _⟩, _⟩ := (view_read_ok_iff h).mp hread
      have ⟨b, hb'⟩ := view_byte_isSome h hr hc
      nomatch hb.symm.trans hb'

theorem sameRanges_of_view (h : space.Sound) (h' : space'.Sound)
    (hv : space'.view.space = space.view.space) : GuestMem.SameRanges space space' := by
  have hregions : space'.regions.map MemRegion.asRegion = space.regions.map MemRegion.asRegion :=
    congrArg AddressSpace.regions hv
  have hin : ∀ needWrite addr n,
      space'.InOneRegion needWrite addr n ↔ space.InOneRegion needWrite addr n := by
    intro needWrite addr n
    have hview : ∀ space : BackedAddressSpace, space.InOneRegion needWrite addr n ↔
        ∃ q ∈ space.regions.map MemRegion.asRegion, Covers q addr.toNat ∧ addr.toNat + n ≤ hi q ∧
          (needWrite → q.prot.isWritable) := by
      intro space
      simp only [List.mem_map, exists_exists_and_eq_and]
      rfl
    rw [hview, hview, hregions]
  constructor
  case readable =>
    intro addr len
    exact (returns_read_iff h').trans ((hin ..).trans (returns_read_iff h).symm)
  case writable =>
    intro addr len
    exact (returns_ensureWritable_iff h').trans
      ((hin ..).trans (returns_ensureWritable_iff h).symm)

theorem writable_iff (h : space.Sound) (hl : src.length < 2 ^ 64) :
    GuestMem.Writable space addr (BitVec.ofNat 64 src.length) ↔
      space.InOneRegion true addr src.length := by
  have hlen : (BitVec.ofNat 64 src.length).toNat = src.length := Nat.mod_eq_of_lt hl
  exact (returns_ensureWritable_iff h).trans (by rw [hlen])

theorem Reachable.write (h : space.Reachable)
    (hw : Fallible.Returns (space.write addr src) space') : space'.Reachable := by
  refine @Reachable.call _ _ (.ok .done) (.write addr src) h ?_
  rw [MemCall.apply, MemCall.rangeResult, ExceptT.run_map, hw]
  rfl

instance : LawfulGuestMem BackedAddressSpace where
  Valid := Reachable
  read_runs h := ⟨_, read_refines h.sound⟩
  ensureWritable_runs h := ⟨_, ensureWritable_refines h.sound⟩
  readable_of_writable h hw := by
    have ⟨r, hr, hc, hle, _⟩ := (returns_ensureWritable_iff h.sound).mp hw
    exact (returns_read_iff h.sound).mpr ⟨r, hr, hc, hle, nofun⟩
  read_returns h hread := by
    rw [byte_eq_view h.sound]
    exact view_byte_of_read h.sound hread
  write_refused {space addr src} h hl hw := by
    cases write_cases h.sound addr src with
    | inl hn => exact hn.right
    | inr hin => exact absurd ((writable_iff h.sound hl).mpr hin.left) hw
  write_accepted {space addr src} h hl hw := by
    have hin := (writable_iff h.sound hl).mp hw
    cases write_cases h.sound addr src with
    | inl hn => exact absurd hin hn.left
    | inr hok =>
      have ⟨_, space', hret, hs', hview⟩ := hok
      have ⟨r, hr, _, hle, _⟩ := hin
      have hfits := h.sound.wellFormed.fits hr
      refine ⟨by omega, space', hret, h.write hret,
        sameRanges_of_view h.sound hs' (by rw [hview]), ?_⟩
      rw [byte_eq_view hs', byte_eq_view h.sound, hview]

end BackedAddressSpace

namespace GuestRegion

variable {region : GuestRegion} {addr off : U64} {n : Nat} {needWrite : Bool}

-- The range is in the window, whose end is an address.
structure Inside (region : GuestRegion) (needWrite : Bool) (addr : U64) (n : Nat) : Prop where
  fits : region.base.toNat + region.bytes.length < 2 ^ 64
  below : region.base.toNat ≤ addr.toNat
  above : addr.toNat + n ≤ region.base.toNat + region.bytes.length
  writable : needWrite → region.prot.isWritable

theorem returns_checkedOffset_iff :
    Fallible.Returns (region.checkedOffset addr n needWrite) off ↔
      region.Inside needWrite addr n ∧ off = addr - region.base := by
  simp only [checkedOffset, Fallible.returns_ite, Fallible.returns_bind, Fallible.returns_orFail,
    Fallible.returns_throw, Fallible.returns_pure, BitVec.checkedAddNat_eq_some, and_false,
    false_or, gt_iff_lt, BitVec.lt_def, not_or, Nat.not_lt]
  constructor
  · rintro ⟨hw, endAddr, hend, regionEnd, hregion, ⟨hlo, hhi⟩, rfl⟩
    refine ⟨⟨by omega, hlo, by omega, by simpa using hw⟩, rfl⟩
  · rintro ⟨⟨hfits, hlo, hhi, hw⟩, rfl⟩
    refine ⟨by simpa using hw, BitVec.ofNat 64 (addr.toNat + n), ?_,
      BitVec.ofNat 64 (region.base.toNat + region.bytes.length), ?_, ⟨hlo, ?_⟩, rfl⟩
    all_goals
      simp only [BitVec.toNat_ofNat]
      omega

theorem toNat_offset (h : region.Inside needWrite addr n) :
    (addr - region.base).toNat = addr.toNat - region.base.toNat :=
  BitVec.toNat_sub_of_le (BitVec.le_def.mpr h.below)

theorem checkedOffset_cases (region : GuestRegion) (needWrite : Bool) (addr : U64) (n : Nat) :
    (¬region.Inside needWrite addr n ∧
      ∃ e, (region.checkedOffset addr n needWrite).run = some (.error e)) ∨
    (region.Inside needWrite addr n ∧
      Fallible.Returns (region.checkedOffset addr n needWrite) (addr - region.base)) := by
  have hpanics : ¬Fallible.Panics (region.checkedOffset addr n needWrite) := by
    simp [checkedOffset]
  have hreturns := fun off => @returns_checkedOffset_iff region addr off n needWrite
  unfold Fallible.Panics at hpanics
  unfold Fallible.Returns at hreturns ⊢
  generalize (region.checkedOffset addr n needWrite).run = result at *
  match result with
  | none => exact absurd rfl hpanics
  | some (.error e) => exact .inl ⟨fun hin => (nomatch (hreturns _).mpr ⟨hin, rfl⟩), e, rfl⟩
  | some (.ok off) =>
    have ⟨hin, hoff⟩ := (hreturns off).mp rfl
    exact .inr ⟨hin, by rw [hoff]⟩

theorem returns_read_iff {len : U64} {bytes : List U8} :
    Fallible.Returns (region.read addr len) bytes ↔ region.Inside false addr len.toNat ∧
      bytes = region.bytes.slice (addr.toNat - region.base.toNat) len.toNat := by
  simp only [read, Fallible.returns_bind, Fallible.returns_pure, returns_checkedOffset_iff]
  constructor
  · rintro ⟨off, ⟨hin, rfl⟩, hbytes⟩
    exact ⟨hin, toNat_offset hin ▸ hbytes⟩
  · rintro ⟨hin, hbytes⟩
    exact ⟨_, ⟨hin, rfl⟩, toNat_offset hin ▸ hbytes⟩

theorem returns_ensureWritable_iff {len : U64} :
    Fallible.Returns (region.ensureWritable addr len) () ↔
      region.Inside true addr len.toNat := by
  simp [ensureWritable, returns_checkedOffset_iff]

theorem byte_eq (region : GuestRegion) (x : U64) :
    GuestMem.byte region x =
      if region.base.toNat + region.bytes.length < 2 ^ 64 ∧ region.base.toNat ≤ x.toNat then
        region.bytes[x.toNat - region.base.toNat]?
      else none := by
  have hone : (1 : U64).toNat = 1 := rfl
  cases checkedOffset_cases region false x 1 with
  | inl hn =>
    have ⟨hin, e, hrun⟩ := hn
    have hread : (GuestMem.read region x 1).run = some (.error e) := by
      show (region.read x 1).run = _
      rw [read, ExceptT.run_bind, hone, hrun]
      rfl
    have hnone : GuestMem.byte region x = none := by rw [GuestMem.byte, hread]
    rw [hnone]
    split
    case isTrue hc =>
      refine (List.getElem?_eq_none (Nat.not_lt.mp fun hlt => hin ?_)).symm
      exact ⟨hc.left, hc.right, by omega, nofun⟩
    case isFalse => rfl
  | inr hin =>
    have ⟨hin, _⟩ := hin
    have hread : Fallible.Returns (GuestMem.read region x 1) _ := returns_read_iff.mpr ⟨hin, rfl⟩
    have hlt : x.toNat - region.base.toNat < region.bytes.length := by
      have := hin.below
      have := hin.above
      omega
    have hslice : region.bytes.slice (x.toNat - region.base.toNat) (1 : U64).toNat =
        [region.bytes[x.toNat - region.base.toNat]] := by
      rw [List.slice, hone, List.drop_eq_getElem_cons hlt]
      rfl
    rw [Fallible.Returns, hslice] at hread
    rw [GuestMem.byte, hread, if_pos ⟨hin.fits, hin.below⟩, List.getElem?_eq_getElem hlt]

theorem inside_congr {region' : GuestRegion} (hb : region'.base = region.base)
    (hp : region'.prot = region.prot) (hl : region'.bytes.length = region.bytes.length)
    (h : region.Inside needWrite addr n) : region'.Inside needWrite addr n :=
  ⟨by rw [hb, hl]; exact h.fits, by rw [hb]; exact h.below, by rw [hb, hl]; exact h.above,
    by rw [hp]; exact h.writable⟩

-- The window with other bytes from an offset on.
def patched (region : GuestRegion) (off : Nat) (src : List U8) : GuestRegion :=
  { region with bytes := region.bytes.overwrite off src }

theorem inside_patched {off : Nat} {src : List U8} :
    (region.patched off src).Inside needWrite addr n ↔ region.Inside needWrite addr n :=
  ⟨inside_congr rfl rfl List.length_overwrite.symm, inside_congr rfl rfl List.length_overwrite⟩

theorem byte_patched {src : List U8} (h : region.Inside true addr src.length) :
    GuestMem.byte (region.patched (addr.toNat - region.base.toNat) src) =
      MappedMemory.give (GuestMem.byte region) addr src := by
  funext x
  have ⟨hfits, hbelow, habove, _⟩ := h
  rw [byte_eq, MappedMemory.give, byte_eq, patched]
  dsimp only
  rw [List.length_overwrite, List.getElem?_overwrite (by omega)]
  unfold MappedMemory.InRange
  split
  case isTrue hx =>
    by_cases hr : addr.toNat ≤ x.toNat ∧ x.toNat < addr.toNat + src.length
    case pos =>
      rw [if_pos (by omega), if_pos hr]
      congr 1
      omega
    case neg => rw [if_neg (by omega), if_neg hr]
  case isFalse hx => rw [if_neg (by omega)]

instance : LawfulGuestMem GuestRegion where
  Valid _ := True
  read_runs {region addr len} _ := by
    show ∃ result, (region.read addr len).run = _
    rw [read, ExceptT.run_bind]
    match checkedOffset_cases region false addr len.toNat with
    | .inl ⟨_, e, hrun⟩ => exact ⟨.error e, by rw [hrun]; rfl⟩
    | .inr ⟨_, hrun⟩ => exact ⟨_, by rw [hrun]; rfl⟩
  ensureWritable_runs {region addr len} _ := by
    show ∃ result, (region.ensureWritable addr len).run = _
    rw [ensureWritable, ExceptT.run_bind]
    match checkedOffset_cases region true addr len.toNat with
    | .inl ⟨_, e, hrun⟩ => exact ⟨.error e, by rw [hrun]; rfl⟩
    | .inr ⟨_, hrun⟩ => exact ⟨_, by rw [hrun]; rfl⟩
  readable_of_writable _ hw := by
    have ⟨hfits, hbelow, habove, _⟩ := returns_ensureWritable_iff.mp hw
    exact ⟨_, returns_read_iff.mpr ⟨⟨hfits, hbelow, habove, nofun⟩, rfl⟩⟩
  read_returns {region addr len bytes} _ hread := by
    have ⟨⟨hfits, hbelow, habove, _⟩, hbytes⟩ := returns_read_iff.mp hread
    refine ⟨by omega, ?_, fun k hk => ?_⟩
    · rw [hbytes, List.length_slice (by omega)]
    · rw [byte_eq, AddressSpace.toNat_add_ofNat (by omega), if_pos ⟨hfits, by omega⟩, hbytes,
        List.getElem?_slice, if_pos hk]
      congr 1
      omega
  write_refused {region addr src} _ hl hw := by
    show ∃ e, (region.write addr src).run = _
    rw [write, ExceptT.run_bind]
    have hlen : (BitVec.ofNat 64 src.length).toNat = src.length := Nat.mod_eq_of_lt hl
    match checkedOffset_cases region true addr src.length with
    | .inl ⟨_, e, hrun⟩ => exact ⟨e, by rw [hrun]; rfl⟩
    | .inr ⟨hin, _⟩ => exact absurd (returns_ensureWritable_iff.mpr (hlen.symm ▸ hin)) hw
  write_accepted {region addr src} _ hl hw := by
    have hlen : (BitVec.ofNat 64 src.length).toNat = src.length := Nat.mod_eq_of_lt hl
    have hin := returns_ensureWritable_iff.mp hw
    rw [hlen] at hin
    have ⟨hfits, _, habove, _⟩ := hin
    refine ⟨by omega, region.patched (addr.toNat - region.base.toNat) src, ?_, trivial, ⟨?_, ?_⟩,
      byte_patched hin⟩
    · show Fallible.Returns (region.write addr src) _
      simp only [write, Fallible.returns_bind, Fallible.returns_pure, returns_checkedOffset_iff]
      exact ⟨_, ⟨hin, rfl⟩, by rw [toNat_offset hin, patched]⟩
    · intro a len
      have hreadable : ∀ region : GuestRegion, GuestMem.Readable region a len ↔
          region.Inside false a len.toNat := fun region =>
        ⟨fun ⟨_, hread⟩ => (returns_read_iff.mp hread).left,
          fun hin => ⟨_, returns_read_iff.mpr ⟨hin, rfl⟩⟩⟩
      rw [hreadable, hreadable, inside_patched]
    · intro a len
      have hwritable : ∀ region : GuestRegion, GuestMem.Writable region a len ↔
          region.Inside true a len.toNat := fun _ => returns_ensureWritable_iff
      rw [hwritable, hwritable, inside_patched]

end GuestRegion

end Prisma
