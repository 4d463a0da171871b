import Prisma.Orchestrator.RelocDirectory

namespace Prisma.PeLoader

open Extent List LittleEndian

namespace Fixup

variable {f g : Fixup} {fixups : List Fixup} {bytes : List U8} {d d' : U64}

-- The fixup lies in the image.
def Within (bytes : List U8) (f : Fixup) : Prop :=
  f.target + f.size ≤ bytes.length

theorem size_pos : 0 < f.size := by
  unfold size
  split <;> decide

theorem dvd_two_pow : 256 ^ f.size ∣ 2 ^ 64 := by
  unfold size
  split <;> decide

theorem toNat_add_mod : (d + d').toNat % 256 ^ f.size = (d.toNat + d'.toNat) % 256 ^ f.size := by
  rw [BitVec.toNat_add, Nat.mod_mod_of_dvd _ dvd_two_pow]

theorem apart_iff :
    Apart f g ↔ g.target + g.size ≤ f.target ∨ f.target + f.size ≤ g.target := by
  have hf : 0 < f.size := size_pos
  have hg : 0 < g.size := size_pos
  constructor
  · intro h
    by_contra hno
    refine h (max f.target g.target) ⟨Nat.le_max_left .., ?_⟩ ⟨Nat.le_max_right .., ?_⟩
    · show _ < f.target + f.size
      omega
    · show _ < g.target + g.size
      omega
  · intro h x ⟨hlo, hhi⟩ ⟨hlo', hhi'⟩
    have hhi : x < f.target + f.size := hhi
    have hhi' : x < g.target + g.size := hhi'
    have hlo : f.target ≤ x := hlo
    have hlo' : g.target ≤ x := hlo'
    omega

@[simp]
theorem length_add : (f.add d bytes).length = bytes.length :=
  length_overwrite

theorem within_add : g.Within (f.add d bytes) ↔ g.Within bytes := by
  rw [Within, length_add, Within]

@[simp]
theorem length_addAll : (addAll d fixups bytes).length = bytes.length := by
  induction fixups generalizing bytes with
  | nil => rfl
  | cons f fixups hi => exact hi.trans length_add

section One

variable (hf : f.Within bytes)
include hf

theorem encode_within (n : Nat) :
    f.target + (LittleEndian.encode f.size n).length ≤ bytes.length := by
  rwa [length_encode]

theorem number_add_self : f.number (f.add d bytes) = (f.number bytes + d.toNat) % 256 ^ f.size := by
  have hslice := slice_overwrite_self (encode_within hf (f.number bytes + d.toNat))
  rw [length_encode] at hslice
  rw [add, number, hslice, decode_encode_mod]

theorem slice_add_apart (h : off + len ≤ f.target ∨ f.target + f.size ≤ off) :
    (f.add d bytes).slice off len = bytes.slice off len :=
  slice_overwrite_apart (encode_within hf _) (by rwa [length_encode])

theorem number_add_apart (h : Apart f g) : g.number (f.add d bytes) = g.number bytes := by
  rw [number, slice_add_apart hf (apart_iff.mp h), number]

theorem add_add : f.add d' (f.add d bytes) = f.add (d + d') bytes := by
  have hmod : (f.number (f.add d bytes) + d'.toNat) % 256 ^ f.size =
      (f.number bytes + (d + d').toNat) % 256 ^ f.size := by
    rw [number_add_self hf, Nat.mod_add_mod, Nat.add_assoc, ← Nat.add_mod_mod, ← toNat_add_mod,
      Nat.add_mod_mod]
  rw [add, ← encode_mod, hmod, encode_mod, add, add]
  exact overwrite_overwrite_self (encode_within hf _) (by simp)

theorem add_comm (hg : g.Within bytes) (h : Apart f g) :
    g.add d' (f.add d bytes) = f.add d (g.add d' bytes) := by
  have ha := apart_iff.mp h
  rw [add, number_add_apart hf h, add, add, number_add_apart hg (symm h), add]
  exact overwrite_comm (encode_within hf _) (encode_within hg _) (by simpa using ha)

end One

theorem add_congr (h : d.toNat % 256 ^ f.size = d'.toNat % 256 ^ f.size) :
    f.add d bytes = f.add d' bytes := by
  rw [add, add, ← encode_mod, ← Nat.add_mod_mod, h, Nat.add_mod_mod,
    encode_mod]

section All

theorem addAll_cons : addAll d (f :: fixups) bytes = addAll d fixups (f.add d bytes) :=
  rfl

theorem addAll_add (hf : f.Within bytes) (hw : ∀ g ∈ fixups, g.Within bytes)
    (ha : ∀ g ∈ fixups, Apart f g) :
    addAll d' fixups (f.add d bytes) = f.add d (addAll d' fixups bytes) := by
  induction fixups generalizing bytes with
  | nil => rfl
  | cons g fixups hi =>
    have ⟨hg, hw⟩ := forall_mem_cons.mp hw
    have ⟨hfg, ha⟩ := forall_mem_cons.mp ha
    rw [addAll_cons, add_comm hf hg hfg,
      hi (within_add.mpr hf) (fun g hg => within_add.mpr (hw g hg)) ha, addAll_cons]

section Within

variable (hw : ∀ f ∈ fixups, f.Within bytes)

include hw

theorem addAll_addAll (ha : fixups.Pairwise Apart) :
    addAll d' fixups (addAll d fixups bytes) = addAll (d + d') fixups bytes := by
  induction fixups generalizing bytes with
  | nil => rfl
  | cons f fixups hi =>
    have ⟨hf, hw⟩ := forall_mem_cons.mp hw
    have ⟨hfirst, ha⟩ := pairwise_cons.mp ha
    rw [addAll_cons, addAll_cons, addAll_cons,
      ← addAll_add (within_add.mpr hf) (fun g hg => within_add.mpr (hw g hg)) hfirst, add_add hf,
      hi (fun g hg => within_add.mpr (hw g hg)) ha]

theorem number_addAll_apart (ha : ∀ f ∈ fixups, Apart f g) :
    g.number (addAll d fixups bytes) = g.number bytes := by
  induction fixups generalizing bytes with
  | nil => rfl
  | cons f fixups hi =>
    have ⟨hf, hw⟩ := forall_mem_cons.mp hw
    have ⟨hfg, ha⟩ := forall_mem_cons.mp ha
    rw [addAll_cons, hi (fun g hg => within_add.mpr (hw g hg)) ha, number_add_apart hf hfg]

theorem number_addAll (ha : fixups.Pairwise Apart) (hm : f ∈ fixups) :
    f.number (addAll d fixups bytes) = (f.number bytes + d.toNat) % 256 ^ f.size := by
  induction fixups generalizing bytes with
  | nil => nomatch hm
  | cons g fixups hi =>
    have ⟨hg, hws⟩ := forall_mem_cons.mp hw
    have ⟨hfirst, has⟩ := pairwise_cons.mp ha
    rw [addAll_cons]
    cases hm with
    | head =>
      rw [number_addAll_apart (fun g hg => within_add.mpr (hws g hg)) fun f hf => symm (hfirst f hf),
        number_add_self hg]
    | tail _ hm =>
      rw [hi (fun g hg => within_add.mpr (hws g hg)) has hm, number_add_apart hg (hfirst f hm)]

theorem getElem?_addAll_outside (hi : ∀ f ∈ fixups, i < f.target ∨ f.target + f.size ≤ i) :
    (addAll d fixups bytes)[i]? = bytes[i]? := by
  induction fixups generalizing bytes with
  | nil => rfl
  | cons f fixups ih =>
    have ⟨hf, hw⟩ := forall_mem_cons.mp hw
    have ⟨hif, hi⟩ := forall_mem_cons.mp hi
    rw [addAll_cons, ih (fun g hg => within_add.mpr (hw g hg)) hi, add,
      List.getElem?_overwrite (encode_within hf _), length_encode, if_neg (by omega)]

end Within

theorem addAll_congr (h : ∀ f ∈ fixups, d.toNat % 256 ^ f.size = d'.toNat % 256 ^ f.size) :
    addAll d fixups bytes = addAll d' fixups bytes := by
  induction fixups generalizing bytes with
  | nil => rfl
  | cons f fixups hi =>
    have ⟨hf, h⟩ := forall_mem_cons.mp h
    rw [addAll_cons, add_congr hf, hi h, addAll_cons]

theorem addAll_eq_iff (hw : ∀ f ∈ fixups, f.Within bytes) (ha : fixups.Pairwise Apart) :
    addAll d fixups bytes = addAll d' fixups bytes ↔
      ∀ f ∈ fixups, d.toNat % 256 ^ f.size = d'.toNat % 256 ^ f.size := by
  refine ⟨fun h f hf => ?_, addAll_congr⟩
  have hn : f.number (addAll d fixups bytes) = f.number (addAll d' fixups bytes) := by rw [h]
  rw [number_addAll hw ha hf, number_addAll hw ha hf] at hn
  exact Nat.ModEq.add_left_cancel' _ hn

-- A distance that the number is too narrow to show.
theorem add_eq_self (hf : f.Within bytes) (h : d.toNat % 256 ^ f.size = 0) :
    f.add d bytes = bytes := by
  have hlen : (bytes.slice f.target f.size).length = f.size := length_slice hf
  have henc : LittleEndian.encode f.size (f.number bytes) = bytes.slice f.target f.size := by
    have henc := @LittleEndian.encode_decode (bytes.slice f.target f.size)
    rwa [hlen] at henc
  rw [add, ← encode_mod, ← Nat.add_mod_mod, h, Nat.add_zero, encode_mod, henc, overwrite_slice hf]

theorem addAll_eq_self (hw : ∀ f ∈ fixups, f.Within bytes)
    (h : ∀ f ∈ fixups, d.toNat % 256 ^ f.size = 0) : addAll d fixups bytes = bytes := by
  induction fixups with
  | nil => rfl
  | cons f fixups hi =>
    have ⟨hf, hw⟩ := forall_mem_cons.mp hw
    have ⟨hfirst, h⟩ := forall_mem_cons.mp h
    rw [addAll_cons, add_eq_self hf hfirst, hi hw h]

theorem addAll_eq_self_iff (hw : ∀ f ∈ fixups, f.Within bytes) (ha : fixups.Pairwise Apart) :
    addAll d fixups bytes = bytes ↔ ∀ f ∈ fixups, d.toNat % 256 ^ f.size = 0 := by
  refine ⟨fun h => ?_, addAll_eq_self hw⟩
  have hzero : addAll 0 fixups bytes = bytes := addAll_eq_self hw fun _ _ => Nat.zero_mod _
  exact fun f hf => ((addAll_eq_iff hw ha).mp (h.trans hzero.symm) f hf).trans (Nat.zero_mod _)

end All

end Fixup

end Prisma.PeLoader
