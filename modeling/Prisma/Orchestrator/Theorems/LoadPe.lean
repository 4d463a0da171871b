import Prisma.Orchestrator.LoadPe
import Prisma.Orchestrator.Theorems.PeLoader

namespace Prisma

open List

namespace IatPatch

variable {width imageBase : Nat} {p q : IatPatch} {patches before after : List IatPatch}
  {image : List U8} {base : U64} {x : Nat}

def offset (base : U64) (p : IatPatch) : Nat :=
  p.slotVa.toNat - base.toNat

-- The slot lies in the image.
def SlotIn (width : Nat) (base : U64) (len : Nat) (p : IatPatch) : Prop :=
  base.toNat ≤ p.slotVa.toNat ∧ p.offset base + width < 2 ^ 64 ∧ p.offset base + width ≤ len

instance {width : Nat} {base : U64} {len : Nat} {p : IatPatch} :
    Decidable (p.SlotIn width base len) :=
  inferInstanceAs (Decidable (_ ∧ _))

def Writes (width : Nat) (base : U64) (p : IatPatch) (x : Nat) : Prop :=
  p.offset base ≤ x ∧ x < p.offset base + width

instance {width : Nat} {base : U64} {p : IatPatch} {x : Nat} : Decidable (p.Writes width base x) :=
  inferInstanceAs (Decidable (_ ∧ _))

def slotError (base : U64) (p : IatPatch) : IatError :=
  if base.toNat ≤ p.slotVa.toNat then .slotOutOfRange p.slotVa else .slotBelowBase p.slotVa base

def fill (width : Nat) (base : U64) (image : List U8) (p : IatPatch) : List U8 :=
  image.overwrite (p.offset base) (LittleEndian.encode width p.value.toNat)

-- Every slot that is named gets its value and nothing else changes, up to the first slot that does
-- not lie in the image.
def fillSlots (width : Nat) (base : U64) :
    List IatPatch → List U8 → Except IatError Unit × List U8
  | [], image => (.ok (), image)
  | p :: patches, image =>
    if p.SlotIn width base image.length then fillSlots width base patches (p.fill width base image)
    else (.error (p.slotError base), image)

def fillAll (width : Nat) (base : U64) (patches : List IatPatch) (image : List U8) : List U8 :=
  patches.foldl (fill width base) image

variable {width : Nat} {base : U64} {image : List U8} {p q : IatPatch} {x : Nat}
  {patches before after : List IatPatch}

@[simp]
theorem length_fill : (p.fill width base image).length = image.length :=
  length_overwrite

@[simp]
theorem length_fillAll : (fillAll width base patches image).length = image.length := by
  induction patches generalizing image with
  | nil => rfl
  | cons p patches hi => exact hi.trans length_fill

theorem getElem?_fill (h : p.SlotIn width base image.length) :
    (p.fill width base image)[x]? =
      if p.Writes width base x then (LittleEndian.encode width p.value.toNat)[x - p.offset base]?
      else image[x]? := by
  have ⟨_, _, hle⟩ := h
  rw [fill, List.getElem?_overwrite (by rwa [LittleEndian.length_encode]),
    LittleEndian.length_encode]
  rfl

theorem fillAll_others (h : ∀ p ∈ patches, p.SlotIn width base image.length)
    (hx : ∀ p ∈ patches, ¬p.Writes width base x) :
    (fillAll width base patches image)[x]? = image[x]? := by
  induction patches generalizing image with
  | nil => rfl
  | cons p patches hi =>
    have ⟨hp, h⟩ := forall_mem_cons.mp h
    have ⟨hx, hxs⟩ := forall_mem_cons.mp hx
    have hrest := @hi (p.fill width base image) (by rwa [length_fill]) hxs
    exact hrest.trans (by rw [getElem?_fill hp, if_neg hx])

theorem fillAll_last (h : ∀ q ∈ before ++ p :: after, q.SlotIn width base image.length)
    (hx : ∀ q ∈ after, ¬q.Writes width base x) :
    (fillAll width base (before ++ p :: after) image)[x]? =
      if p.Writes width base x then (LittleEndian.encode width p.value.toNat)[x - p.offset base]?
      else (fillAll width base before image)[x]? := by
  have hp := h p (mem_append_right _ (.head _))
  have hafter : ∀ q ∈ after, q.SlotIn width base image.length := fun q hq =>
    h q (mem_append_right _ (.tail _ hq))
  have hsplit : fillAll width base (before ++ p :: after) image =
      fillAll width base after (p.fill width base (fillAll width base before image)) :=
    foldl_append
  rw [hsplit, fillAll_others (by simpa using hafter) hx, getElem?_fill (by simpa using hp)]

-- The patches before the first one whose slot does not lie in the image.
def done (width : Nat) (base : U64) (len : Nat) (patches : List IatPatch) : List IatPatch :=
  patches.takeWhile fun p => p.SlotIn width base len

def result (width : Nat) (base : U64) (len : Nat) (patches : List IatPatch) :
    Except IatError Unit :=
  match patches.find? fun p => ¬p.SlotIn width base len with
  | none => .ok ()
  | some p => .error (p.slotError base)

section Cons

variable {len : Nat}

theorem done_cons_of_in (h : p.SlotIn width base len) :
    done width base len (p :: patches) = p :: done width base len patches :=
  takeWhile_cons_of_pos (by simpa using h)

theorem done_cons_of_not (h : ¬p.SlotIn width base len) : done width base len (p :: patches) = [] :=
  takeWhile_cons_of_neg (by simpa using h)

theorem result_cons_of_in (h : p.SlotIn width base len) :
    result width base len (p :: patches) = result width base len patches := by
  rw [result, List.find?_cons_of_neg (by simpa using h), result]

theorem result_cons_of_not (h : ¬p.SlotIn width base len) :
    result width base len (p :: patches) = .error (p.slotError base) := by
  rw [result, List.find?_cons_of_pos (by simpa using h)]

theorem result_eq_error (h : result width base len patches = .error e) :
    ∃ p : IatPatch, ¬p.SlotIn width base len ∧ e = p.slotError base := by
  unfold result at h
  split at h
  · nomatch h
  case _ p hp =>
    cases h
    exact ⟨p, by simpa using List.find?_some hp, rfl⟩

end Cons

theorem fillSlots_eq :
    fillSlots width base patches image =
      (result width base image.length patches,
        fillAll width base (done width base image.length patches) image) := by
  induction patches generalizing image with
  | nil => rfl
  | cons p patches hi =>
    rw [fillSlots]
    split
    case isTrue hp =>
      rw [hi, length_fill, result_cons_of_in hp, done_cons_of_in hp]
      rfl
    case isFalse hp =>
      rw [result_cons_of_not hp, done_cons_of_not hp]
      rfl

theorem applyIatPatches_eq :
    applyIatPatches base patches image = fillSlots 8 base patches image := by
  induction patches generalizing image with
  | nil => rfl
  | cons p patches hi =>
    rw [applyIatPatches, fillSlots, slotError]
    by_cases hbase : base.toNat ≤ p.slotVa.toNat
    case neg =>
      rw [BitVec.checkedSub, if_neg hbase, if_neg fun h => hbase h.left]
      dsimp only
      rw [if_neg hbase]
    case pos =>
      have hoff : (p.slotVa - base).toNat = p.offset base :=
        BitVec.toNat_sub_of_le (BitVec.le_def.mpr hbase)
      rw [BitVec.checkedSub, if_pos hbase, if_pos hbase]
      dsimp only
      rw [BitVec.checkedAddNat, hoff]
      by_cases hfits : p.offset base + 8 < 2 ^ 64
      case neg => rw [if_neg hfits, if_neg fun h => hfits h.right.left]
      case pos =>
        have hstop : (p.slotVa - base + BitVec.ofNat 64 8).toNat = p.offset base + 8 := by
          rw [BitVec.toNat_add, hoff]
          exact Nat.mod_eq_of_lt hfits
        rw [if_pos hfits]
        dsimp only
        rw [hstop, hi]
        by_cases hlen : p.offset base + 8 ≤ image.length
        case pos => rw [if_pos hlen, if_pos ⟨hbase, hfits, hlen⟩, fill]
        case neg => rw [if_neg hlen, if_neg fun h => hlen h.right.right]

theorem SlotIn.narrow (h : p.SlotIn 8 base len) : p.SlotIn 4 base len := by
  unfold SlotIn at *
  omega

-- The four bytes behind a slot of four bytes are what the high half of the value is, unless a later
-- patch writes them anyway.
def HighHalvesMatch (base : U64) (patches : List IatPatch) (image : List U8) : Prop :=
  ∀ before p after, patches = before ++ p :: after →
    ∀ x, p.offset base + 4 ≤ x → x < p.offset base + 8 → (∀ q ∈ after, ¬q.Writes 8 base x) →
      (fillAll 4 base before image)[x]? =
        (LittleEndian.encode 8 p.value.toNat)[x - p.offset base]?

theorem fillAll_eq_iff (h : ∀ p ∈ patches, p.SlotIn 8 base image.length) :
    fillAll 8 base patches image = fillAll 4 base patches image ↔
      HighHalvesMatch base patches image := by
  have h' : ∀ p ∈ patches, p.SlotIn 4 base image.length := fun p hp => (h p hp).narrow
  constructor
  · rintro he before p after rfl x hlo hhi hafter
    have hwide := fillAll_last h hafter
    have hnarrow := fillAll_last h' fun q hq hw => hafter q hq ⟨hw.left, by have := hw.right; omega⟩
    rw [if_pos ⟨by omega, hhi⟩] at hwide
    rw [if_neg fun hw => absurd hw.right (by omega)] at hnarrow
    rw [← hwide, he, hnarrow]
  · intro hmatch
    refine ext_getElem? fun x => ?_
    by_cases hx : ∃ p ∈ patches, p.Writes 8 base x
    case neg =>
      have hx : ∀ p ∈ patches, ¬p.Writes 8 base x := by simpa using hx
      rw [fillAll_others h hx, fillAll_others h' fun q hq hw =>
        hx q hq ⟨hw.left, by have := hw.right; omega⟩]
    case pos =>
      have ⟨before, p, after, hsplit, hp, hafter⟩ := exists_last hx
      subst hsplit
      rw [fillAll_last h hafter, if_pos hp, fillAll_last h' fun q hq hw =>
        hafter q hq ⟨hw.left, by have := hw.right; omega⟩]
      have ⟨hlo, hhi⟩ := hp
      split
      case isTrue hlow =>
        have := hlow.right
        rw [LittleEndian.getElem?_encode, LittleEndian.getElem?_encode, if_pos (by omega),
          if_pos (by omega)]
      case isFalse hhigh =>
        refine (hmatch before p after rfl x ?_ hhi hafter).symm
        unfold Writes at hhigh
        omega

section Narrow

variable {len : Nat}

theorem slotError_ne (hp : p.SlotIn width base len) (hq : ¬q.SlotIn width base len) :
    p.slotError base ≠ q.slotError base := by
  intro he
  rw [slotError, if_pos hp.left, slotError] at he
  split at he
  · have hva : p.slotVa = q.slotVa := by simpa using he
    unfold SlotIn offset at *
    rw [hva] at hp
    exact hq hp
  · nomatch he

-- A slot that is in the image but has no room for eight bytes is an error of its own.
theorem result_eq_iff :
    result 8 base len patches = result 4 base len patches ↔
      ∀ p ∈ done 4 base len patches, p.SlotIn 8 base len := by
  induction patches with
  | nil => exact iff_of_true rfl nofun
  | cons p patches hi =>
    by_cases hnarrow : p.SlotIn 4 base len
    case neg =>
      have hwide : ¬p.SlotIn 8 base len := fun h => hnarrow h.narrow
      rw [result_cons_of_not hwide, result_cons_of_not hnarrow, done_cons_of_not hnarrow]
      exact iff_of_true rfl nofun
    case pos =>
      rw [done_cons_of_in hnarrow, forall_mem_cons, result_cons_of_in hnarrow]
      by_cases hwide : p.SlotIn 8 base len
      case pos => rw [and_iff_right hwide, ← hi, result_cons_of_in hwide]
      case neg =>
        refine iff_of_false (fun he => ?_) fun h => hwide h.left
        rw [result_cons_of_not hwide] at he
        have ⟨q, hq, he⟩ := result_eq_error he.symm
        exact slotError_ne hnarrow hq he

theorem done_eq (h : ∀ p ∈ done 4 base len patches, p.SlotIn 8 base len) :
    done 8 base len patches = done 4 base len patches := by
  induction patches with
  | nil => rfl
  | cons p patches hi =>
    by_cases hnarrow : p.SlotIn 4 base len
    case neg => rw [done_cons_of_not fun h => hnarrow h.narrow, done_cons_of_not hnarrow]
    case pos =>
      rw [done_cons_of_in hnarrow, forall_mem_cons] at h
      rw [done_cons_of_in h.left, done_cons_of_in hnarrow, hi h.right]

end Narrow

end IatPatch

open IatPatch

-- Eight bytes are written for each slot, also where a slot has four.
theorem applyIatPatches_eq_fillSlots_iff (img : PeImage) (base : U64) (patches : List IatPatch)
    (image : List U8) :
    applyIatPatches base patches image =
        fillSlots (PeLoader.thunkWidth img) base patches image ↔
      img.pe32Plus ∨
      (∀ p ∈ done 4 base image.length patches, p.SlotIn 8 base image.length) ∧
        HighHalvesMatch base (done 4 base image.length patches) image := by
  rw [applyIatPatches_eq, PeLoader.thunkWidth]
  cases img.pe32Plus with
  | true => exact iff_of_true rfl (.inl rfl)
  | false =>
    rw [if_neg (by decide), fillSlots_eq, fillSlots_eq, Prod.mk.injEq, result_eq_iff]
    refine (and_congr_right fun h => ?_).trans (or_iff_right (by decide)).symm
    rw [done_eq h, fillAll_eq_iff h]

-- A 32-bit executable that imports one function by its number. The name of the library stands
-- right behind the only slot.
def importSampleData : List U8 :=
  [56, 0, 0, 0] ++ List.replicate 8 0 ++ [68, 0, 0, 0, 64, 0, 0, 0] ++ List.replicate 20 0 ++
  [1, 0, 0, 0x80, 0, 0, 0, 0, 1, 0, 0, 0x80, 0x61, 0x62, 0x63, 0x64, 0, 0]

def importSampleFile : List U8 :=
  [0x4D, 0x5A] ++ List.replicate 58 0 ++ [64, 0, 0, 0] ++
  [0x50, 0x45, 0, 0, 0x4C, 0x01, 1, 0] ++ List.replicate 12 0 ++ [112, 0, 0, 0] ++
  [0x0B, 0x01] ++ List.replicate 26 0 ++ [0, 0, 0x40, 0] ++ List.replicate 24 0 ++ [80, 0, 0, 0] ++
  List.replicate 32 0 ++ [2, 0, 0, 0] ++ List.replicate 8 0 ++ [16, 0, 0, 0, 40, 0, 0, 0] ++
  List.replicate 8 0 ++ [58, 0, 0, 0, 16, 0, 0, 0, 58, 0, 0, 0, 240, 0, 0, 0] ++
  List.replicate 16 0 ++ importSampleData

def importSampleImage : PeImage where
  machine := .i386
  sectionCount := 1
  timestamp := 0
  entryPointRva := 0
  imageBase := 0x400000
  sizeOfImage := 80
  sections := [⟨List.replicate 8 0, 58, 16, 58, 240, 0⟩]
  pe32Plus := false
  importDirRva := 16
  importDirSize := 40
  relocDirRva := 0
  relocDirSize := 0
  exportDirRva := 0
  exportDirSize := 0

def importSampleMapped : MappedImage :=
  ⟨0x400000, 0x400000, List.replicate 16 0 ++ importSampleData ++ List.replicate 6 0⟩

def importSampleModules : ModuleTable :=
  ⟨[([0x61, 0x62, 0x63, 0x64], ⟨[0x61, 0x62, 0x63, 0x64], 0x10000000, [⟨[0x66], 0x1000, 1⟩]⟩)]⟩

theorem loadPatches_importSample :
    Fallible.Returns (LoadPe.loadPatches id importSampleFile importSampleModules)
      (importSampleImage, 0x400000, importSampleMapped, [⟨0x400040, 0x10001000⟩]) := by
  unfold Fallible.Returns
  decide +kernel

theorem not_applyIatPatches_eq_fillSlots :
    ¬∀ (utf8Lossy : List U8 → Text) (file : List U8) (modules : ModuleTable) (img : PeImage)
      (base : U64) (mapped : MappedImage) (patches : List IatPatch),
      Fallible.Returns (LoadPe.loadPatches utf8Lossy file modules) (img, base, mapped, patches) →
      applyIatPatches base patches mapped.bytes =
        fillSlots (PeLoader.thunkWidth img) base patches mapped.bytes := by
  intro h
  have hne : applyIatPatches 0x400000 [⟨0x400040, 0x10001000⟩] importSampleMapped.bytes ≠
      fillSlots 4 0x400000 [⟨0x400040, 0x10001000⟩] importSampleMapped.bytes := by
    decide +kernel
  exact hne (h _ _ _ _ _ _ _ loadPatches_importSample)

end Prisma
