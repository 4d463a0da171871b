import Prisma.Orchestrator.Regions
import Mathlib.Tactic.Tauto

namespace Prisma.Placed

open Extent BitVec List

variable {α : Type} [Placed α] {regions before after : List α} {r r' : α}
  {addr bs len minAddr cursor b : U64}

instance : Extent α where
  lo r := (base r).toNat
  hi r := (base r).toNat + (size r).toNat

theorem lo_def : lo r = (base r).toNat :=
  rfl

theorem hi_def : hi r = (base r).toNat + (size r).toNat :=
  rfl

-- Sorted, nonempty and disjoint regions that do not wrap.
structure WellFormed (regions : List α) : Prop extends Ordered regions where
  fits : ∀ {r}, r ∈ regions → hi r < 2 ^ 64

theorem toNat_endAddr (h : hi r < 2 ^ 64) : (endAddr r).toNat = hi r := by
  rw [endAddr, toNat_saturatingAdd, hi_def] at *
  omega

theorem contains_iff (h : hi r < 2 ^ 64) : contains r addr ↔ Covers r addr.toNat := by
  rw [contains, Bool.and_eq_true, decide_eq_true_iff, decide_eq_true_iff, le_def,
    lt_def, toNat_endAddr h]
  rfl

namespace WellFormed

theorem nil : WellFormed ([] : List α) where
  toOrdered := .nil
  fits h := nomatch h

theorem insert (h : WellFormed regions) (hr : lo r < hi r) (hf : hi r < 2 ^ 64)
    (hn : ∀ r' ∈ regions, ¬Meets r' (lo r) (hi r)) :
    WellFormed (regions.insertIdx (regions.partitionPoint (base · < base r)) r) where
  toOrdered := by
    rw [insertIdx_partitionPoint]
    exact h.toOrdered.insert hr hn
  fits {r'} hm := by
    rw [insertIdx_partitionPoint, mem_append, mem_cons] at hm
    match hm with
    | .inl hm => exact h.fits (takeWhile_subset _ hm)
    | .inr (.inl hm) => exact hm ▸ hf
    | .inr (.inr hm) => exact h.fits (dropWhile_subset _ hm)

theorem erase (h : WellFormed (before ++ r :: after)) : WellFormed (before ++ after) where
  toOrdered := h.toOrdered.sublist (by simp)
  fits {r'} hm := h.fits (by simp only [mem_append, mem_cons] at hm ⊢; tauto)

theorem resize (h : WellFormed (before ++ r :: after)) (hb : base r' = base r)
    (hs : size r' ≠ 0) (hf : hi r' < 2 ^ 64) (hn : ∀ c ∈ after.head?, hi r' ≤ lo c) :
    WellFormed (before ++ r' :: after) where
  toOrdered := by
    refine h.toOrdered.resize (congrArg BitVec.toNat hb) ?_ hn
    have : (size r').toNat ≠ 0 := fun he => hs (eq_of_toNat_eq he)
    rw [lo_def, hi_def]
    omega
  fits {c} hm := by
    rw [mem_append, mem_cons] at hm
    match hm with
    | .inl hm => exact h.fits (mem_append_left _ hm)
    | .inr (.inl hm) => exact hm ▸ hf
    | .inr (.inr hm) => exact h.fits (mem_append_right _ (.tail _ hm))

theorem size_ne_zero (h : WellFormed regions) (hr : r ∈ regions) : size r ≠ 0 := by
  have := h.nonempty hr
  rintro he
  rw [lo_def, hi_def, he] at this
  exact Nat.lt_irrefl _ this

variable (h : WellFormed (before ++ r :: after))

include h

theorem replace (hb : base r' = base r)
    (hs : size r' = size r) : WellFormed (before ++ r' :: after) := by
  have hr : r ∈ before ++ r :: after := mem_append_right _ (.head _)
  have hhi : hi r' = hi r := by rw [hi_def, hi_def, hb, hs]
  refine h.resize hb (hs ▸ h.size_ne_zero hr) (hhi ▸ h.fits hr) fun c hc => ?_
  have ⟨_, htail, _⟩ := pairwise_append.mp h.apart
  exact hhi ▸ rel_of_pairwise_cons htail (mem_of_mem_head? hc)

theorem base_ne :
    ∀ c ∈ before ++ after, base c ≠ base r := by
  have ⟨_, hafter, hbefore⟩ := pairwise_append.mp h.lo_lt
  intro c hc he
  have he : lo c = lo r := congrArg BitVec.toNat he
  cases mem_append.mp hc with
  | inl hc => exact Nat.ne_of_lt (hbefore c hc r (.head _)) he
  | inr hc => exact Nat.ne_of_gt (rel_of_pairwise_cons hafter hc) he

theorem not_covers (hr : Covers r x) :
    ∀ c ∈ before ++ after, ¬Covers c x := by
  intro c hc hcov
  have hm : c ∈ before ++ r :: after := by
    simp only [mem_append, mem_cons] at hc ⊢
    tauto
  have he := h.eq_of_covers hm (mem_append_right _ (.head _)) hcov hr
  exact h.base_ne c hc (congrArg base he)

end WellFormed

section RegionIdx

variable {i : Nat}

theorem regionIdx_of_covers (h : WellFormed regions) (hr : r ∈ regions)
    (hc : Covers r addr.toNat) : ∃ i, regionIdx regions addr = some i ∧ regions[i]? = some r := by
  have hlast := h.getLast?_covers hr hc
  have hp : regions.partitionPoint (base · ≤ addr) ≠ 0 := by
    intro hp
    have : regions.takeWhile (lo · ≤ addr.toNat) = [] := eq_nil_of_length_eq_zero hp
    rw [this] at hlast
    nomatch hlast
  have ⟨i, hi⟩ := Nat.exists_eq_succ_of_ne_zero hp
  have hget : regions[i]? = some r := (List.getElem?_of_partitionPoint hi).trans hlast
  refine ⟨i, ?_, hget⟩
  rw [regionIdx, hi]
  simp only [hget, Option.any_some, (contains_iff (h.fits hr)).mpr hc, if_true]

theorem regionIdx_eq_some (h : WellFormed regions) (hi : regionIdx regions addr = some i) :
    ∃ r, regions[i]? = some r ∧ Covers r addr.toNat := by
  rw [regionIdx] at hi
  split at hi
  · nomatch hi
  · split at hi
    case isTrue hc =>
      cases hi
      have ⟨r, hr, hc⟩ := (Option.any_eq_true ..).mp hc
      exact ⟨r, hr, (contains_iff (h.fits (mem_of_getElem? hr))).mp hc⟩
    case isFalse => nomatch hi

end RegionIdx

section FreeRange

theorem toNat_freeCursor (h : WellFormed regions) :
    (freeCursor len regions cursor).toNat = firstFit len.toNat regions cursor.toNat := by
  induction regions generalizing cursor with
  | nil => rfl
  | cons r regions ih =>
    have he := toNat_endAddr (h.fits (.head _))
    have ht : WellFormed regions := ⟨h.tail, fun hm => h.fits (.tail _ hm)⟩
    rw [freeCursor, firstFit]
    split
    case isTrue hle =>
      rw [le_def, he] at hle
      rw [if_pos hle, ih ht]
    case isFalse hle =>
      rw [le_def, he] at hle
      rw [if_neg hle]
      split
      case isTrue hgap =>
        obtain ⟨hc, hl⟩ := hgap
        rw [le_def] at hc hl
        rw [toNat_sub_of_le (le_def.mpr hc)] at hl
        rw [lo_def, if_pos (by omega)]
      case isFalse hgap =>
        have : ¬cursor.toNat + len.toNat ≤ lo r := by
          intro hg
          rw [lo_def] at hg
          have hc : cursor ≤ base r := le_def.mpr (by omega)
          refine hgap ⟨hc, ?_⟩
          rw [le_def, toNat_sub_of_le hc]
          omega
        rw [if_neg this, ih ht]
        congr 1
        split
        case isTrue hm => rw [le_def, he] at hm; rw [he]; omega
        case isFalse hm => rw [le_def, he] at hm; omega

-- A base from which `len` bytes fit into the address space without meeting a region.
def Free (regions : List α) (len b : U64) : Prop :=
  b.toNat + len.toNat < 2 ^ 64 ∧ ∀ r ∈ regions, ¬Meets r b.toNat (b.toNat + len.toNat)

theorem findFreeRange_eq_some (h : WellFormed regions) (hl : len ≠ 0) :
    findFreeRange regions len minAddr = some b ↔
      (minAddr ≤ b ∧ Free regions len b) ∧ ∀ b', minAddr ≤ b' → Free regions len b' → b ≤ b' := by
  have ⟨⟨hle, hfree⟩, hmin⟩ :=
    @firstFit_isLeast _ _ regions len.toNat minAddr.toNat h.toOrdered
  rw [← toNat_freeCursor h] at hle hfree hmin
  rw [findFreeRange, if_neg hl, Option.map_eq_some_iff]
  constructor
  · rintro ⟨e, hadd, rfl⟩
    rw [checkedAdd_eq_some] at hadd
    have := e.isLt
    refine ⟨⟨hle, by omega, hfree⟩, fun b' hb' hf' => hmin ⟨hb', hf'.right⟩⟩
  · rintro ⟨⟨hb, hf⟩, hleast⟩
    have hc : freeCursor len regions minAddr ≤ b := hmin ⟨hb, hf.right⟩
    have he : b ≤ freeCursor len regions minAddr := by
      refine hleast _ hle ⟨?_, hfree⟩
      have := le_def.mp hc
      have := hf.left
      omega
    have he := BitVec.le_antisymm he hc
    refine ⟨b + len, ?_, he.symm⟩
    rw [checkedAdd_eq_some, ← he, toNat_add, Nat.mod_eq_of_lt hf.left]

theorem findFreeRange_eq_none (h : WellFormed regions) (hl : len ≠ 0) :
    findFreeRange regions len minAddr = none ↔ ¬∃ b, minAddr ≤ b ∧ Free regions len b := by
  have ⟨⟨hle, hfree⟩, hmin⟩ :=
    @firstFit_isLeast _ _ regions len.toNat minAddr.toNat h.toOrdered
  rw [← toNat_freeCursor h] at hle hfree hmin
  rw [findFreeRange, if_neg hl, Option.map_eq_none_iff, checkedAdd_eq_none]
  constructor
  · rintro hover ⟨b, hb, hf⟩
    have : (freeCursor len regions minAddr).toNat ≤ b.toNat := hmin ⟨hb, hf.right⟩
    have := hf.left
    omega
  · intro hno
    by_contra hover
    exact hno ⟨freeCursor len regions minAddr, hle, by omega, hfree⟩

end FreeRange

end Prisma.Placed
