import Prisma.Orchestrator.AddressSpace
import Prisma.Orchestrator.Theorems.Regions

namespace Prisma

open Extent Placed List Option BitVec

namespace AddressSpace

variable {space space' : AddressSpace} {base size newSize len minAddr : U64} {prot : Protection}
  {name : String} {r : Region} {old new : Option Region} {before after : List Region}

abbrev WellFormed (space : AddressSpace) : Prop :=
  Placed.WellFormed space.regions

def regionAt (space : AddressSpace) (base : U64) : Option Region :=
  space.regions.find? (·.base = base)

def others (space : AddressSpace) (base : U64) : List Region :=
  space.regions.filter (·.base ≠ base)

section Edit

-- The spaces differ only in the region at one base.
inductive Edit (base : U64) (old new : Option Region) (space space' : AddressSpace) : Prop
  | intro (before after : List Region) (regions : space.regions = before ++ old.toList ++ after)
    (regions' : space'.regions = before ++ new.toList ++ after)
    (base_old : ∀ r ∈ old, r.base = base) (base_new : ∀ r ∈ new, r.base = base)
    (base_ne : ∀ r ∈ before ++ after, r.base ≠ base)

theorem filter_edit (ho : ∀ r ∈ old, r.base = base) :
    (before ++ old.toList ++ after).filter (·.base ≠ base) =
      (before ++ after).filter (·.base ≠ base) := by
  cases old with
  | none => simp
  | some r => simp [ho r rfl]

theorem find?_edit (ho : ∀ r ∈ old, r.base = base) (hn : ∀ r ∈ before ++ after, r.base ≠ base) :
    (before ++ old.toList ++ after).find? (·.base = base) = old := by
  have hbefore : before.find? (·.base = base) = none :=
    List.find?_eq_none.mpr fun r hr => by simpa using hn r (mem_append_left _ hr)
  have hafter : after.find? (·.base = base) = none :=
    List.find?_eq_none.mpr fun r hr => by simpa using hn r (mem_append_right _ hr)
  cases old with
  | none => simp [hbefore, hafter]
  | some r => simp [hbefore, ho r rfl]

namespace Edit

theorem others (h : Edit base old new space space') : space'.others base = space.others base := by
  have ⟨_, _, hr, hr', ho, hn, _⟩ := h
  rw [AddressSpace.others, AddressSpace.others, hr, hr', filter_edit ho, filter_edit hn]

theorem regionAt (h : Edit base old new space space') : space.regionAt base = old := by
  have ⟨_, _, hr, _, ho, _, hne⟩ := h
  rw [AddressSpace.regionAt, hr, find?_edit ho hne]

theorem mem (h : Edit base old new space space') (hr : r ∈ space.regions) (hne : r.base ≠ base) :
    r ∈ space'.regions := by
  have ⟨_, _, hs, hs', ho, _, _⟩ := h
  rw [hs, mem_append, mem_append, mem_toList] at hr
  rw [hs', mem_append, mem_append]
  match hr with
  | .inl (.inl hr) => exact .inl (.inl hr)
  | .inl (.inr hr) => exact absurd (ho r hr) hne
  | .inr hr => exact .inr hr

theorem mem_new (h : Edit base old (some r) space space') : r ∈ space'.regions := by
  have ⟨_, _, _, hs', _, _, _⟩ := h
  rw [hs']
  simp

theorem regionAt' (h : Edit base old new space space') : space'.regionAt base = new := by
  have ⟨_, _, _, hr', _, hn, hne⟩ := h
  rw [AddressSpace.regionAt, hr', find?_edit hn hne]

end Edit

end Edit

section Step

theorem overlaps_iff (hr : hi r < 2 ^ 64) (hf : base.toNat + size.toNat < 2 ^ 64) :
    r.overlaps base size ↔ Meets r base.toNat (base.toNat + size.toNat) := by
  have he : (base.saturatingAdd size).toNat = base.toNat + size.toNat := by
    rw [toNat_saturatingAdd]
    omega
  rw [Region.overlaps, Bool.and_eq_true, decide_eq_true_iff, decide_eq_true_iff, lt_def,
    lt_def, he, Region.endAddr, toNat_endAddr hr]
  rfl

-- A call fails without an effect, or it succeeds with one edit that keeps the space well formed.
inductive Outcome {α : Type} (space : AddressSpace) (named : α → U64)
    (leaves : α → Option Region → Option Region) :
    Except AddressSpaceError α × AddressSpace → Prop
  | fails (e : AddressSpaceError) : Outcome space named leaves (.error e, space)
  | succeeds (a : α) (space' : AddressSpace) (wellFormed : space'.WellFormed)
    (old : Option Region) (edit : Edit (named a) old (leaves a old) space space') :
    Outcome space named leaves (.ok a, space')

theorem map_eq_ok (h : space.WellFormed) (hs : size ≠ 0) (hf : Free space.regions size base)
    (prot : Protection) (name : String) :
    ∃ space', space.map base size prot name = (.ok (), space') ∧ space'.WellFormed ∧
      Edit base none (some ⟨base, size, prot, name⟩) space space' := by
  have hnone : ¬(base.checkedAdd size).isNone := by
    rw [isNone_iff_eq_none, checkedAdd_eq_none]
    have := hf.left
    omega
  have hfree : space.regions.find? (·.overlaps base size) = none := by
    refine List.find?_eq_none.mpr fun r hr => ?_
    rw [overlaps_iff (h.fits hr) hf.left]
    exact hf.right r hr
  have hlt : base.toNat < base.toNat + size.toNat := by
    have : size.toNat ≠ 0 := fun he => hs (eq_of_toNat_eq he)
    omega
  have hwf := h.insert (r := (⟨base, size, prot, name⟩ : Region)) hlt hf.left hf.right
  refine ⟨_, ?_, hwf, ?_⟩
  · rw [map, if_neg hs, if_neg hnone, hfree]
    rfl
  · rw [insertIdx_partitionPoint] at hwf
    refine ⟨_, _, ?_, insertIdx_partitionPoint.trans (append_cons ..), nofun, ?_,
      hwf.base_ne⟩
    · rw [toList_none, append_nil, takeWhile_append_dropWhile]
    · rintro r ⟨⟩
      rfl

theorem map_eq_of_error (h : (space.map base size prot name).fst = .error e) :
    space.map base size prot name = (.error e, space) := by
  unfold map at h ⊢
  split at h
  case isTrue hs => rw [if_pos hs, ← h]
  case isFalse hs =>
    rw [if_neg hs]
    split at h
    case isTrue hn => rw [if_pos hn, ← h]
    case isFalse hn =>
      rw [if_neg hn]
      split at h
      case _ => rw [← h]
      case _ => nomatch h

theorem size_ne_zero_of_map_ok (h : (space.map base size prot name).fst = .ok ()) : size ≠ 0 := by
  intro hs
  rw [map, if_pos hs] at h
  nomatch h

theorem free_of_map_ok (hwf : space.WellFormed) (h : (space.map base size prot name).fst = .ok ()) :
    Free space.regions size base := by
  unfold map at h
  split at h
  · nomatch h
  · split at h
    · nomatch h
    case isFalse hn =>
      rw [isNone_iff_eq_none, checkedAdd_eq_none] at hn
      split at h
      · nomatch h
      case _ hf =>
        refine ⟨by omega, fun r hr => ?_⟩
        rw [← overlaps_iff (hwf.fits hr) (by omega)]
        exact List.find?_eq_none.mp hf r hr

theorem map_outcome (h : space.WellFormed) :
    Outcome space (fun _ => base) (fun _ _ => some ⟨base, size, prot, name⟩)
      (space.map base size prot name) := by
  cases hfst : (space.map base size prot name).fst with
  | ok =>
    have ⟨space', he, hwf, hedit⟩ :=
      map_eq_ok h (size_ne_zero_of_map_ok hfst) (free_of_map_ok h hfst) prot name
    rw [he]
    exact .succeeds () space' hwf none hedit
  | error e =>
    have he : space.map base size prot name = (.error e, space) := map_eq_of_error hfst
    rw [he]
    exact .fails e

theorem map_eq_of_ok (h : (space.map base size prot name).fst = .ok ()) :
    space.map base size prot name = (.ok (), ⟨space.regions.insertIdx
      (space.regions.partitionPoint (·.base < base)) ⟨base, size, prot, name⟩⟩) := by
  unfold map at h ⊢
  split at h
  · nomatch h
  case isFalse hs =>
    rw [if_neg hs]
    split at h
    · nomatch h
    case isFalse hn =>
      rw [if_neg hn]
      split at h
      · nomatch h
      case _ => rfl

theorem split_of_find? (h : space.WellFormed) (hr : space.regions.find? (·.base = base) = some r) :
    ∃ before after, space.regions = before ++ r :: after ∧
      Placed.WellFormed (before ++ r :: after) ∧ r.base = base ∧
      space.regions.findIdx (·.base = base) = before.length := by
  have ⟨before, after, hl, hi, hb⟩ := List.find?_split hr
  exact ⟨before, after, hl, hl.subst (motive := Placed.WellFormed) h, of_decide_eq_true hb, hi⟩

theorem edit_of_split (hl : space.regions = before ++ r :: after)
    (hw : Placed.WellFormed (before ++ r :: after)) (hb : r.base = base)
    (hn : ∀ r ∈ new, r.base = base) :
    Edit base (some r) new space ⟨before ++ new.toList ++ after⟩ := by
  refine ⟨before, after, hl.trans (append_cons ..), rfl, ?_, hn,
    hb ▸ hw.base_ne⟩
  rintro _ ⟨⟩
  exact hb

theorem unmap_outcome (h : space.WellFormed) :
    Outcome space (fun _ => base) (fun _ _ => none) (space.unmap base) := by
  unfold unmap
  split
  · exact .fails _
  case _ r hr =>
    have ⟨before, after, hl, hw, hb, hidx⟩ := split_of_find? h hr
    have hedit : Edit base (some r) none space ⟨before ++ [] ++ after⟩ :=
      edit_of_split hl hw hb nofun
    simp only [hidx]
    rw [hl, eraseIdx_split]
    rw [append_nil] at hedit
    exact .succeeds _ _ hw.erase (some r) hedit

theorem mprotect_outcome (h : space.WellFormed) :
    Outcome space (fun _ => base) (fun _ => Option.map ({ · with prot }))
      (space.mprotect base prot) := by
  unfold mprotect
  split
  · exact .fails _
  case _ r hr =>
    have ⟨before, after, hl, hw, hb, hidx⟩ := split_of_find? h hr
    have hedit : Edit base (some r) (some { r with prot }) space _ :=
      edit_of_split hl hw hb (by rintro _ ⟨⟩; exact hb)
    have hwf : Placed.WellFormed (before ++ { r with prot } :: after) := hw.replace rfl rfl
    simp only [hidx]
    rw [hl, modify_split]
    rw [toList_some, ← append_cons] at hedit
    exact .succeeds _ _ hwf (some r) hedit

theorem resizeRegion_outcome (h : space.WellFormed) :
    Outcome space (fun _ => base) (fun _ => Option.map ({ · with size := newSize }))
      (space.resizeRegion base newSize) := by
  unfold resizeRegion
  split
  · exact .fails _
  case isFalse hs =>
    split
    · exact .fails _
    case _ r hr =>
      have ⟨before, after, hl, hw, hb, hidx⟩ := split_of_find? h hr
      have hedit : Edit base (some r) (some { r with size := newSize }) space _ :=
        edit_of_split hl hw hb (by rintro _ ⟨⟩; exact hb)
      simp only [hidx]
      rw [hl, List.getElem?_split_succ, modify_split]
      rw [toList_some, ← append_cons] at hedit
      split
      · exact .fails _
      case _ newEnd hadd =>
        split
        · exact .fails _
        case _ hnext =>
          rw [checkedAdd_eq_some, ← hb] at hadd
          have hend : hi ({ r with size := newSize } : Region) = newEnd.toNat := hadd
          have hwf : Placed.WellFormed (before ++ { r with size := newSize } :: after) := by
            refine hw.resize rfl hs (hend ▸ newEnd.isLt) fun c hc => ?_
            have := filter_eq_none_iff.mp hnext c hc
            rw [decide_eq_true_iff, gt_iff_lt, lt_def, Nat.not_lt] at this
            exact hend ▸ this
          exact .succeeds _ _ hwf (some r) hedit

theorem regionAt_of_resizeRegion (h : space.resizeRegion base newSize = (.ok (), space')) :
    ∃ r, space.regionAt base = some r := by
  unfold resizeRegion at h
  split at h
  · nomatch h
  · split at h
    · nomatch h
    case _ r hr => exact ⟨r, hr⟩

theorem mmapAnon_outcome (h : space.WellFormed) :
    Outcome space (fun base => base) (fun base _ => some ⟨base, len, prot, "mmap"⟩)
      (space.mmapAnon len minAddr prot) := by
  unfold mmapAnon
  split
  · exact .fails _
  case isFalse =>
    split
    · exact .fails _
    case _ base _ =>
      have hmap : Outcome space (fun _ => base) (fun _ _ => some ⟨base, len, prot, "mmap"⟩)
          (space.map base len prot "mmap") := map_outcome h
      split
      case _ e space' he =>
        rw [he] at hmap
        cases hmap
        exact .fails _
      case _ space' he =>
        rw [he] at hmap
        cases hmap with
        | succeeds _ _ hwf old hedit => exact .succeeds base _ hwf old hedit

theorem Outcome.reply {α β : Type} {named : α → U64} {leaves : α → Option Region → Option Region}
    {named' : β → U64} {leaves' : β → Option Region → Option Region} {f : α → β}
    {result : Except AddressSpaceError α × AddressSpace} (h : Outcome space named leaves result)
    (hn : ∀ a, named' (f a) = named a) (hl : ∀ a, leaves' (f a) = leaves a) :
    Outcome space named' leaves' (result.map (.map f) id) := by
  cases h with
  | fails e => exact .fails e
  | succeeds a space' hwf old hedit =>
    rw [← hn, ← hl] at hedit
    exact .succeeds (f a) space' hwf old hedit

end Step

end AddressSpace

namespace AddressSpaceCall

open AddressSpace

-- The base of the region that a successful call is about.
def named : AddressSpaceCall → AddressSpaceReply → U64
  | mmapAnon .., .placed base => base
  | mmapAnon _ minAddr _, _ => minAddr
  | map base .., _ | unmap base, _ | mprotect base _, _ | resizeRegion base _, _ => base

-- What a successful call makes of this region.
def leaves (call : AddressSpaceCall) (reply : AddressSpaceReply) (old : Option Region) :
    Option Region :=
  match call with
  | map base size prot name => some ⟨base, size, prot, name⟩
  | unmap _ => none
  | mmapAnon len _ prot => some ⟨call.named reply, len, prot, "mmap"⟩
  | mprotect _ prot => old.map ({ · with prot })
  | resizeRegion _ newSize => old.map ({ · with size := newSize })

variable {space : AddressSpace} {call : AddressSpaceCall}

theorem apply_outcome (h : space.WellFormed) :
    Outcome space call.named call.leaves (call.apply space) := by
  cases call with
  | map => exact (map_outcome h).reply (fun _ => rfl) fun _ => rfl
  | unmap => exact (unmap_outcome h).reply (fun _ => rfl) fun _ => rfl
  | mmapAnon => exact (mmapAnon_outcome h).reply (fun _ => rfl) fun _ => rfl
  | mprotect => exact (mprotect_outcome h).reply (fun _ => rfl) fun _ => rfl
  | resizeRegion => exact (resizeRegion_outcome h).reply (fun _ => rfl) fun _ => rfl

end AddressSpaceCall

namespace AddressSpace

variable {space : AddressSpace} {call : AddressSpaceCall}

theorem Reachable.wellFormed (h : space.Reachable) : space.WellFormed := by
  induction h with
  | new => exact .nil
  | clear => exact .nil
  | @call space call _ hi =>
    have houtcome := call.apply_outcome hi
    generalize call.apply space = result at houtcome
    cases houtcome with
    | fails => exact hi
    | succeeds _ _ hwf => exact hwf

theorem not_contains_of_le {a b : Region} (ha : hi a < 2 ^ 64) (hb : hi b < 2 ^ 64)
    (h : hi a ≤ lo b) (addr : U64) : ¬(a.contains addr ∧ b.contains addr) := by
  rw [Region.contains, Region.contains, contains_iff ha, contains_iff hb]
  unfold Covers
  omega

-- The regions of every reachable space are sorted, nonempty, disjoint and do not wrap. A call that
-- fails leaves them as they are, and one that succeeds changes only the region it names.
theorem regions_invariant (h : space.Reachable) :
    (space.regions.Pairwise (·.base < ·.base) ∧ (∀ r ∈ space.regions, r.size ≠ 0) ∧
      space.regions.Pairwise (fun a b => ∀ addr, ¬(a.contains addr ∧ b.contains addr)) ∧
      ∀ r ∈ space.regions, r.base.toNat + r.size.toNat < 2 ^ 64) ∧
    ∀ (call : AddressSpaceCall) (space' : AddressSpace),
      (∀ e, call.apply space = (.error e, space') → space'.regions = space.regions) ∧
      ∀ reply, call.apply space = (.ok reply, space') →
        space'.others (call.named reply) = space.others (call.named reply) ∧
        space'.regionAt (call.named reply) =
          call.leaves reply (space.regionAt (call.named reply)) := by
  have hwf := h.wellFormed
  refine ⟨⟨hwf.lo_lt, fun r hr => hwf.size_ne_zero hr, ?_, fun r hr => hwf.fits hr⟩, ?_⟩
  · exact hwf.apart.imp_of_mem fun ha hb => not_contains_of_le (hwf.fits ha) (hwf.fits hb)
  · intro call space'
    have houtcome := call.apply_outcome hwf
    constructor
    · intro e he
      rw [he] at houtcome
      cases houtcome
      rfl
    · intro reply he
      rw [he] at houtcome
      cases houtcome with
      | succeeds _ _ _ old hedit => exact ⟨hedit.others, hedit.regionAt ▸ hedit.regionAt'⟩

-- A program, its heap and its stack.
def loaded : AddressSpace :=
  ⟨[⟨0x1000, 0x1000, .readExecute, "text"⟩, ⟨0x3000, 0x2000, .readWrite, "heap"⟩,
    ⟨0x9000, 0x1000, .readWrite, "stack"⟩]⟩

theorem reachable_loaded : Reachable loaded :=
  .call (.map 0x3000 0x2000 .readWrite "heap") (.call (.map 0x9000 0x1000 .readWrite "stack")
    (.call (.map 0x1000 0x1000 .readExecute "text") .new))

-- The heap loses its last page, and the program cannot grow into it.
theorem regions_invariant_loaded :
    loaded.regions.Pairwise (·.base < ·.base) ∧
    (∀ space', (AddressSpaceCall.resizeRegion 0x3000 0x1000).apply loaded = (.ok .done, space') →
      space'.others 0x3000 = loaded.others 0x3000 ∧
      space'.regionAt 0x3000 = some ⟨0x3000, 0x1000, .readWrite, "heap"⟩) ∧
    ∀ space', (AddressSpaceCall.resizeRegion 0x1000 0x2001).apply loaded =
      (.error (.overlap 0x1000 0x3000), space') → space'.regions = loaded.regions := by
  have ⟨⟨hsorted, _⟩, hcalls⟩ := regions_invariant reachable_loaded
  exact ⟨hsorted, fun space' => (hcalls (.resizeRegion 0x3000 0x1000) space').right .done,
    fun space' => (hcalls (.resizeRegion 0x1000 0x2001) space').left _⟩

-- Releasing what was just mapped leaves no trace.
theorem unmap_map {base size : U64} (h : space.Reachable)
    (hm : (space.map base size prot name).fst = .ok ()) :
    (space.map base size prot name).snd.unmap base = (.ok ⟨base, size, prot, name⟩, space) := by
  have hw := h.wellFormed
  obtain ⟨space', he, _, before, after, hr, hr', _, hnew, hne⟩ :=
    map_eq_ok hw (size_ne_zero_of_map_ok hm) (free_of_map_ok hw hm) prot name
  have hfind : space'.regions.find? (·.base = base) = some ⟨base, size, prot, name⟩ := by
    rw [hr', find?_edit hnew hne]
  have hidx : space'.regions.findIdx (·.base = base) = before.length := by
    have hbefore : before.findIdx (·.base = base) = before.length :=
      findIdx_eq_length.mpr fun r hr => decide_eq_false (hne r (mem_append_left _ hr))
    rw [hr', List.append_assoc, findIdx_append, hbefore, if_neg (Nat.lt_irrefl _)]
    simp [findIdx_cons]
  rw [toList_none, append_nil] at hr
  rw [toList_some, ← append_cons] at hr'
  rw [he, unmap, hfind]
  simp only [hidx]
  rw [hr', eraseIdx_split, ← hr]

theorem unmap_map_loaded : (loaded.map 0x5000 0x4000 .readOnly "data").snd.unmap 0x5000 =
    (.ok ⟨0x5000, 0x4000, .readOnly, "data"⟩, loaded) :=
  unmap_map reachable_loaded rfl

section Translate

theorem translate_eq :
    space.translate addr = (space.regions.takeWhile (lo · ≤ addr.toNat)).getLast?.bind fun r =>
      if r.contains addr then some (r, addr - r.base) else none := by
  rw [translate]
  split
  case _ hp =>
    have : space.regions.takeWhile (lo · ≤ addr.toNat) = [] := eq_nil_of_length_eq_zero hp
    rw [this]
    rfl
  case _ i hp =>
    rw [List.getElem?_of_partitionPoint hp]
    rfl

theorem translate_of_covers (h : space.WellFormed) {addr : U64} (hr : r ∈ space.regions)
    (hc : Covers r addr.toNat) : space.translate addr = some (r, addr - r.base) := by
  rw [translate_eq, h.getLast?_covers hr hc, bind_some, Region.contains,
    if_pos ((contains_iff (h.fits hr)).mpr hc)]

theorem translate_eq_some (h : space.WellFormed) (ht : space.translate addr = some (r, offset)) :
    r ∈ space.regions ∧ Covers r addr.toNat ∧ offset = addr - r.base := by
  rw [translate_eq, bind_eq_some_iff] at ht
  have ⟨r', hr', ht⟩ := ht
  have hm := takeWhile_subset _ (mem_of_getLast? hr')
  split at ht
  case isTrue hc =>
    cases ht
    exact ⟨hm, (contains_iff (h.fits hm)).mp hc, rfl⟩
  case isFalse => nomatch ht

end Translate

theorem toNat_add_ofNat {addr : U64} {k : Nat} (h : addr.toNat + k < 2 ^ 64) :
    (addr + BitVec.ofNat 64 k).toNat = addr.toNat + k := by
  rw [toNat_add, toNat_ofNat]
  omega

section Validate

variable {endAddr cursor : U64} {needWrite : Bool} {rounds : Nat}
  {result : Except RangeError Unit}

-- Every byte from `x` up to `y` lies in a region, in a writable one if need be.
def Backed (space : AddressSpace) (needWrite : Bool) (x y : Nat) : Prop :=
  ∀ z, x ≤ z → z < y → ∃ r ∈ space.regions, Covers r z ∧ (needWrite → r.prot.isWritable)

theorem walkRange_succ (h : space.walkRange endAddr needWrite rounds cursor = some result) :
    space.walkRange endAddr needWrite (rounds + 1) cursor = some result := by
  induction rounds generalizing cursor with
  | zero =>
    simp only [walkRange] at h ⊢
    split at h
    case isTrue => nomatch h
    case isFalse hc => rw [if_neg hc, h]
  | succ rounds ih =>
    rw [walkRange] at h ⊢
    split at h
    case isFalse hc => rw [if_neg hc, h]
    case isTrue hc =>
      rw [if_pos hc]
      split at h
      case _ => exact h
      case _ =>
        split at h
        case isTrue hw => rw [if_pos hw, h]
        case isFalse hw => rw [if_neg hw, ih h]

theorem walkRange_of_le (hle : rounds ≤ rounds')
    (h : space.walkRange endAddr needWrite rounds cursor = some result) :
    space.walkRange endAddr needWrite rounds' cursor = some result := by
  induction hle with
  | refl => exact h
  | step _ ih => exact walkRange_succ ih

theorem backed_iff_of_covers (h : space.WellFormed) (hr : r ∈ space.regions) (hc : Covers r x)
    (hxy : x < y) :
    space.Backed needWrite x y ↔
      (needWrite → r.prot.isWritable) ∧ space.Backed needWrite (hi r) y := by
  constructor
  · intro hb
    have ⟨r', hr', hc', hw⟩ := hb x (Nat.le_refl _) hxy
    rw [h.eq_of_covers hr hr' hc hc']
    refine ⟨hw, fun z hz => hb z ?_⟩
    have := hc'.right
    omega
  · intro ⟨hw, hb⟩ z hz hzy
    by_cases hlt : z < hi r
    case pos => exact ⟨r, hr, ⟨Nat.le_trans hc.left hz, hlt⟩, hw⟩
    case neg => exact hb z (by omega) hzy

theorem walkRange_spec (h : space.WellFormed) (hr : endAddr.toNat - cursor.toNat ≤ rounds) :
    ∃ result, space.walkRange endAddr needWrite rounds cursor = some result ∧
      (result = .ok () ↔ space.Backed needWrite cursor.toNat endAddr.toNat) := by
  induction rounds generalizing cursor with
  | zero =>
    have hc : ¬cursor < endAddr := by
      rw [lt_def]
      omega
    refine ⟨.ok (), by rw [walkRange, if_neg hc], ?_⟩
    simp only [true_iff]
    intro z _ _
    omega
  | succ rounds ih =>
    rw [walkRange]
    by_cases hc : cursor < endAddr
    case neg =>
      refine ⟨.ok (), if_neg hc, ?_⟩
      rw [lt_def] at hc
      simp only [true_iff]
      intro z _ _
      omega
    case pos =>
      have hlt := lt_def.mp hc
      rw [if_pos hc]
      cases ht : space.translate cursor with
      | none =>
        refine ⟨_, rfl, ?_⟩
        simp only [reduceCtorEq, false_iff]
        intro hb
        have ⟨r, hm, hcov, _⟩ := hb _ (Nat.le_refl _) hlt
        rw [translate_of_covers h hm hcov] at ht
        nomatch ht
      | some p =>
        have ⟨r, offset⟩ := p
        have ⟨hm, hcov, _⟩ := translate_eq_some h ht
        rw [backed_iff_of_covers h hm hcov hlt]
        dsimp only
        split
        case isTrue hw =>
          refine ⟨_, rfl, ?_⟩
          simp only [reduceCtorEq, false_iff]
          simp_all
        case isFalse hw =>
          have he := toNat_endAddr (h.fits hm)
          have ⟨result, hres, hiff⟩ := @ih (Region.endAddr r) (by
            have := hcov.right
            rw [Region.endAddr, he]
            omega)
          refine ⟨result, hres, ?_⟩
          rw [hiff, Region.endAddr, he]
          simp_all

theorem validateRange_spec (hwf : space.WellFormed) (addr len : U64) (needWrite : Bool) :
    ∃ result,
      (∀ rounds ≥ len.toNat, space.validateRange rounds addr len needWrite = some result) ∧
      (result = .ok () ↔ len = 0 ∨ addr.toNat + len.toNat < 2 ^ 64 ∧
        ∀ k < len.toNat, ∃ r ∈ space.regions,
          r.contains (addr + BitVec.ofNat 64 k) ∧ (needWrite → r.prot.isWritable)) := by
  by_cases hl : len = 0
  case pos => exact ⟨.ok (), fun _ _ => if_pos hl, by simp [hl]⟩
  unfold validateRange
  simp only [hl, false_or]
  cases hadd : addr.checkedAdd len with
  | none =>
    rw [checkedAdd_eq_none] at hadd
    exact ⟨_, fun _ _ => rfl, by simp only [reduceCtorEq, false_iff]; omega⟩
  | some endAddr =>
    rw [checkedAdd_eq_some] at hadd
    have := endAddr.isLt
    have ⟨result, hres, hiff⟩ :=
      @walkRange_spec space endAddr addr needWrite len.toNat hwf (by omega)
    refine ⟨result, fun rounds hr => walkRange_of_le hr hres, hiff.trans ?_⟩
    have hoffset : ∀ k < len.toNat, (addr + BitVec.ofNat 64 k).toNat = addr.toNat + k :=
      fun k hk => toNat_add_ofNat (by omega)
    constructor
    · intro hb
      refine ⟨by omega, fun k hk => ?_⟩
      have ⟨r, hr, hc, hw⟩ := hb (addr.toNat + k) (by omega) (by omega)
      refine ⟨r, hr, (contains_iff (hwf.fits hr)).mpr ?_, hw⟩
      rwa [hoffset k hk]
    · intro ⟨_, hb⟩ z hz hlt
      have ⟨r, hr, hc, hw⟩ := hb (z - addr.toNat) (by omega)
      refine ⟨r, hr, ?_, hw⟩
      have := (contains_iff (hwf.fits hr)).mp hc
      rw [hoffset _ (by omega)] at this
      rwa [show z = addr.toNat + (z - addr.toNat) by omega]

-- After at most one round for each byte the walk ends, and it ends well exactly if every byte of
-- the range is in a region as needed.
theorem validateRange_eq_ok_iff (h : space.Reachable) (addr len : U64) (needWrite : Bool) :
    ∃ result,
      (∀ rounds ≥ len.toNat, space.validateRange rounds addr len needWrite = some result) ∧
      (result = .ok () ↔ len = 0 ∨ addr.toNat + len.toNat < 2 ^ 64 ∧
        ∀ k < len.toNat, ∃ r ∈ space.regions,
          r.contains (addr + BitVec.ofNat 64 k) ∧ (needWrite → r.prot.isWritable)) :=
  validateRange_spec h.wellFormed addr len needWrite

theorem validateRange_eq_ok_iff_hole :
    ∃ result,
      (∀ rounds ≥ 0x1001, (⟨[⟨0x1000, 0x1000, .readWrite, "heap"⟩]⟩ : AddressSpace).validateRange
        rounds 0x1000 0x1001 true = some result) ∧
      (result = .ok () ↔ (0x1001 : U64) = 0 ∨
        (0x1000 : U64).toNat + (0x1001 : U64).toNat < 2 ^ 64 ∧
        ∀ k < (0x1001 : U64).toNat,
          ∃ r ∈ [(⟨0x1000, 0x1000, .readWrite, "heap"⟩ : Region)],
          r.contains (0x1000 + BitVec.ofNat 64 k) ∧ (true → r.prot.isWritable)) :=
  validateRange_eq_ok_iff (.call (.map 0x1000 0x1000 .readWrite "heap") .new) 0x1000 0x1001 true

end Validate

section FreeRange

theorem free_iff (h : space.WellFormed) (hl : len ≠ 0) :
    Free space.regions len b ↔ b.toNat + len.toNat < 2 ^ 64 ∧
      ∀ r ∈ space.regions, ∀ k < len.toNat, ¬r.contains (b + BitVec.ofNat 64 k) := by
  refine and_congr_right fun hb => forall₂_congr fun r hr => ?_
  have hcontains : ∀ k < len.toNat,
      (r.contains (b + BitVec.ofNat 64 k) ↔ Covers r (b.toNat + k)) := by
    intro k hk
    rw [Region.contains, contains_iff (h.fits hr), toNat_add_ofNat (by omega)]
  constructor
  · intro hm k hk hc
    have ⟨hlo, hhi⟩ := (hcontains k hk).mp hc
    exact hm ⟨by omega, by omega⟩
  · intro hn ⟨hlo, hhi⟩
    -- The first byte that is in both ranges.
    have hne := h.nonempty hr
    have hk : lo r - b.toNat < len.toNat := by
      have : len.toNat ≠ 0 := fun he => hl (eq_of_toNat_eq he)
      omega
    exact hn _ hk ((hcontains _ hk).mpr ⟨by omega, by omega⟩)

-- First fit finds the least free base, and the anonymous mapping then is there beside the others.
theorem findFreeRange_isLeast (h : space.Reachable) (hl : len ≠ 0) (minAddr : U64) :
    let free (b : U64) := minAddr ≤ b ∧ b.toNat + len.toNat < 2 ^ 64 ∧
      ∀ r ∈ space.regions, ∀ k < len.toNat, ¬r.contains (b + BitVec.ofNat 64 k)
    (∀ b, space.findFreeRange len minAddr = some b ↔ free b ∧ ∀ b', free b' → b ≤ b') ∧
    (space.findFreeRange len minAddr = none ↔ ¬∃ b, free b) ∧
    ∀ b prot, space.findFreeRange len minAddr = some b →
      (space.mmapAnon len minAddr prot).fst = .ok b ∧
      ∃ before after, space.regions = before ++ after ∧
        (space.mmapAnon len minAddr prot).snd.regions =
          before ++ ⟨b, len, prot, "mmap"⟩ :: after := by
  have hwf := h.wellFormed
  simp only [← free_iff hwf hl]
  refine ⟨fun b => ?_, findFreeRange_eq_none hwf hl, fun b prot hb => ?_⟩
  · rw [findFreeRange, findFreeRange_eq_some hwf hl]
    simp only [and_imp]
  · have ⟨⟨_, hfree⟩, _⟩ := (findFreeRange_eq_some hwf hl).mp hb
    have ⟨space', hmap, _, before, after, hr, hr', _, _, _⟩ := map_eq_ok hwf hl hfree prot "mmap"
    rw [mmapAnon, if_neg hl, hb]
    simp only [hmap]
    exact ⟨trivial, before, after, by simpa using hr, by simpa using hr'⟩

-- A page is free between the program and the heap.
theorem findFreeRange_isLeast_gap :
    loaded.findFreeRange 0x1000 0x800 = some 0x2000 ∧
    ∀ prot, (loaded.mmapAnon 0x1000 0x800 prot).fst = .ok 0x2000 ∧
      ∃ before after, loaded.regions = before ++ after ∧
        (loaded.mmapAnon 0x1000 0x800 prot).snd.regions =
          before ++ ⟨0x2000, 0x1000, prot, "mmap"⟩ :: after :=
  ⟨by decide, fun prot =>
    (findFreeRange_isLeast reachable_loaded (by decide) 0x800).right.right 0x2000 prot (by decide)⟩

end FreeRange

end AddressSpace

end Prisma
