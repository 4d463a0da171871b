import Prisma.Core.SmcGuard

-- What the calls do to the tracked pages, and which keys the next drain reports.

namespace Prisma.Core.SmcGuard

open Option

variable {hostPageSize : U64} {guard guard' : SmcGuard} {page page' cacheKey faultAddr : U64}
  {entry : PageEntry} {writable : Bool}

section Pages

@[simp]
theorem protectPage_protectedPages :
    (guard.protectPage hostPageSize page writable).protectedPages = guard.protectedPages :=
  rfl

@[simp]
theorem pushPending_protectedPages :
    (guard.pushPending page).protectedPages = guard.protectedPages := by
  unfold pushPending
  split <;> rfl

@[simp]
theorem pushPending_writeProtected :
    (guard.pushPending page).writeProtected = guard.writeProtected := by
  unfold pushPending
  split <;> rfl

-- The keys of a page that is tracked and has no tombstone.
def liveKeys : Option PageEntry → List U64
  | some ⟨keys, false⟩ => keys
  | _ => []

def addKey (cacheKey : U64) (keys : List U64) : List U64 :=
  if cacheKey ∈ keys then keys else keys ++ [cacheKey]

theorem addKey_ne_nil : addKey cacheKey keys ≠ [] := by
  unfold addKey
  split
  case isTrue h => exact List.ne_nil_of_mem h
  case isFalse => simp

theorem trackPage_eq :
    guard.trackPage hostPageSize cacheKey page =
      let keys := liveKeys (guard.protectedPages.lookup page)
      let guard' :=
        { guard with
          protectedPages := guard.protectedPages.insert page ⟨addKey cacheKey keys, false⟩ }
      if keys = [] then guard'.protectPage hostPageSize page false else guard' := by
  unfold trackPage
  rcases guard.protectedPages.lookup page with _ | ⟨_ | ⟨key, keys⟩, _ | _⟩
  all_goals simp [liveKeys, addKey]

theorem trackPage_protectedPages :
    (guard.trackPage hostPageSize cacheKey page).protectedPages =
      guard.protectedPages.insert page
        ⟨addKey cacheKey (liveKeys (guard.protectedPages.lookup page)), false⟩ := by
  rw [trackPage_eq]
  dsimp only
  split <;> rfl

theorem trackPage_queue :
    (guard.trackPage hostPageSize cacheKey page).pending = guard.pending ∧
      (guard.trackPage hostPageSize cacheKey page).pendingOverflow = guard.pendingOverflow := by
  rw [trackPage_eq]
  dsimp only
  split <;> exact ⟨rfl, rfl⟩

-- The entry of a page after the loop body of `on_invalidate`, if one is left.
def untracked (cacheKey : U64) : PageEntry → Option PageEntry
  | ⟨keys, true⟩ => some ⟨keys, true⟩
  | ⟨keys, false⟩ =>
    if keys.filter (· ≠ cacheKey) = [] then none else some ⟨keys.filter (· ≠ cacheKey), false⟩

theorem lookup_invalidatePage_self :
    (guard.invalidatePage hostPageSize cacheKey page).protectedPages.lookup page =
      (guard.protectedPages.lookup page).bind (untracked cacheKey) := by
  unfold invalidatePage
  rcases he : guard.protectedPages.lookup page with _ | ⟨keys, _ | _⟩
  · simp [he]
  · by_cases hk : keys.filter (· ≠ cacheKey) = []
    · simp only [hk, untracked, bind_some]
      simp
    · have hk' : (keys.filter (· ≠ cacheKey)).isEmpty = false := by
        simpa using hk
      simp only [hk', untracked, bind_some]
      rw [if_neg hk]
      simp
  · simp [he, untracked]

theorem lookup_invalidatePage_of_ne (h : page' ≠ page) :
    (guard.invalidatePage hostPageSize cacheKey page).protectedPages.lookup page' =
      guard.protectedPages.lookup page' := by
  unfold invalidatePage
  split
  · rfl
  split
  · rfl
  dsimp only
  split
  · exact AList.lookup_erase_ne h
  · exact AList.lookup_insert_ne h

theorem invalidatePage_queue :
    (guard.invalidatePage hostPageSize cacheKey page).pending = guard.pending ∧
      (guard.invalidatePage hostPageSize cacheKey page).pendingOverflow =
        guard.pendingOverflow := by
  unfold invalidatePage
  dsimp only
  repeat' split
  all_goals exact ⟨rfl, rfl⟩

theorem untracked_idem :
    (untracked cacheKey entry).bind (untracked cacheKey) = untracked cacheKey entry := by
  rcases entry with ⟨keys, _ | _⟩
  · unfold untracked
    dsimp only
    split
    case isTrue => rfl
    case isFalse h =>
      simp only [bind_some, List.filter_filter, Bool.and_self]
      rw [if_neg h]
  · rfl

theorem lookup_invalidatePages {pages : List U64} :
    (pages.foldl (invalidatePage hostPageSize cacheKey) guard).protectedPages.lookup page =
      if page ∈ pages then (guard.protectedPages.lookup page).bind (untracked cacheKey)
      else guard.protectedPages.lookup page := by
  induction pages generalizing guard with
  | nil => simp
  | cons page' pages hi =>
    rw [List.foldl_cons, hi]
    by_cases hp : page = page'
    case pos =>
      subst hp
      simp [lookup_invalidatePage_self, bind_assoc, untracked_idem]
    case neg => simp [lookup_invalidatePage_of_ne hp, hp]

theorem lookup_onInvalidate :
    (guard.onInvalidate hostPageSize cacheKey).protectedPages.lookup page =
      (guard.protectedPages.lookup page).bind (untracked cacheKey) := by
  rw [onInvalidate, lookup_invalidatePages]
  split
  case isTrue => rfl
  case isFalse h =>
    rw [AList.lookup_eq_none.mpr h]
    rfl

theorem onInvalidate_queue :
    (guard.onInvalidate hostPageSize cacheKey).pending = guard.pending ∧
      (guard.onInvalidate hostPageSize cacheKey).pendingOverflow = guard.pendingOverflow := by
  unfold onInvalidate
  generalize guard.protectedPages.keys = pages
  induction pages generalizing guard with
  | nil => exact ⟨rfl, rfl⟩
  | cons page pages hi =>
    have ⟨hp, ho⟩ := @invalidatePage_queue hostPageSize guard page cacheKey
    rw [List.foldl_cons, ← hp, ← ho]
    exact hi

end Pages

section Loop

variable {last : U64} {rounds : Nat} {pages : List U64}

theorem toNat_next : (page + guestPageSize).toNat = (page.toNat + 4096) % 2 ^ 64 :=
  BitVec.toNat_add ..

theorem toNat_next_mod : (page + guestPageSize).toNat % 4096 = page.toNat % 4096 := by
  rw [toNat_next]
  omega

theorem pagesUpTo_eq_none (h : ∀ p : U64, p.toNat % 4096 = page.toNat % 4096 → p ≤ last) :
    pagesUpTo last rounds page = none := by
  induction rounds generalizing page with
  | zero => rfl
  | succ rounds hi =>
    rw [pagesUpTo, if_pos (h page rfl), hi fun p hp => h p (hp.trans toNat_next_mod)]
    rfl

theorem mem_pagesUpTo (h : pagesUpTo last rounds page = some pages) (hp : page' ∈ pages) :
    page ≤ page' ∧ page' ≤ last ∧ page'.toNat % 4096 = page.toNat % 4096 := by
  induction rounds generalizing page pages with
  | zero => cases h
  | succ rounds hi =>
    rw [pagesUpTo] at h
    split at h
    case isFalse =>
      cases h
      cases hp
    case isTrue hl =>
      have ⟨rest, hr, he⟩ := map_eq_some_iff.mp h
      subst he
      rcases List.mem_cons.mp hp with rfl | hp
      · exact ⟨BitVec.le_refl _, hl, rfl⟩
      have ⟨hle, hlast, hmod⟩ := hi hr hp
      by_cases hw : page ≤ page + guestPageSize
      case pos =>
        exact ⟨BitVec.le_trans hw hle, hlast, hmod.trans toNat_next_mod⟩
      case neg =>
        -- The page has wrapped to zero.
        rw [pagesUpTo_eq_none fun p hp => ?_] at hr
        · cases hr
        have hmod := hp.trans toNat_next_mod
        rw [BitVec.le_def] at hl hw ⊢
        rw [toNat_next] at hw
        omega

theorem pagesUpTo_isSome (hl : last.toNat + 4096 < 2 ^ 64)
    (hr : last.toNat + 4096 < page.toNat + 4096 * rounds) (hp : page.toNat ≤ last.toNat + 4096) :
    (pagesUpTo last rounds page).isSome := by
  induction rounds generalizing page with
  | zero => omega
  | succ rounds hi =>
    rw [pagesUpTo]
    split
    case isTrue h =>
      have h := BitVec.le_def.mp h
      have hnext : (page + guestPageSize).toNat = page.toNat + 4096 := by
        rw [toNat_next, Nat.mod_eq_of_lt (by omega)]
      rw [isSome_map]
      exact hi (by omega) (by omega)
    case isFalse => rfl

theorem toNat_pageBase (addr : U64) : (pageBase addr).toNat = addr.toNat / 4096 * 4096 :=
  Pages.toNat_base (k := 12) rfl

theorem toNat_lastPage_mod {guestPc guestByteLen : U64} :
    (lastPage guestPc guestByteLen).toNat % 4096 = 0 := by
  unfold lastPage
  split
  all_goals rw [toNat_pageBase, Nat.mul_mod_left]

-- A translation that reaches the last page of the address space hangs the guard, and no other one.
theorem onTranslate_eq_none_iff :
    (guard.onTranslate hostPageSize guestPc guestByteLen cacheKey = none ↔
      lastPage guestPc guestByteLen = 0xFFFFFFFFFFFFF000) ∧
    (lastPage guestPc guestByteLen = 0xFFFFFFFFFFFFF000 → ∀ rounds,
      pagesUpTo (lastPage guestPc guestByteLen) rounds (pageBase guestPc) = none) := by
  have hfirst := toNat_pageBase guestPc
  have hlast := @toNat_lastPage_mod guestPc guestByteLen
  rw [onTranslate, map_eq_none_iff]
  generalize lastPage guestPc guestByteLen = last at hlast
  have hnone : last = 0xFFFFFFFFFFFFF000 → ∀ rounds, pagesUpTo last rounds (pageBase guestPc) = none := by
    rintro rfl rounds
    refine pagesUpTo_eq_none fun p hp => BitVec.le_def.mpr ?_
    rw [hfirst] at hp
    have : (0xFFFFFFFFFFFFF000 : U64).toNat = 0xFFFFFFFFFFFFF000 := rfl
    omega
  refine ⟨⟨fun h => ?_, fun h => hnone h _⟩, hnone⟩
  by_contra hne
  have hne : last.toNat ≠ 0xFFFFFFFFFFFFF000 := fun he => hne (BitVec.eq_of_toNat_eq he)
  by_cases hle : pageBase guestPc ≤ last
  case pos =>
    have hle := BitVec.le_def.mp hle
    have hsome := @pagesUpTo_isSome (pageBase guestPc) last
      ((last.toNat - (pageBase guestPc).toNat) / 4096 + 2) (by omega) (by omega) (by omega)
    rw [h] at hsome
    cases hsome
  case neg =>
    rw [pagesUpTo, if_neg hle] at h
    cases h

end Loop

section Reports

-- The next drain finds every tombstone.
def Queued (guard : SmcGuard) : Prop :=
  ∀ page entry, guard.protectedPages.lookup page = some entry → entry.dead →
    page ∈ guard.pending ∨ guard.pendingOverflow

variable {pages : List U64}

theorem Queued.trackPage (h : guard.Queued) : (guard.trackPage hostPageSize cacheKey page).Queued := by
  intro page' entry he hd
  have ⟨hp, ho⟩ := @trackPage_queue hostPageSize guard page cacheKey
  rw [trackPage_protectedPages, AList.lookup_insert_eq_ite] at he
  rw [hp, ho]
  split at he
  case isTrue =>
    cases he
    cases hd
  case isFalse => exact h page' entry he hd

theorem Queued.trackPages (h : guard.Queued) :
    (pages.foldl (SmcGuard.trackPage hostPageSize cacheKey) guard).Queued := by
  induction pages generalizing guard with
  | nil => exact h
  | cons page pages hi => exact hi h.trackPage

theorem untracked_eq_dead (h : untracked cacheKey entry = some entry') (hd : entry'.dead) :
    entry = entry' := by
  rcases entry with ⟨keys, _ | _⟩
  · unfold untracked at h
    dsimp only at h
    split at h
    · cases h
    · cases h
      cases hd
  · cases h
    rfl

theorem Queued.onInvalidate (h : guard.Queued) : (guard.onInvalidate hostPageSize cacheKey).Queued := by
  intro page entry he hd
  have ⟨hp, ho⟩ := @onInvalidate_queue hostPageSize guard cacheKey
  rw [lookup_onInvalidate] at he
  have ⟨entry', he', hu⟩ := bind_eq_some_iff.mp he
  rw [hp, ho]
  exact h page entry (untracked_eq_dead hu hd ▸ he') hd

theorem Queued.pushPending (h : ∀ page' entry, guard.protectedPages.lookup page' = some entry →
      entry.dead → page' = page ∨ page' ∈ guard.pending ∨ guard.pendingOverflow) :
    (guard.pushPending page).Queued := by
  intro page' entry he hd
  rw [pushPending_protectedPages] at he
  unfold SmcGuard.pushPending
  split
  all_goals rcases h page' entry he hd with hp | hp | ho
  all_goals simp [*]

-- The guard after a fault on a page that is tracked and has no tombstone.
def buried (hostPageSize page : U64) (keys : List U64) (guard : SmcGuard) : SmcGuard :=
  let guard := { guard with protectedPages := guard.protectedPages.insert page ⟨keys, true⟩ }
  (guard.pushPending page).protectPage hostPageSize page true

theorem lookup_buried :
    (guard.buried hostPageSize page keys).protectedPages.lookup page' =
      if page' = page then some ⟨keys, true⟩ else guard.protectedPages.lookup page' := by
  unfold buried
  rw [protectPage_protectedPages, pushPending_protectedPages, AList.lookup_insert_eq_ite]

theorem handleFault_cases (hostPageSize faultAddr : U64) (guard : SmcGuard) :
    guard.handleFault hostPageSize faultAddr = (false, guard) ∧
      (∀ entry, guard.protectedPages.lookup (pageBase faultAddr) = some entry → entry.dead) ∨
    ∃ keys, guard.protectedPages.lookup (pageBase faultAddr) = some ⟨keys, false⟩ ∧
      guard.handleFault hostPageSize faultAddr =
        (true, guard.buried hostPageSize (pageBase faultAddr) keys) := by
  rcases he : guard.protectedPages.lookup (pageBase faultAddr) with _ | ⟨keys, _ | _⟩
  · exact .inl (by simp [handleFault, he])
  · exact .inr ⟨keys, rfl, by simp [handleFault, he, buried]⟩
  · exact .inl (by simp [handleFault, he])

theorem Queued.buried (h : guard.Queued) : (guard.buried hostPageSize page keys).Queued := by
  refine @Queued.pushPending _ page fun page' entry he hd => ?_
  rw [AList.lookup_insert_eq_ite] at he
  split at he
  case isTrue hp => exact .inl hp
  case isFalse => exact .inr (h page' entry he hd)

theorem Queued.handleFault (h : guard.Queued) :
    (guard.handleFault hostPageSize faultAddr).2.Queued := by
  rcases handleFault_cases hostPageSize faultAddr guard with ⟨he, _⟩ | ⟨keys, _, he⟩
  · rwa [he]
  · rw [he]
    exact h.buried

section Drain

variable {drain : Drain} {keys : List U64}

theorem lookup_reap :
    (reap drain page).guard.protectedPages.lookup page' =
      if page' = page then (drain.guard.protectedPages.lookup page).filter (!·.dead)
      else drain.guard.protectedPages.lookup page' := by
  unfold reap
  by_cases hp : page' = page
  case pos =>
    rw [if_pos hp, hp]
    rcases he : drain.guard.protectedPages.lookup page with _ | ⟨keys, _ | _⟩
    all_goals simp [he, Option.filter]
  case neg =>
    rw [if_neg hp]
    rcases he : drain.guard.protectedPages.lookup page with _ | ⟨keys, _ | _⟩
    all_goals simp [AList.lookup_erase_ne hp]

theorem victims_reap :
    (reap drain page).victims =
      drain.victims ++ (match drain.guard.protectedPages.lookup page with
        | some ⟨keys, true⟩ => keys
        | _ => []) := by
  unfold reap
  rcases drain.guard.protectedPages.lookup page with _ | ⟨keys, _ | _⟩
  all_goals simp

theorem victims_subset_reap : drain.victims ⊆ (pages.foldl reap drain).victims := by
  induction pages generalizing drain with
  | nil => exact fun _ h => h
  | cons page pages hi =>
    refine List.Subset.trans ?_ hi
    rw [victims_reap]
    exact List.subset_append_left ..

theorem keys_subset_reap (hp : page ∈ pages)
    (hk : drain.guard.protectedPages.lookup page = some ⟨keys, true⟩) :
    keys ⊆ (pages.foldl reap drain).victims := by
  induction pages generalizing drain with
  | nil => cases hp
  | cons page' pages hi =>
    by_cases he : page = page'
    case pos =>
      subst he
      have hsub := @victims_subset_reap pages (reap drain page)
      rw [victims_reap, hk] at hsub
      exact List.Subset.trans (List.subset_append_right ..) hsub
    case neg =>
      refine hi ((List.mem_cons.mp hp).resolve_left he) ?_
      rw [lookup_reap, if_neg he, hk]

theorem lookup_foldl_reap
    (he : (pages.foldl reap drain).guard.protectedPages.lookup page = some entry) :
    drain.guard.protectedPages.lookup page = some entry := by
  induction pages generalizing drain with
  | nil => exact he
  | cons page' pages hi =>
    have he := hi he
    rw [lookup_reap] at he
    split at he
    case isTrue hp => exact hp ▸ (filter_eq_some_iff.mp he).left
    case isFalse => exact he

theorem writeProtected_foldl_reap :
    (pages.foldl reap drain).guard.writeProtected = drain.guard.writeProtected := by
  induction pages generalizing drain with
  | nil => rfl
  | cons page pages hi =>
    rw [List.foldl_cons, hi, reap]
    repeat' split
    all_goals rfl

theorem lookup_reaped (he : (pages.foldl reap drain).guard.protectedPages.lookup page = some entry)
    (hd : entry.dead) : page ∉ pages ∧ drain.guard.protectedPages.lookup page = some entry := by
  induction pages generalizing drain with
  | nil => exact ⟨List.not_mem_nil, he⟩
  | cons page' pages hi =>
    have ⟨hp, he⟩ := hi he
    rw [lookup_reap] at he
    split at he
    case isTrue =>
      have hf := filter_eq_some_iff.mp he
      rw [hd] at hf
      cases hf.right
    case isFalse hne => exact ⟨List.not_mem_cons_of_ne_of_not_mem hne hp, he⟩

theorem Queued.drainPending (h : guard.Queued) : guard.drainPending.guard.Queued := by
  unfold SmcGuard.drainPending
  split
  case isTrue => exact h
  case isFalse =>
    intro page entry he hd
    have ⟨hp, he⟩ := lookup_reaped he hd
    split at hp
    case isTrue ho => exact absurd (AList.mem_keys.mp (AList.lookup_isSome.mp (by simp [he]))) hp
    case isFalse ho => exact absurd ((h page entry he hd).resolve_right ho) hp

theorem Queued.reports (h : guard.Queued)
    (hk : guard.protectedPages.lookup page = some ⟨keys, true⟩) :
    keys ⊆ guard.drainPending.victims := by
  have hq := h page _ hk rfl
  unfold SmcGuard.drainPending
  rw [if_neg]
  case hnc =>
    rintro ⟨hp, ho⟩
    rcases hq with hq | hq
    · rw [hp] at hq
      cases hq
    · exact ho hq
  refine keys_subset_reap ?_ hk
  split
  case isTrue => exact AList.mem_keys.mp (AList.lookup_isSome.mp (by simp [hk]))
  case isFalse ho => exact hq.resolve_right ho

end Drain

theorem Queued.step (h : guard.Queued) (hs : step hostPageSize call guard = some guard') :
    guard'.Queued := by
  cases call with
  | onTranslate guestPc guestByteLen cacheKey =>
    have ⟨pages, _, hg⟩ := map_eq_some_iff.mp hs
    subst hg
    exact h.trackPages
  | onInvalidate => cases hs; exact h.onInvalidate
  | handleFault => cases hs; exact h.handleFault
  | drainPending => cases hs; exact h.drainPending

theorem queued_new : new.Queued :=
  nofun

-- The call translates code of the page.
def Call.Covers (page : U64) : Call → Prop
  | .onTranslate guestPc guestByteLen _ =>
    pageBase guestPc ≤ page ∧ page ≤ lastPage guestPc guestByteLen
  | _ => False

instance {page : U64} : (call : Call) → Decidable (call.Covers page)
  | .onTranslate .. => inferInstanceAs (Decidable (_ ∧ _))
  | .onInvalidate _ | .handleFault _ | .drainPending => inferInstanceAs (Decidable False)

theorem lookup_trackPages (h : page ∉ pages) :
    (pages.foldl (trackPage hostPageSize cacheKey) guard).protectedPages.lookup page =
      guard.protectedPages.lookup page := by
  induction pages generalizing guard with
  | nil => rfl
  | cons page' pages hi =>
    rw [List.foldl_cons, hi (List.not_mem_of_not_mem_cons h), trackPage_protectedPages,
      AList.lookup_insert_ne (List.ne_of_not_mem_cons h)]

theorem step_tombstone (hc : call ≠ .drainPending) (hp : ¬call.Covers page)
    (hk : guard.protectedPages.lookup page = some ⟨keys, true⟩)
    (hs : step hostPageSize call guard = some guard') :
    guard'.protectedPages.lookup page = some ⟨keys, true⟩ := by
  cases call with
  | onTranslate guestPc guestByteLen cacheKey =>
    have ⟨pages, hpages, hg⟩ := map_eq_some_iff.mp hs
    subst hg
    refine (lookup_trackPages fun hm => hp ?_).trans hk
    have ⟨hfirst, hlast, _⟩ := mem_pagesUpTo hpages hm
    exact ⟨hfirst, hlast⟩
  | onInvalidate cacheKey =>
    cases hs
    rw [lookup_onInvalidate, hk]
    rfl
  | handleFault faultAddr =>
    cases hs
    rcases handleFault_cases hostPageSize faultAddr guard with ⟨he, _⟩ | ⟨keys', hlive, he⟩
    · rwa [he]
    · have hne : page ≠ pageBase faultAddr := by
        rintro rfl
        cases hk.symm.trans hlive
      rw [he, lookup_buried, if_neg hne, hk]
  | drainPending => exact absurd rfl hc

-- After a fault the next drain reports the keys that the page had, unless the page is translated
-- again in between.
theorem drainPending_reports {calls between : List Call} {faulted drained : SmcGuard} {key : U64}
    (hr : Calls.run (step hostPageSize) calls new = some guard)
    (hf : guard.handleFault hostPageSize faultAddr = (true, faulted))
    (hb : Calls.run (step hostPageSize) between faulted = some drained)
    (hd : .drainPending ∉ between)
    (hc : ∀ call ∈ between, ¬call.Covers (pageBase faultAddr))
    (he : guard.protectedPages.lookup (pageBase faultAddr) = some entry) (hk : key ∈ entry.keys) :
    key ∈ drained.drainPending.victims := by
  have hq : guard.Queued := Calls.run_keeps (fun _ _ _ _ h hs => h.step hs) queued_new hr
  rcases handleFault_cases hostPageSize faultAddr guard with ⟨hf', _⟩ | ⟨keys, hlive, hf'⟩
  · rw [hf'] at hf
    cases hf
  cases hf'.symm.trans hf
  cases hlive.symm.trans he
  have ⟨hq', hk'⟩ := Calls.run_keeps (I := fun guard' => guard'.Queued ∧
      guard'.protectedPages.lookup (pageBase faultAddr) = some ⟨keys, true⟩)
    (fun call hm _ _ h hs =>
      ⟨h.left.step hs, step_tombstone (fun he => hd (he ▸ hm)) (hc call hm) h.right hs⟩)
    ⟨hq.buried, by rw [lookup_buried, if_pos rfl]⟩ hb
  exact hq'.reports hk' hk

theorem drainPending_reports_fault :
    ∃ guard faulted drained,
      Calls.run (step 4096) [.onTranslate 0x1000 4 7] new = some guard ∧
      guard.handleFault 4096 0x1004 = (true, faulted) ∧
      Calls.run (step 4096) [.onTranslate 0x2000 4 8] faulted = some drained ∧
      7 ∈ drained.drainPending.victims :=
  ⟨_, _, _, rfl, rfl, rfl,
    drainPending_reports (show Calls.run (step 4096) [.onTranslate 0x1000 4 7] new = some _ from rfl)
      (show handleFault 4096 0x1004 _ = (true, _) from rfl)
      (show Calls.run (step 4096) [.onTranslate 0x2000 4 8] _ = some _ from rfl)
      (by decide) (by decide) rfl (List.mem_singleton_self 7)⟩

-- A translation between the fault and the drain clears the keys of the page.
theorem not_drainPending_reports :
    ¬∀ (hostPageSize faultAddr key : U64) (calls between : List Call)
        (guard faulted drained : SmcGuard) (entry : PageEntry),
      Calls.run (step hostPageSize) calls new = some guard →
      guard.handleFault hostPageSize faultAddr = (true, faulted) →
      Calls.run (step hostPageSize) between faulted = some drained →
      .drainPending ∉ between →
      guard.protectedPages.lookup (pageBase faultAddr) = some entry → key ∈ entry.keys →
      key ∈ drained.drainPending.victims ∨ .onInvalidate key ∈ between := by
  intro h
  have hlost := h 4096 0x1004 7 [.onTranslate 0x1000 4 7] [.onTranslate 0x1000 4 8] _ _ _ _
    rfl rfl rfl (by decide) rfl (List.mem_singleton_self 7)
  revert hlost
  decide

end Reports

end Prisma.Core.SmcGuard
