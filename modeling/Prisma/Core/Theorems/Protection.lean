import Prisma.Core.Theorems.SmcGuard

-- Which guest pages are write-protected on the host. A host page may hold several guest pages, and
-- the host protects all of them or none.

namespace Prisma.Core.SmcGuard

variable {k : Nat} {hostPageSize : U64} {guard guard' : SmcGuard} {page cacheKey : U64}
  {writable : Bool} {pages keys : List U64}

-- Page is tracked and has no tombstone.
def Live (guard : SmcGuard) (page : U64) (keys : List U64) : Prop :=
  guard.protectedPages.lookup page = some ⟨keys, false⟩

-- The pages that are tracked and not tombstoned are write-protected.
def Armed (guard : SmcGuard) : Prop :=
  ∀ page keys, guard.Live page keys → ∀ addr, pageBase addr = page → guard.writeProtected addr

structure Tracked (guard : SmcGuard) : Prop where
  aligned : ∀ page entry, guard.protectedPages.lookup page = some entry → pageBase page = page
  keyed : ∀ page keys, guard.Live page keys → keys ≠ []

section Host

variable (hk : hostPageSize.toNat = 2 ^ k) (hle : 12 ≤ k)

include hk hle

theorem hostPage_pageBase : hostPage hostPageSize (pageBase addr) = hostPage hostPageSize addr :=
  Pages.base_of_base (k := 12) rfl hk hle

theorem writeProtected_protectPage :
    (guard.protectPage hostPageSize page writable).writeProtected addr =
      if hostPage hostPageSize addr = hostPage hostPageSize page then !writable
      else guard.writeProtected addr := by
  have hlen : Pages.base hostPageSize (guestPageSize + (hostPageSize - 1)) = hostPageSize :=
    Pages.round_up (k := 12) rfl hk hle
  unfold protectPage
  dsimp only
  rw [hlen]
  exact if_congr (Pages.sub_base_lt_iff hk) rfl rfl

end Host

section Translate

theorem Tracked.trackPage (h : guard.Tracked) (hp : pageBase page = page) :
    (guard.trackPage hostPageSize cacheKey page).Tracked := by
  constructor
  case aligned =>
    intro page' entry he
    rw [trackPage_protectedPages, AList.lookup_insert_eq_ite] at he
    split at he
    case isTrue hp' => rw [hp', hp]
    case isFalse => exact h.aligned page' entry he
  case keyed =>
    intro page' keys hl
    rw [Live, trackPage_protectedPages, AList.lookup_insert_eq_ite] at hl
    split at hl
    case isTrue =>
      cases hl
      exact addKey_ne_nil
    case isFalse => exact h.keyed page' keys hl

variable (hk : hostPageSize.toNat = 2 ^ k) (hle : 12 ≤ k)

include hk hle

theorem Armed.trackPage (h : guard.Armed) :
    (guard.trackPage hostPageSize cacheKey page).Armed := by
  intro page' keys hl addr ha
  rw [Live, trackPage_protectedPages, AList.lookup_insert_eq_ite] at hl
  rw [trackPage_eq]
  by_cases hempty : liveKeys (guard.protectedPages.lookup page) = []
  case pos =>
    simp only [hempty, if_true, writeProtected_protectPage hk hle, Bool.not_false]
    split
    case isTrue => rfl
    case isFalse hne =>
      split at hl
      case isTrue hp =>
        subst hp ha
        exact absurd (hostPage_pageBase hk hle).symm hne
      case isFalse => exact h page' keys hl addr ha
  case neg =>
    simp only [hempty, if_false]
    split at hl
    case isTrue hp =>
      rcases he : guard.protectedPages.lookup page with _ | ⟨keys', _ | _⟩
      · simp [he, liveKeys] at hempty
      · exact h page keys' he addr (ha.trans hp)
      · simp [he, liveKeys] at hempty
    case isFalse => exact h page' keys hl addr ha

end Translate

theorem pageBase_eq_self (h : page.toNat % 4096 = 0) : pageBase page = page := by
  apply BitVec.eq_of_toNat_eq
  rw [toNat_pageBase]
  omega

theorem trackPages_keeps {I : SmcGuard → Prop}
    (h : ∀ guard page, I guard → pageBase page = page → I (guard.trackPage hostPageSize cacheKey page))
    (hg : I guard) (hs : guard.onTranslate hostPageSize guestPc guestByteLen cacheKey = some guard') :
    I guard' := by
  have ⟨pages, hpages, hg'⟩ := Option.map_eq_some_iff.mp hs
  subst hg'
  have haligned : ∀ page ∈ pages, pageBase page = page := by
    intro page hm
    have ⟨_, _, hmod⟩ := mem_pagesUpTo hpages hm
    refine pageBase_eq_self (hmod.trans ?_)
    rw [toNat_pageBase, Nat.mul_mod_left]
  clear hpages hs
  induction pages generalizing guard with
  | nil => exact hg
  | cons page pages hi =>
    have ⟨hp, hpages⟩ := List.forall_mem_cons.mp haligned
    exact hi (h guard page hg hp) hpages

section Invalidate

-- The page is left without keys.
def Emptied (cacheKey : U64) (guard : SmcGuard) (page : U64) : Prop :=
  ∃ keys, guard.Live page keys ∧ ∀ key ∈ keys, key = cacheKey

theorem live_onInvalidate :
    (guard.onInvalidate hostPageSize cacheKey).Live page keys ↔
      ∃ keys', guard.Live page keys' ∧ keys = keys'.filter (· ≠ cacheKey) ∧ keys ≠ [] := by
  rw [Live, lookup_onInvalidate, Option.bind_eq_some_iff]
  constructor
  case mp =>
    rintro ⟨⟨keys', _ | _⟩, hl, hu⟩
    · unfold untracked at hu
      dsimp only at hu
      split at hu
      case isTrue => cases hu
      case isFalse hne =>
        cases hu
        exact ⟨keys', hl, rfl, hne⟩
    · cases hu
  case mpr =>
    rintro ⟨keys', hl, rfl, hne⟩
    exact ⟨⟨keys', false⟩, hl, if_neg hne⟩

theorem Tracked.onInvalidate (h : guard.Tracked) :
    (guard.onInvalidate hostPageSize cacheKey).Tracked := by
  constructor
  case aligned =>
    intro page entry he
    rw [lookup_onInvalidate] at he
    have ⟨entry', he', _⟩ := Option.bind_eq_some_iff.mp he
    exact h.aligned page entry' he'
  case keyed =>
    intro page keys hl
    have ⟨_, _, _, hne⟩ := live_onInvalidate.mp hl
    exact hne

variable (hk : hostPageSize.toNat = 2 ^ k) (hle : 12 ≤ k)

include hk hle

theorem writeProtected_invalidatePage :
    (guard.invalidatePage hostPageSize cacheKey page).writeProtected addr ↔
      guard.writeProtected addr ∧ (guard.Emptied cacheKey page →
        hostPage hostPageSize addr ≠ hostPage hostPageSize page) := by
  unfold invalidatePage Emptied Live
  rcases he : guard.protectedPages.lookup page with _ | ⟨keys, _ | _⟩
  case none => simp
  case some.true => simp
  case some.false =>
    by_cases hempty : keys.filter (· ≠ cacheKey) = []
    case pos =>
      have hkeys : ∃ keys', some (⟨keys, false⟩ : PageEntry) = some ⟨keys', false⟩ ∧
          ∀ key ∈ keys', key = cacheKey := ⟨keys, rfl, by simpa using hempty⟩
      have hwp : (guard.protectPage hostPageSize page true).writeProtected addr ↔ _ :=
        Iff.of_eq (congrArg (· = true) (writeProtected_protectPage hk hle))
      simp only [hempty, List.isEmpty_nil, if_true, hkeys, true_imp_iff]
      refine hwp.trans ?_
      by_cases hp : hostPage hostPageSize addr = hostPage hostPageSize page
      all_goals simp [hp]
    case neg =>
      have hkeys : ¬∀ key ∈ keys, key = cacheKey := by simpa using hempty
      have hempty' : (keys.filter (· ≠ cacheKey)).isEmpty = false := by simpa using hempty
      simp only [hempty']
      simp [hkeys]

theorem writeProtected_invalidatePages (hn : pages.Nodup) :
    (pages.foldl (invalidatePage hostPageSize cacheKey) guard).writeProtected addr ↔
      guard.writeProtected addr ∧ ∀ page ∈ pages, guard.Emptied cacheKey page →
        hostPage hostPageSize addr ≠ hostPage hostPageSize page := by
  induction pages generalizing guard with
  | nil => simp
  | cons page pages hi =>
    have ⟨hnot, hn⟩ := List.nodup_cons.mp hn
    have hsame : ∀ page' ∈ pages, (guard.invalidatePage hostPageSize cacheKey page).Emptied cacheKey
        page' ↔ guard.Emptied cacheKey page' := by
      intro page' hm
      unfold Emptied Live
      rw [lookup_invalidatePage_of_ne (ne_of_mem_of_not_mem hm hnot)]
    rw [List.foldl_cons, hi hn, writeProtected_invalidatePage hk hle, List.forall_mem_cons, and_assoc]
    refine and_congr_right fun _ => and_congr_right fun _ => forall₂_congr fun page' hm => ?_
    rw [hsame page' hm]

theorem writeProtected_onInvalidate :
    (guard.onInvalidate hostPageSize cacheKey).writeProtected addr ↔
      guard.writeProtected addr ∧ ∀ page, guard.Emptied cacheKey page →
        hostPage hostPageSize addr ≠ hostPage hostPageSize page := by
  rw [onInvalidate, writeProtected_invalidatePages hk hle guard.protectedPages.keys_nodup]
  refine and_congr_right fun _ => forall_congr' fun page => ⟨fun h he => h ?_ he, fun h _ => h⟩
  obtain ⟨keys, hl, _⟩ := he
  exact AList.mem_keys.mp (AList.lookup_isSome.mp (by rw [hl]; rfl))

end Invalidate

-- The pages that the call makes writable share their host pages with no page that stays live.
def Call.Isolated (hostPageSize : U64) (call : Call) (guard : SmcGuard) : Prop :=
  match call with
  | .onInvalidate cacheKey => ∀ page, guard.Emptied cacheKey page →
    ∀ other keys, guard.Live other keys → (∃ key ∈ keys, key ≠ cacheKey) →
      hostPage hostPageSize other ≠ hostPage hostPageSize page
  | .handleFault faultAddr => ∀ keys, guard.Live (pageBase faultAddr) keys →
    ∀ other keys, guard.Live other keys → other ≠ pageBase faultAddr →
      hostPage hostPageSize other ≠ hostPage hostPageSize (pageBase faultAddr)
  | .onTranslate .. | .drainPending => True

section Steps

theorem Tracked.buried (h : guard.Tracked) (hp : pageBase page = page) :
    (guard.buried hostPageSize page keys).Tracked := by
  constructor
  case aligned =>
    intro page' entry he
    rw [lookup_buried] at he
    split at he
    case isTrue hp' => rw [hp', hp]
    case isFalse => exact h.aligned page' entry he
  case keyed =>
    intro page' keys hl
    rw [Live, lookup_buried] at hl
    split at hl
    case isTrue => cases hl
    case isFalse => exact h.keyed page' keys hl

theorem pageBase_pageBase (addr : U64) : pageBase (pageBase addr) = pageBase addr :=
  Pages.base_base (k := 12) rfl

theorem lookup_drainPending (he : guard.drainPending.guard.protectedPages.lookup page = some entry) :
    guard.protectedPages.lookup page = some entry := by
  unfold SmcGuard.drainPending at he
  split at he
  case isTrue => exact he
  case isFalse => exact lookup_foldl_reap he

theorem writeProtected_drainPending :
    guard.drainPending.guard.writeProtected = guard.writeProtected := by
  unfold SmcGuard.drainPending
  split
  case isTrue => rfl
  case isFalse => exact writeProtected_foldl_reap

theorem Tracked.step (h : guard.Tracked) (hs : step hostPageSize call guard = some guard') :
    guard'.Tracked := by
  cases call with
  | onTranslate => exact trackPages_keeps (fun _ _ h hp => h.trackPage hp) h hs
  | onInvalidate => cases hs; exact h.onInvalidate
  | handleFault faultAddr =>
    cases hs
    rcases handleFault_cases hostPageSize faultAddr guard with ⟨he, _⟩ | ⟨keys, _, he⟩
    · rwa [he]
    · rw [he]
      exact h.buried (pageBase_pageBase faultAddr)
  | drainPending =>
    cases hs
    exact ⟨fun page entry he => h.aligned page entry (lookup_drainPending he),
      fun page keys hl => h.keyed page keys (lookup_drainPending hl)⟩

variable (hk : hostPageSize.toNat = 2 ^ k) (hle : 12 ≤ k)

include hk hle

theorem armed_onInvalidate_iff (ht : guard.Tracked) (h : guard.Armed) :
    (guard.onInvalidate hostPageSize cacheKey).Armed ↔
      (Call.onInvalidate cacheKey).Isolated hostPageSize guard := by
  constructor
  case mp =>
    intro ha page he other keys hl ⟨key, hm, hne⟩
    have hl' : (guard.onInvalidate hostPageSize cacheKey).Live other (keys.filter (· ≠ cacheKey)) :=
      live_onInvalidate.mpr ⟨keys, hl, rfl, List.ne_nil_of_mem (by simpa using ⟨hm, hne⟩)⟩
    have hwp := ha other _ hl' other (ht.aligned other _ hl)
    exact ((writeProtected_onInvalidate hk hle).mp hwp).right page he
  case mpr =>
    intro hi other keys hl addr haddr
    have ⟨keys', hl', hkeys, hne⟩ := live_onInvalidate.mp hl
    subst hkeys
    have ⟨key, hm⟩ := List.exists_mem_of_ne_nil _ hne
    have ⟨hm, hne⟩ := List.mem_filter.mp hm
    refine (writeProtected_onInvalidate hk hle).mpr ⟨h other keys' hl' addr haddr, fun page he => ?_⟩
    rw [← hostPage_pageBase hk hle, haddr]
    exact hi page he other keys' hl' ⟨key, hm, by simpa using hne⟩

theorem armed_handleFault_iff (ht : guard.Tracked) (h : guard.Armed) :
    (guard.handleFault hostPageSize faultAddr).2.Armed ↔
      (Call.handleFault faultAddr).Isolated hostPageSize guard := by
  rcases handleFault_cases hostPageSize faultAddr guard with ⟨he, hd⟩ | ⟨keys, hl, he⟩
  · rw [he]
    exact iff_of_true h fun keys hl => absurd (hd _ hl) Bool.false_ne_true
  rw [he]
  have hwp : ∀ addr, (guard.buried hostPageSize (pageBase faultAddr) keys).writeProtected addr ↔
      hostPage hostPageSize addr ≠ hostPage hostPageSize (pageBase faultAddr) ∧
        guard.writeProtected addr := by
    intro addr
    rw [buried, writeProtected_protectPage hk hle, pushPending_writeProtected]
    by_cases hp : hostPage hostPageSize addr = hostPage hostPageSize (pageBase faultAddr)
    all_goals simp [hp]
  constructor
  case mp =>
    intro ha _ _ other keys' hother hne
    have hl' : (guard.buried hostPageSize (pageBase faultAddr) keys).Live other keys' := by
      rw [Live, lookup_buried, if_neg hne]
      exact hother
    exact ((hwp other).mp (ha other keys' hl' other (ht.aligned other _ hother))).left
  case mpr =>
    intro hi other keys' hother addr haddr
    rw [Live, lookup_buried] at hother
    split at hother
    case isTrue => cases hother
    case isFalse hne =>
      refine (hwp addr).mpr ⟨?_, h other keys' hother addr haddr⟩
      rw [← hostPage_pageBase hk hle, haddr]
      exact hi keys hl other keys' hother hne

theorem armed_step_iff (ht : guard.Tracked) (h : guard.Armed)
    (hs : step hostPageSize call guard = some guard') :
    guard'.Armed ↔ call.Isolated hostPageSize guard := by
  cases call with
  | onTranslate => exact iff_of_true (trackPages_keeps (fun _ _ h _ => h.trackPage hk hle) h hs) trivial
  | onInvalidate => cases hs; exact armed_onInvalidate_iff hk hle ht h
  | handleFault => cases hs; exact armed_handleFault_iff hk hle ht h
  | drainPending =>
    cases hs
    refine iff_of_true (fun page keys hl addr haddr => ?_) trivial
    rw [writeProtected_drainPending]
    exact h page keys (lookup_drainPending hl) addr haddr

-- The tracked pages are write-protected all the time if and only if no call makes a page writable
-- whose host page holds another tracked page.
theorem armed_always_iff {calls : List Call} :
    Calls.Always (step hostPageSize) Armed calls new ↔
      Calls.Meets (step hostPageSize) (Call.Isolated hostPageSize) calls new := by
  refine Calls.always_iff_meets (I := Tracked) (fun _ _ _ h hs => h.step hs)
    (fun _ _ _ ht h hs => armed_step_iff hk hle ht h hs) (fun call guard hs => ?_)
    ⟨nofun, nofun⟩ nofun
  cases call with
  | onTranslate | drainPending => trivial
  | onInvalidate | handleFault => cases hs

end Steps

theorem armed_always_iff_largePage :
    (0x4000 : U64).toNat = 2 ^ 14 ∧
      (Calls.Always (step 0x4000) Armed [.onTranslate 0x1000 4 7, .handleFault 0x1000] new ↔
        Calls.Meets (step 0x4000) (Call.Isolated 0x4000)
          [.onTranslate 0x1000 4 7, .handleFault 0x1000] new) :=
  ⟨rfl, armed_always_iff (k := 14) rfl (by decide)⟩

-- A fault on one guest page makes its neighbour in the same host page writable.
theorem not_armed :
    ¬∀ (k : Nat) (hostPageSize : U64) (calls : List Call) (guard : SmcGuard),
      hostPageSize.toNat = 2 ^ k → 12 ≤ k →
      Calls.run (step hostPageSize) calls new = some guard → guard.Armed := by
  intro h
  have harmed := h 14 0x4000
    [.onTranslate 0x1000 4 7, .onTranslate 0x2000 4 8, .handleFault 0x1000] _ rfl (by decide) rfl
  have hwp := harmed 0x2000 [8] rfl 0x2000 rfl
  revert hwp
  decide

theorem isolated_guestPageSize {call : Call} (ht : guard.Tracked) :
    call.Isolated guestPageSize guard := by
  have hself : ∀ page keys, guard.Live page keys → hostPage guestPageSize page = page :=
    fun page keys hl => ht.aligned page _ hl
  cases call with
  | onTranslate | drainPending => trivial
  | onInvalidate cacheKey =>
    intro page ⟨keys, hl, hkeys⟩ other keys' hl' ⟨key, hm, hne⟩ he
    rw [hself page keys hl, hself other keys' hl'] at he
    subst he
    cases hl.symm.trans hl'
    exact hne (hkeys key hm)
  | handleFault faultAddr =>
    intro keys hl other keys' hl' hne he
    rw [hself _ keys hl, hself other keys' hl'] at he
    exact hne he

theorem meets_isolated_guestPageSize :
    Calls.Meets (step guestPageSize) (Call.Isolated guestPageSize) calls new :=
  Calls.meets_of_keeps (I := Tracked) (fun _ _ _ h hs => h.step hs)
    (fun _ _ h => isolated_guestPageSize h) ⟨nofun, nofun⟩

end Prisma.Core.SmcGuard
