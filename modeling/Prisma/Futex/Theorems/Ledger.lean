import Prisma.Futex.Ledger
import Prisma.Lib.Tally

namespace Prisma.FutexWaitTable

open AList List

namespace Ledger

variable {l l' : Ledger} {c c' : CallId} {e e' : EntryId} {v v' : View} {ent ent' : Entry} {a : U64}

theorem lookup_of_lookup_erase {table : AList fun _ : U64 => EntryId} {addr : U64}
    (h : (table.erase addr).lookup a = some e) : a ≠ addr ∧ table.lookup a = some e := by
  by_cases ha : a = addr
  case pos =>
    subst ha
    rw [lookup_erase] at h
    nomatch h
  case neg => exact ⟨ha, by rwa [lookup_erase_ne ha] at h⟩

-- The entry at this place is one of this address.
def AddrAt (entries : List Entry) (e : EntryId) (a : U64) : Prop :=
  ∃ ent, entries[e]? = some ent ∧ ent.addr = a

-- Calls use entries of their own address, and so does the table.
structure Addressed (l : Ledger) : Prop where
  views : ∀ v ∈ l.views, ∀ e, v.entry = some e → ∃ a, v.addr = some a ∧ AddrAt l.entries e a
  table : ∀ a e, l.table.lookup a = some e → AddrAt l.entries e a

namespace Touch

theorem addr_eq (h : l.Touch c e v ent v' ent') : v'.addr = v.addr ∧ ent'.addr = ent.addr := by
  cases h <;> exact ⟨rfl, rfl⟩

theorem entry_eq (h : l.Touch c e v ent v' ent') :
    v'.entry = v.entry ∨ v'.entry = none ∨
      v'.entry = some e ∧ v'.addr = some ent.addr := by
  cases h with
  | enter _ _ hv => exact .inr (.inr ⟨rfl, by rw [hv]; rfl⟩)
  | giveBack => exact .inr (.inl rfl)
  | _ => exact .inl rfl

end Touch

theorem getElem?_set_entry (he : l.entries[e]? = some ent) :
    (l.entries.set e ent')[k]? = if k = e then some ent' else l.entries[k]? := by
  have ⟨hlt, _⟩ := List.getElem?_eq_some_iff.mp he
  rw [List.getElem?_set]
  by_cases hk : e = k
  case pos => rw [if_pos hk, if_pos hlt, if_pos hk.symm]
  case neg => rw [if_neg hk, if_neg (Ne.symm hk)]

theorem AddrAt.set (he : l.entries[e]? = some ent) (ha : ent'.addr = ent.addr)
    (h : AddrAt l.entries k a) : AddrAt (l.entries.set e ent') k a := by
  have ⟨ent₀, he₀, haddr⟩ := h
  by_cases hk : k = e
  case pos =>
    subst hk
    cases he.symm.trans he₀
    exact ⟨ent', List.getElem?_set_of_eq_some he, ha.trans haddr⟩
  case neg => exact ⟨ent₀, by rw [getElem?_set_entry he, if_neg hk, he₀], haddr⟩

theorem AddrAt.concat {entries : List Entry} {k : EntryId} (h : AddrAt entries k a) :
    AddrAt (entries ++ [ent']) k a := by
  have ⟨ent₀, he₀, haddr⟩ := h
  have ⟨hlt, _⟩ := List.getElem?_eq_some_iff.mp he₀
  exact ⟨ent₀, by rw [List.getElem?_append_left hlt, he₀], haddr⟩

theorem AddrAt.step (h : AddrAt l.entries e a) (hs : Step l l') : AddrAt l'.entries e a := by
  cases hs with
  | touch _ he ht => exact h.set he ht.addr_eq.right
  | create => exact h.concat
  | _ => exact h

theorem AddrAt.leads (h : AddrAt l.entries e a) (hl : Leads l l') : AddrAt l'.entries e a := by
  induction hl with
  | refl => exact h
  | tail _ hs hi => exact hi.step hs

theorem Addressed.step (h : l.Addressed) (hs : Step l l') : l'.Addressed := by
  cases hs with
  | @touch c e v ent v' ent' hc he ht =>
    have ⟨hva, hea⟩ := ht.addr_eq
    refine ⟨fun u hu k hk => ?_, fun a k hk => (h.table a k hk).set he hea⟩
    rcases mem_or_eq_of_mem_set hu with hu | rfl
    · have ⟨a, ha, hat⟩ := h.views u hu k hk
      exact ⟨a, ha, hat.set he hea⟩
    · rcases ht.entry_eq with hsame | hnone | ⟨hsome, haddr⟩
      · have ⟨a, ha, hat⟩ := h.views v (mem_of_getElem? hc) k (hsame ▸ hk)
        exact ⟨a, hva.trans ha, hat.set he hea⟩
      · nomatch hnone.symm.trans hk
      · cases hsome.symm.trans hk
        exact ⟨_, haddr, .set he hea ⟨ent, he, rfl⟩⟩
  | forget =>
    refine ⟨fun u hu k hk => ?_, h.table⟩
    rcases mem_or_eq_of_mem_set hu with hu | rfl
    · exact h.views u hu k hk
    · nomatch hk
  | @create c addr hc ht =>
    have hnew : AddrAt (l.entries ++ [⟨addr, none, 1, 0, 0⟩]) l.entries.length addr :=
      ⟨_, List.getElem?_concat_length, rfl⟩
    refine ⟨fun u hu k hk => ?_, fun a k hk => ?_⟩
    · rcases mem_or_eq_of_mem_set hu with hu | rfl
      · have ⟨a, ha, hat⟩ := h.views u hu k hk
        exact ⟨a, ha, hat.concat⟩
      · cases hk
        exact ⟨addr, rfl, hnew⟩
    · dsimp only at hk
      by_cases ha : a = addr
      case pos =>
        subst ha
        rw [lookup_insert] at hk
        cases hk
        exact hnew
      case neg =>
        rw [lookup_insert_ne ha] at hk
        exact (h.table a k hk).concat
  | erase => exact ⟨h.views, fun a k hk => h.table a k (lookup_of_lookup_erase hk).right⟩
  | invoke =>
    refine ⟨fun u hu k hk => ?_, h.table⟩
    rcases mem_append.mp hu with hu | hu
    · exact h.views u hu k hk
    · cases mem_singleton.mp hu
      nomatch hk
  | close => exact ⟨h.views, h.table⟩

theorem Touch.owner_cases (h : l.Touch c e v ent v' ent') :
    (ent'.owner = ent.owner ∧ ((v'.entry = v.entry ∧ v'.holds = v.holds) ∨ v'.holds = false)) ∨
    (ent.owner = none ∧ ent'.owner = some c ∧ v'.entry = some e) ∨
    (v.entry = some e ∧ v.holds ∧ v'.holds = false) := by
  cases h with
  | enter _ _ hv => exact .inl ⟨rfl, .inr (by rw [hv]; rfl)⟩
  | giveBack _ _ hh => exact .inl ⟨rfl, .inr hh⟩
  | lock hv hfree => exact .inr (.inl ⟨hfree, rfl, hv⟩)
  | unlock hv hh => exact .inr (.inr ⟨hv, hh, rfl⟩)
  | _ => exact .inl ⟨rfl, .inl ⟨rfl, rfl⟩⟩

-- A call that has the mutex of its entry is the mutex's owner.
def Owned (l : Ledger) : Prop :=
  ∀ (c : CallId) (v : View) (e : EntryId), l.views[c]? = some v → v.entry = some e → v.holds →
    ∃ ent, l.entries[e]? = some ent ∧ ent.owner = some c

theorem getElem?_concat_view (h : (l.views ++ [v])[c']? = some u) :
    l.views[c']? = some u ∨ u = v := by
  rw [List.getElem?_append] at h
  split at h
  · exact .inl h
  · exact .inr (mem_singleton.mp (mem_of_getElem? h))

theorem Owned.step (h : l.Owned) (hs : Step l l') : l'.Owned := by
  intro c₁ u k hc₁ hk hholds
  cases hs with
  | @touch c e v ent v' ent' hc he ht =>
    dsimp only at hc₁ ⊢
    rw [getElem?_set_entry he]
    rcases getElem?_set_cases hc₁ with ⟨rfl, rfl⟩ | ⟨hne, hc₁⟩
    · rcases ht.owner_cases with ⟨howner, ⟨hentry, hsame⟩ | hfree⟩ | ⟨_, howner, hentry⟩ | ⟨_, _, hfree⟩
      · have ⟨ent₀, he₀, ho₀⟩ := h c₁ v k hc (hentry ▸ hk) (hsame ▸ hholds)
        split
        case isTrue hke =>
          cases (hke ▸ he₀).symm.trans he
          exact ⟨ent', rfl, howner.trans ho₀⟩
        case isFalse => exact ⟨ent₀, he₀, ho₀⟩
      · simp [hfree] at hholds
      · cases hentry.symm.trans hk
        exact ⟨ent', if_pos rfl, howner⟩
      · simp [hfree] at hholds
    · have ⟨ent₀, he₀, ho₀⟩ := h c₁ u k hc₁ hk hholds
      split
      case isTrue hke =>
        cases (hke ▸ he₀).symm.trans he
        rcases ht.owner_cases with ⟨howner, _⟩ | ⟨hfree, _⟩ | ⟨hentry, hheld, _⟩
        · exact ⟨ent', rfl, howner.trans ho₀⟩
        · nomatch hfree.symm.trans ho₀
        · have ⟨_, he', ho'⟩ := h c v e hc hentry hheld
          cases he'.symm.trans he
          exact absurd (Option.some.inj (ho₀.symm.trans ho')) hne
      case isFalse => exact ⟨ent₀, he₀, ho₀⟩
  | forget =>
    rcases getElem?_set_cases hc₁ with ⟨rfl, rfl⟩ | ⟨_, hc₁⟩
    · nomatch hk
    · exact h c₁ u k hc₁ hk hholds
  | create =>
    rcases getElem?_set_cases hc₁ with ⟨rfl, rfl⟩ | ⟨_, hc₁⟩
    · nomatch hholds
    · have ⟨ent₀, he₀, ho₀⟩ := h c₁ u k hc₁ hk hholds
      have ⟨hlt, _⟩ := List.getElem?_eq_some_iff.mp he₀
      exact ⟨ent₀, by rw [List.getElem?_append_left hlt, he₀], ho₀⟩
  | invoke =>
    rcases getElem?_concat_view hc₁ with hc₁ | rfl
    · exact h c₁ u k hc₁ hk hholds
    · nomatch hk
  | erase | close => exact h c₁ u k hc₁ hk hholds

namespace Touch

variable (h : l.Touch c e v ent v' ent')

include h

theorem usesOf_eq {k : EntryId} (hk : k ≠ e) :
    v'.usesOf k = v.usesOf k := by
  cases h with
  | enter _ _ hv => simp [hv, View.usesOf, View.begun, Ne.symm hk]
  | giveBack _ hv => simp [View.usesOf, hv, Ne.symm hk]
  | _ => rfl

theorem users_eq (hu : v.usesOf e ≤ ent.users) :
    ent'.users + v.usesOf e = ent.users + v'.usesOf e := by
  cases h with
  | enter _ _ hv => simp [hv, View.usesOf, View.begun]
  | giveBack _ hv =>
    simp only [View.usesOf, hv, if_true] at hu
    simp only [View.usesOf, hv, if_true, reduceCtorEq, if_false]
    omega
  | _ => rfl

theorem countedOn_eq {k : EntryId} (hk : k ≠ e) :
    v'.countedOn k = v.countedOn k := by
  cases h with
  | enter _ _ hv => simp [hv, View.countedOn, View.begun]
  | giveBack _ _ _ hc => simp [View.countedOn, hc]
  | lock | unlock | settle | grant => rfl
  | count hv | timedOut hv | closed hv | woken hv => simp [View.countedOn, hv, Ne.symm hk]

theorem waiters_eq (hw : v.countedOn e ≤ ent.waiters) :
    ent'.waiters + v.countedOn e = ent.waiters + v'.countedOn e := by
  cases h with
  | enter _ _ hv => simp [hv, View.countedOn, View.begun]
  | giveBack _ _ _ hc => simp [View.countedOn, hc]
  | lock | unlock | settle | grant => rfl
  | count hv _ hc => simp [View.countedOn, hv, hc]
  | timedOut hv _ hc | closed hv _ hc | woken hv _ hc =>
    simp only [View.countedOn, hv, hc, and_self, if_true] at hw
    simp only [View.countedOn, hv, hc, and_self, if_true, Bool.false_eq_true, and_false, if_false]
    omega

end Touch

-- The counters of the entries are the numbers of the calls that they count. An entry that is not
-- in the table any more is no longer given back.
structure Tallied (l : Ledger) : Prop where
  users : ∀ (a : U64) (e : EntryId) (ent : Entry), l.table.lookup a = some e →
    l.entries[e]? = some ent → ent.users = (l.views.map (View.usesOf · e)).sum
  waiters : ∀ (e : EntryId) (ent : Entry), l.entries[e]? = some ent →
    ent.waiters = (l.views.map (View.countedOn · e)).sum

theorem Tallied.unused (h : l.Tallied) (ht : l.table.lookup a = some e)
    (he : l.entries[e]? = some ent) (hu : ent.users = 0) : ∀ v ∈ l.views, v.entry ≠ some e := by
  intro v hv hentry
  have hle := @List.le_sum_map _ _ _ (View.usesOf · e) hv
  rw [← h.users a e ent ht he, hu, View.usesOf, if_pos hentry] at hle
  exact absurd hle (by decide)

theorem sum_of_touch {f : View → EntryId → Nat} {g : Entry → Nat} {k : EntryId} {ent₀ : Entry}
    (hc : l.views[c]? = some v) (he : l.entries[e]? = some ent)
    (hother : k ≠ e → f v' k = f v k) (hown : f v e ≤ g ent → g ent' + f v e = g ent + f v' e)
    (h : ∀ ent, l.entries[k]? = some ent → g ent = (l.views.map (f · k)).sum)
    (he₀ : (l.entries.set e ent')[k]? = some ent₀) :
    g ent₀ = ((l.views.set c v').map (f · k)).sum := by
  have hsum := @List.sum_map_set _ _ _ _ v' (f · k) hc
  have hle : f v k ≤ (l.views.map (f · k)).sum :=
    @List.le_sum_map _ _ _ (f · k) (mem_of_getElem? hc)
  rw [getElem?_set_entry he] at he₀
  split at he₀
  case isTrue hk =>
    subst hk
    cases he₀
    have heq := h ent he
    have := hown (heq ▸ hle)
    omega
  case isFalse hk =>
    have heq := h ent₀ he₀
    have := hother hk
    omega

theorem Addressed.usesOf_eq_zero (h : l.Addressed) (he : l.entries[e]? = none) :
    ∀ v ∈ l.views, v.usesOf e = 0 := by
  intro v hv
  refine if_neg fun hentry => ?_
  have ⟨_, _, _, he', _⟩ := h.views v hv e hentry
  nomatch he.symm.trans he'

theorem countedOn_le_usesOf : v.countedOn e ≤ v.usesOf e := by
  unfold View.countedOn View.usesOf
  split
  case isTrue h => rw [if_pos h.left]
  case isFalse => exact Nat.zero_le _

theorem Tallied.step (h : l.Tallied) (ha : l.Addressed) (hs : Step l l') : l'.Tallied := by
  cases hs with
  | touch hc he ht =>
    exact ⟨fun a k ent₀ hk => sum_of_touch hc he ht.usesOf_eq ht.users_eq fun ent => h.users a k ent hk,
      fun k ent₀ => sum_of_touch hc he ht.countedOn_eq ht.waiters_eq (h.waiters k)⟩
  | @forget c e v addr hc hv haddr hh hn hs ht =>
    constructor
    · intro a k ent hk hek
      -- The entry that is given up is not one of the table.
      have hne : k ≠ e := by
        rintro rfl
        have ⟨_, ha', _, he', hea⟩ := ha.views v (mem_of_getElem? hc) k hv
        have ⟨_, he'', hea'⟩ := ha.table a k hk
        cases he'.symm.trans he''
        cases haddr.symm.trans ha'
        exact ht (hea.symm.trans hea' ▸ hk)
      have hzero : v.usesOf k = 0 := if_neg fun hsome => hne (Option.some.inj (hsome.symm.trans hv))
      have hsame : View.usesOf { v with entry := none } k = v.usesOf k := by
        rw [hzero]
        rfl
      exact (h.users a k ent hk hek).trans (sum_map_set_of_eq hc hsame).symm
    · intro k ent hek
      have hsame : View.countedOn { v with entry := none } k = v.countedOn k := by
        simp [View.countedOn, hn]
      exact (h.waiters k ent hek).trans (sum_map_set_of_eq hc hsame).symm
  | @create c addr hc ht =>
    have hzero := @Addressed.usesOf_eq_zero l l.entries.length ha (List.getElem?_eq_none (le_refl _))
    constructor
    · intro a k ent hk hek
      dsimp only at hk hek ⊢
      by_cases haddr : a = addr
      case pos =>
        subst haddr
        rw [lookup_insert] at hk
        cases hk
        rw [List.getElem?_concat_length] at hek
        cases hek
        have hsum := @List.sum_map_set _ _ _ _
          { View.begun (some a) with entry := some l.entries.length }
          (View.usesOf · l.entries.length) hc
        rw [sum_map_eq_zero hzero] at hsum
        simpa [View.usesOf, View.begun] using hsum.symm
      case neg =>
        rw [lookup_insert_ne haddr] at hk
        have ⟨ent₀, he₀, _⟩ := ha.table a k hk
        have ⟨hlt, _⟩ := List.getElem?_eq_some_iff.mp he₀
        rw [List.getElem?_append_left hlt] at hek
        refine (h.users a k ent hk hek).trans (sum_map_set_of_eq hc ?_).symm
        simp [View.usesOf, View.begun, hlt.ne']
    · intro k ent hek
      dsimp only at hek ⊢
      rw [sum_map_set_of_eq hc (by simp [View.countedOn, View.begun])]
      rw [List.getElem?_append] at hek
      split at hek
      case isTrue => exact h.waiters k ent hek
      case isFalse hlt =>
        cases mem_singleton.mp (mem_of_getElem? hek)
        have hnone : l.entries[k]? = none := List.getElem?_eq_none (Nat.not_lt.mp hlt)
        have hcounted : ∀ v ∈ l.views, v.countedOn k = 0 := fun v hv =>
          Nat.le_zero.mp (ha.usesOf_eq_zero hnone v hv ▸ countedOn_le_usesOf)
        exact (sum_map_eq_zero hcounted).symm
  | erase => exact ⟨fun a k ent hk => h.users a k ent (lookup_of_lookup_erase hk).right, h.waiters⟩
  | invoke addr =>
    refine ⟨fun a k ent hk hek => ?_, fun k ent hek => ?_⟩
    · rw [sum_map_concat]
      exact h.users a k ent hk hek
    · rw [sum_map_concat]
      exact h.waiters k ent hek
  | close => exact ⟨h.users, h.waiters⟩

-- What a call knows about its entry from the moment at which it looks at the wake-ups until it
-- acts on them. It has the mutex all the time.
structure Knows (l : Ledger) (v : View) (signaled : Bool) : Prop where
  holds : v.holds
  credits : ∃ e ent, v.entry = some e ∧ l.entries[e]? = some ent ∧
    (signaled = false → ent.wakeCredits = 0) ∧
    (signaled = true → l.shuttingDown ∨ ent.wakeCredits ≠ 0)

def Settled (l : Ledger) : Prop :=
  ∀ (c : CallId) (v : View) (signaled : Bool), l.views[c]? = some v → v.settled = some signaled →
    Knows l v signaled

theorem Touch.credits_cases (h : l.Touch c e v ent v' ent') :
    ent'.wakeCredits = ent.wakeCredits ∨ (v.entry = some e ∧ v.holds) := by
  cases h with
  | woken hv hh | grant _ hv hh => exact .inr ⟨hv, hh⟩
  | _ => exact .inl rfl

theorem Touch.settled_cases (h : l.Touch c e v ent v' ent') (hs : v'.settled = some signaled) :
    v'.holds ∧ v'.entry = some e ∧ ent' = ent ∧
      (signaled ↔ l.shuttingDown ∨ ent.wakeCredits ≠ 0) := by
  cases h with
  | settle _ hv hh _ hiff =>
    cases hs
    exact ⟨hh, hv, rfl, hiff⟩
  | enter _ _ hv =>
    subst hv
    nomatch hs
  | giveBack _ _ _ _ hnone | lock _ _ hnone | unlock _ _ hnone | count _ _ _ hnone
  | grant _ _ _ hnone => nomatch hnone.symm.trans hs
  | timedOut | closed | woken => nomatch hs

theorem Settled.step (h : l.Settled) (ho : l.Owned) (hs : Step l l') : l'.Settled := by
  intro c₁ u signaled hc₁ hu
  cases hs with
  | @touch c e v ent v' ent' hc he ht =>
    rcases getElem?_set_cases hc₁ with ⟨rfl, rfl⟩ | ⟨hne, hother⟩
    · have ⟨hh, hv, hent, hiff⟩ := ht.settled_cases hu
      subst hent
      refine ⟨hh, e, ent', hv, List.getElem?_set_of_eq_some he, ?_, ?_⟩
      · rintro rfl
        by_contra hcredits
        nomatch hiff.mpr (.inr hcredits)
      · exact hiff.mp
    · have ⟨hh, k, ent₀, hk, he₀, hknows⟩ := h c₁ u signaled hother hu
      by_cases hke : k = e
      case pos =>
        subst hke
        cases he.symm.trans he₀
        rcases ht.credits_cases with hcredits | ⟨hv, hheld⟩
        · refine ⟨hh, k, ent', hk, List.getElem?_set_of_eq_some he, ?_⟩
          rw [hcredits]
          exact hknows
        · have ⟨_, he', ho'⟩ := ho c v k hc hv hheld
          have ⟨_, he'', ho''⟩ := ho c₁ u k hother hk hh
          cases he'.symm.trans he''
          exact absurd (Option.some.inj (ho''.symm.trans ho')) hne
      case neg =>
        exact ⟨hh, k, ent₀, hk, by rw [getElem?_set_entry he, if_neg hke, he₀], hknows⟩
  | forget _ _ _ _ _ hnone =>
    rcases getElem?_set_cases hc₁ with ⟨rfl, rfl⟩ | ⟨_, hc₁⟩
    · nomatch hnone.symm.trans hu
    · have ⟨hh, hknows⟩ := h c₁ u signaled hc₁ hu
      exact ⟨hh, hknows⟩
  | create =>
    rcases getElem?_set_cases hc₁ with ⟨rfl, rfl⟩ | ⟨_, hc₁⟩
    · nomatch hu
    · have ⟨hh, k, ent₀, hk, he₀, hknows⟩ := h c₁ u signaled hc₁ hu
      have ⟨hlt, _⟩ := List.getElem?_eq_some_iff.mp he₀
      exact ⟨hh, k, ent₀, hk, by rw [List.getElem?_append_left hlt, he₀], hknows⟩
  | invoke =>
    rcases getElem?_concat_view hc₁ with hc₁ | rfl
    · have ⟨hh, hknows⟩ := h c₁ u signaled hc₁ hu
      exact ⟨hh, hknows⟩
    · nomatch hu
  | close =>
    have ⟨hh, k, ent₀, hk, he₀, hzero, _⟩ := h c₁ u signaled hc₁ hu
    exact ⟨hh, k, ent₀, hk, he₀, hzero, fun _ => .inl rfl⟩
  | erase =>
    have ⟨hh, hknows⟩ := h c₁ u signaled hc₁ hu
    exact ⟨hh, hknows⟩

-- There are never more wake-ups than calls that wait for one.
def Bounded (l : Ledger) : Prop :=
  l.shuttingDown = false → ∀ (e : EntryId) (ent : Entry), l.entries[e]? = some ent →
    ent.wakeCredits ≤ ent.waiters

theorem Touch.bounded (h : l.Touch c e v ent v' ent') (hf : l.shuttingDown = false)
    (ht : v.entry = some e → v.settled = some false → ent.wakeCredits = 0)
    (hb : ent.wakeCredits ≤ ent.waiters) :
    ent'.wakeCredits ≤ ent'.waiters := by
  cases h with
  | enter | giveBack | lock | unlock | settle => exact hb
  | count => exact Nat.le_succ_of_le hb
  | timedOut hv _ _ hs => exact Nat.le_trans (ht hv hs).le (Nat.zero_le _)
  | closed _ _ _ _ hflag => nomatch hf.symm.trans hflag
  | woken => exact Nat.sub_le_sub_right hb 1
  | grant n _ _ _ hn =>
    dsimp only
    omega

theorem Bounded.step (h : l.Bounded) (hset : l.Settled) (hs : Step l l') : l'.Bounded := by
  intro hf k ent₀ he₀
  cases hs with
  | @touch c e v ent v' ent' hc he ht =>
    dsimp only at he₀
    rw [getElem?_set_entry he] at he₀
    split at he₀
    case isTrue hk =>
      cases he₀
      refine ht.bounded hf (fun hv hs => ?_) (h hf e ent he)
      have ⟨_, _, _, hv', he', hzero, _⟩ := hset c v false hc hs
      cases hv.symm.trans hv'
      cases he.symm.trans he'
      exact hzero rfl
    case isFalse => exact h hf k ent₀ he₀
  | create =>
    dsimp only at he₀
    rw [List.getElem?_append] at he₀
    split at he₀
    case isTrue => exact h hf k ent₀ he₀
    case isFalse =>
      cases mem_singleton.mp (mem_of_getElem? he₀)
      exact le_refl 0
  | close => nomatch hf
  | forget | erase | invoke => exact h hf k ent₀ he₀

-- The wake-ups that were granted on an address are consumed or still there.
def Balanced (l : Ledger) : Prop :=
  ∀ a, (l.entries.map (Entry.creditsOf a)).sum + (l.views.map (View.consumedOf · a)).sum =
    (l.views.map (View.grantedOf · a)).sum

theorem Touch.balanced (h : l.Touch c e v ent v' ent') (ha : v.entry = some e → v.addr = some ent.addr)
    (ht : v.entry = some e → v.settled = some true → l.shuttingDown ∨ ent.wakeCredits ≠ 0) :
    ent'.creditsOf a + v'.consumedOf a + v.grantedOf a =
      ent.creditsOf a + v.consumedOf a + v'.grantedOf a := by
  cases h with
  | woken hv _ _ hs hf =>
    have hpos : ent.wakeCredits ≠ 0 := (ht hv hs).resolve_left (by simp [hf])
    simp only [Entry.creditsOf, View.consumedOf, View.grantedOf, ha hv, Option.some.injEq]
    split <;> omega
  | grant n hv =>
    simp only [Entry.creditsOf, View.consumedOf, View.grantedOf, ha hv, Option.some.injEq]
    split <;> omega
  | _ => rfl

theorem Balanced.step (h : l.Balanced) (haddr : l.Addressed) (hset : l.Settled)
    (hs : Step l l') : l'.Balanced := by
  intro a
  cases hs with
  | @touch c e v ent v' ent' hc he ht =>
    have hbalance : ent'.creditsOf a + v'.consumedOf a + v.grantedOf a =
        ent.creditsOf a + v.consumedOf a + v'.grantedOf a := by
      refine ht.balanced (fun hv => ?_) (fun hv hs => ?_)
      · have ⟨_, hva, _, he', hea⟩ := haddr.views v (mem_of_getElem? hc) e hv
        cases he.symm.trans he'
        rw [hva, hea]
      · have ⟨_, _, _, hv', he', _, hknows⟩ := hset c v true hc hs
        cases hv.symm.trans hv'
        cases he.symm.trans he'
        exact hknows rfl
    have hcredits := @List.sum_map_set _ _ _ _ ent' (Entry.creditsOf a) he
    have hconsumed := @List.sum_map_set _ _ _ _ v' (View.consumedOf · a) hc
    have hgranted := @List.sum_map_set _ _ _ _ v' (View.grantedOf · a) hc
    have hsum := h a
    dsimp only
    omega
  | @forget c e v addr hc =>
    have hconsumed := @List.sum_map_set_of_eq _ _ _ _ { v with entry := none }
      (View.consumedOf · a) hc rfl
    have hgranted := @List.sum_map_set_of_eq _ _ _ _ { v with entry := none }
      (View.grantedOf · a) hc rfl
    exact hconsumed ▸ hgranted ▸ h a
  | @create c addr hc _ =>
    have hconsumed := @List.sum_map_set_of_eq _ _ _ _
      { View.begun (some addr) with entry := some l.entries.length } (View.consumedOf · a) hc rfl
    have hgranted := @List.sum_map_set_of_eq _ _ _ _
      { View.begun (some addr) with entry := some l.entries.length } (View.grantedOf · a) hc rfl
    have hcredits : Entry.creditsOf a ⟨addr, none, 1, 0, 0⟩ = 0 := ite_self 0
    dsimp only
    rw [hconsumed, hgranted, sum_map_concat, hcredits]
    exact h a
  | invoke addr =>
    rw [sum_map_concat, sum_map_concat,
      show View.consumedOf (.begun addr) a = 0 from ite_self 0,
      show View.grantedOf (.begun addr) a = 0 from ite_self 0]
    exact h a
  | erase | close => exact h a

-- Only a call without an address, which is one of `shutdown`, closes the table.
def Closed (l : Ledger) : Prop :=
  l.shuttingDown → ∃ v ∈ l.views, v.addr = none

theorem exists_set_view (hc : l.views[c]? = some v) (hv : v'.addr = v.addr)
    (h : ∃ u ∈ l.views, u.addr = none) : ∃ u ∈ l.views.set c v', u.addr = none := by
  have ⟨u, hu, hnone⟩ := h
  have ⟨i, hi⟩ := mem_iff_getElem?.mp hu
  by_cases hic : i = c
  case pos =>
    subst hic
    cases hc.symm.trans hi
    exact ⟨v', mem_of_getElem? (List.getElem?_set_of_eq_some hc), hv.trans hnone⟩
  case neg =>
    exact ⟨u, mem_of_getElem? ((List.getElem?_set_ne (Ne.symm hic)).trans hi), hnone⟩

theorem Closed.step (h : l.Closed) (hs : Step l l') : l'.Closed := by
  intro hf
  cases hs with
  | touch hc he ht => exact exists_set_view hc ht.addr_eq.left (h hf)
  | forget hc => exact exists_set_view hc rfl (h hf)
  | create hc => exact exists_set_view hc rfl (h hf)
  | invoke =>
    have ⟨v, hv, ha⟩ := h hf
    exact ⟨v, mem_append_left _ hv, ha⟩
  | close hv ha => exact ⟨_, hv, ha⟩
  | erase => exact h hf

-- All that holds of the accounts at any time.
structure Sound (l : Ledger) : Prop where
  addressed : l.Addressed
  owned : l.Owned
  tallied : l.Tallied
  settled : l.Settled
  bounded : l.Bounded
  balanced : l.Balanced
  closed : l.Closed

theorem Sound.step (h : l.Sound) (hs : Step l l') : l'.Sound where
  addressed := h.addressed.step hs
  owned := h.owned.step hs
  tallied := h.tallied.step h.addressed hs
  settled := h.settled.step h.owned hs
  bounded := h.bounded.step h.settled hs
  balanced := h.balanced.step h.addressed h.settled hs
  closed := h.closed.step hs

theorem Sound.leads (h : l.Sound) (hl : Leads l l') : l'.Sound := by
  induction hl with
  | refl => exact h
  | tail _ hs hi => exact hi.step hs

theorem Sound.clear (h : l.Sound) : l.clear.Sound where
  addressed := ⟨h.addressed.views, fun _ _ hk => nomatch hk⟩
  owned := h.owned
  tallied := ⟨(fun _ _ _ hk => nomatch hk), h.tallied.waiters⟩
  settled c v signaled hc hs :=
    have ⟨hh, hknows⟩ := h.settled c v signaled hc hs
    ⟨hh, hknows⟩
  bounded := h.bounded
  balanced := h.balanced
  closed := h.closed

-- Every entry that is in use is in the table.
def InTable (l : Ledger) : Prop :=
  ∀ v ∈ l.views, ∀ e, v.entry = some e → ∃ a, v.addr = some a ∧ l.table.lookup a = some e

theorem InTable.step (h : l.InTable) (hsound : l.Sound) (hs : Step l l') : l'.InTable := by
  intro u hu k hk
  cases hs with
  | @touch c e v ent v' ent' hc he ht =>
    rcases mem_or_eq_of_mem_set hu with hu | rfl
    · exact h u hu k hk
    · have hv := mem_of_getElem? hc
      cases ht with
      | enter _ hlookup hbegun =>
        cases hk
        exact ⟨ent.addr, by rw [hbegun]; rfl, hlookup⟩
      | giveBack => nomatch hk
      | _ => exact h v hv k hk
  | forget =>
    rcases mem_or_eq_of_mem_set hu with hu | rfl
    · exact h u hu k hk
    · nomatch hk
  | @create c addr hc ht =>
    rcases mem_or_eq_of_mem_set hu with hu | rfl
    · have ⟨a, ha, hlookup⟩ := h u hu k hk
      have hne : a ≠ addr := by
        rintro rfl
        nomatch ht.symm.trans hlookup
      exact ⟨a, ha, (lookup_insert_ne hne).trans hlookup⟩
    · cases hk
      exact ⟨addr, rfl, lookup_insert _⟩
  | @erase addr e ent ht he hzero =>
    have ⟨a, ha, hlookup⟩ := h u hu k hk
    have hne : a ≠ addr := by
      rintro rfl
      cases ht.symm.trans hlookup
      exact hsound.tallied.unused ht he hzero.left u hu hk
    exact ⟨a, ha, (lookup_erase_ne hne).trans hlookup⟩
  | invoke =>
    rcases mem_append.mp hu with hu | hu
    · exact h u hu k hk
    · cases mem_singleton.mp hu
      nomatch hk
  | close => exact h u hu k hk

theorem InTable.leads (h : l.InTable) (hsound : l.Sound) (hl : Leads l l') : l'.InTable := by
  induction hl with
  | refl => exact h
  | tail hl hs hi => exact hi.step (hsound.leads hl) hs

end Ledger

end Prisma.FutexWaitTable
