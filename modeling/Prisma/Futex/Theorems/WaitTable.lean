import Prisma.Futex.Theorems.Ledger

namespace Prisma.FutexWaitTable

open List

variable {s s' : State} {call : Call} {c : CallId} {e : EntryId} {act : Action}

-- Without an effect, or with one that the ledger knows.
def MayTouch (l : Ledger) (c : CallId) (e : EntryId) (v : View) (ent : Entry) (v' : View)
    (ent' : Entry) : Prop :=
  (v' = v ∧ ent' = ent) ∨ l.Touch c e v ent v' ent'

-- What the next operation of a call means for its accounts.
def Op.Respects (v : View) : Op → Prop
  | .stop => True
  | .goto call | .notifyOne _ call => call.view = v
  | .load k | .exchange k => ∀ b, (k b).view = v
  | .readWord k => ∀ word, (k word).view = v
  | .collect k | .notifyAll _ k => ∀ entries, (k entries).view = v
  | .acquire addr _ k =>
    v = .begun (some addr) ∧ (k none).view = v ∧ ∀ e, (k (some e)).view = { v with entry := some e }
  | .release addr e call =>
    v.addr = some addr ∧ v.entry = some e ∧ v.holds = false ∧ v.counted = false ∧
      v.settled = none ∧ call.view = { v with entry := none }
  | .lock e call =>
    v.entry = some e ∧ v.settled = none ∧ call.view = { v with holds := true }
  | .block e call =>
    v.entry = some e ∧ v.holds ∧ v.settled = none ∧ call.view = { v with holds := false }
  | .update e k => ∀ l c ent,
    MayTouch l c e v ent (k l.shuttingDown ent).snd.view (k l.shuttingDown ent).fst
  | .leave e k => ∀ l c ent, ∃ v', MayTouch l c e v ent v' (k l.shuttingDown ent).fst ∧
    v'.entry = some e ∧ v'.holds ∧ v'.settled = none ∧
    (k l.shuttingDown ent).snd.view = { v' with holds := false }

theorem Wait.next_respects (w : Wait) (pc : WaitPc) : (w.next pc).Respects (pc.view w.addr) := by
  cases pc with
  | start =>
    show WaitPc.view w.addr _ = _
    split <;> rfl
  | acquire => exact ⟨rfl, rfl, fun _ => rfl⟩
  | lock => exact ⟨rfl, rfl, rfl⟩
  | readWord e =>
    intro word
    match word with
    | none | some none => rfl
    | some (some observed) =>
      show WaitPc.view w.addr _ = _
      split <;> rfl
  | checkFlag e =>
    intro b
    cases b <;> rfl
  | count => exact fun _ _ _ => .inr (.count rfl rfl rfl rfl)
  | ready e expired =>
    intro l c ent
    dsimp only
    split
    case isTrue hready => exact .inr (.settle true rfl rfl rfl (iff_of_true rfl hready))
    case isFalse hready =>
      cases expired with
      | true => exact .inr (.settle false rfl rfl rfl (iff_of_false Bool.false_ne_true hready))
      | false => exact .inl ⟨rfl, rfl⟩
  | block => exact ⟨rfl, rfl, rfl, rfl⟩
  | blocked | done => trivial
  | relock => exact ⟨rfl, rfl, rfl⟩
  | settle e signaled =>
    intro l c ent
    cases signaled with
    | false => exact ⟨_, .inr (.timedOut rfl rfl rfl rfl), rfl, rfl, rfl, rfl⟩
    | true =>
      cases hf : l.shuttingDown with
      | true => exact ⟨_, .inr (.closed rfl rfl rfl rfl hf), rfl, rfl, rfl, rfl⟩
      | false => exact ⟨_, .inr (.woken rfl rfl rfl rfl hf), rfl, rfl, rfl, rfl⟩
  | unlock e result => exact fun _ _ _ => ⟨_, .inl ⟨rfl, rfl⟩, rfl, rfl, rfl, rfl⟩
  | release => exact ⟨rfl, rfl, rfl, rfl, rfl, rfl⟩

theorem wakeNext_respects (addr : U64) (maxCount : Nat) (pc : WakePc) :
    (wakeNext addr maxCount pc).Respects (pc.view addr) := by
  cases pc with
  | start =>
    intro b
    show WakePc.view addr _ = _
    split <;> rfl
  | acquire => exact ⟨rfl, rfl, fun _ => rfl⟩
  | lock => exact ⟨rfl, rfl, rfl⟩
  | checkFlag e =>
    intro b
    cases b <;> rfl
  | grant e =>
    intro l c ent
    refine ⟨_, .inr (.grant (min maxCount (ent.waiters - ent.wakeCredits)) rfl rfl rfl
      (Nat.min_le_right ..)), rfl, rfl, rfl, ?_⟩
    simp [Call.view, WakePc.view, View.begun]
  | unlock => exact fun _ _ _ => ⟨_, .inl ⟨rfl, rfl⟩, rfl, rfl, rfl, rfl⟩
  | notify e n left => cases left <;> rfl
  | release => exact ⟨rfl, rfl, rfl, rfl, rfl, rfl⟩
  | done => trivial

theorem shutdownNext_respects (pc : ShutdownPc) :
    (shutdownNext pc).Respects (.begun none) := by
  cases pc with
  | start => exact fun _ => rfl
  | collect => exact fun _ => rfl
  | notify entries =>
    cases entries with
    | nil => rfl
    | cons => exact fun _ => rfl
  | done => trivial

theorem Call.next_respects (call : Call) : call.next.Respects call.view := by
  cases call with
  | wait w pc => exact w.next_respects pc
  | wake addr maxCount pc => exact wakeNext_respects addr maxCount pc
  | shutdown pc => exact shutdownNext_respects pc

theorem Call.respects_of_next (h : call.next = op) : op.Respects call.view :=
  h ▸ call.next_respects

theorem Call.view_notified : (call.notified e).view = call.view := by
  unfold notified
  split
  case _ w e' =>
    show WaitPc.view w.addr _ = _
    split
    case isTrue h => rw [h]; rfl
    case isFalse => rfl
  case _ => rfl

theorem Call.view_of_isStart (h : call.isStart) : ∃ addr, call.view = .begun addr := by
  cases call with
  | wait w pc => exact ⟨some w.addr, by rw [of_decide_eq_true h]; rfl⟩
  | wake addr _ pc => exact ⟨some addr, by rw [of_decide_eq_true h]; rfl⟩
  | shutdown => exact ⟨none, rfl⟩

namespace State

theorem ledger_setCall (call' : Call) :
    (s.setCall c call').ledger = { s.ledger with views := s.ledger.views.set c call'.view } := by
  simp [ledger, setCall, map_set]

theorem views_of_calls (h : s.calls[c]? = some call) : s.ledger.views[c]? = some call.view := by
  simp [ledger, h]

theorem ledger_setCall_same {call' : Call} (h : s.ledger.views[c]? = some call'.view) :
    (s.setCall c call').ledger = s.ledger := by
  rw [ledger_setCall, set_eq_self h]

end State

open State

theorem leads_same {call' : Call} (h : s.calls[c]? = some call) (hv : call'.view = call.view) :
    s.ledger.Leads (s.setCall c call').ledger := by
  rw [ledger_setCall_same (hv ▸ views_of_calls h)]
  exact .refl

theorem leads_mayTouch {l : Ledger} (hc : l.views[c]? = some v) (he : l.entries[e]? = some ent)
    (h : MayTouch l c e v ent v' ent') :
    l.Leads { l with views := l.views.set c v', entries := l.entries.set e ent' } := by
  rcases h with ⟨rfl, rfl⟩ | ht
  · rw [set_eq_self hc, set_eq_self he]
    exact .refl
  · exact .single (.touch hc he ht)

theorem leads_acquire (h : s.ledger.Addressed) (hc : s.calls[c]? = some call)
    (hop : call.next = .acquire addr create k) :
    s.ledger.Leads
      ((s.acquireEntry addr create).fst.setCall c (k (s.acquireEntry addr create).snd)).ledger := by
  have ⟨hv, hnone, hsome⟩ := Call.respects_of_next hop
  unfold acquireEntry
  split
  case isTrue => exact leads_same hc hnone
  case isFalse hf =>
    have hviews := views_of_calls hc
    split
    case _ e ht =>
      have ⟨ent, he, hea⟩ := h.table addr e ht
      have he : s.entries[e]? = some ent := he
      rw [ledger_setCall, hsome, modify_eq_set_getElem?, he]
      exact .single (.touch hviews he (.enter (Bool.eq_false_iff.mpr hf) (hea ▸ ht) (hea ▸ hv)))
    case _ ht =>
      split
      case isTrue => exact leads_same hc hnone
      case isFalse =>
        rw [ledger_setCall, hsome, hv]
        exact .single (.create (hv ▸ hviews) ht)

theorem leads_giveBack (h : s.ledger.Addressed) (hc : s.calls[c]? = some call)
    (hop : call.next = .release addr e call') (ht : s.table.lookup addr = some e)
    (he : s.entries[e]? = some ent) :
    s.ledger.Leads ((s.setEntry e { ent with users := ent.users - 1 }).setCall c call').ledger := by
  have ⟨ha, hv, hh, hn, hs, hview⟩ := Call.respects_of_next hop
  have ⟨_, he', hea⟩ := h.table addr e ht
  cases he.symm.trans he'
  rw [ledger_setCall, hview]
  exact .single (.touch (views_of_calls hc) he (.giveBack (hea ▸ ht) hv hh hn hs))

theorem leads_release (h : s.ledger.Addressed) (hc : s.calls[c]? = some call)
    (hop : call.next = .release addr e call') :
    s.ledger.Leads ((s.releaseEntry addr e).setCall c call').ledger := by
  have ⟨ha, hv, hh, hn, hs, hview⟩ := Call.respects_of_next hop
  have hviews := views_of_calls hc
  have hforget : s.ledger.table.lookup addr ≠ some e →
      s.ledger.Leads (s.setCall c call').ledger := by
    intro ht
    rw [ledger_setCall, hview]
    exact .single (.forget hviews hv ha hh hn hs ht)
  unfold releaseEntry
  split
  case _ e' ent ht he =>
    split
    case isTrue hne =>
      refine hforget fun hsome => hne ?_
      exact Option.some.inj (ht.symm.trans hsome)
    case isFalse heq =>
      have heq : e' = e := not_not.mp heq
      subst heq
      have hback := leads_giveBack h hc hop ht he
      dsimp only
      split
      case isTrue hzero =>
        have he₁ := @List.getElem?_set_of_eq_some _ _ _ _ { ent with users := ent.users - 1 } he
        refine hback.tail ?_
        rw [ledger_setCall, ledger_setCall]
        exact .erase ht he₁ hzero
      case isFalse => exact hback
  case _ hn =>
    refine hforget fun hsome => ?_
    have ⟨ent, he, _⟩ := h.table addr e hsome
    exact hn e ent hsome he

theorem Call.addr_eq_none_iff : call.view.addr = none ↔ ∃ pc, call = .shutdown pc := by
  cases call with
  | wait w pc => cases pc <;> simp [view, WaitPc.view, View.begun]
  | wake addr n pc => cases pc <;> simp [view, WakePc.view, View.begun]
  | shutdown pc => exact iff_of_true rfl ⟨pc, rfl⟩

theorem Call.addr_of_exchange (h : call.next = .exchange k) : call.view.addr = none := by
  cases call with
  | wait w pc => cases pc <;> nomatch h
  | wake addr n pc =>
    cases pc with
    | notify e n left => cases left <;> nomatch h
    | _ => nomatch h
  | shutdown => rfl

-- Only `shutdown` sets the flag and clears the table.
def Op.Closes : Op → Prop
  | .exchange _ | .collect _ => True
  | _ => False

theorem Call.eq_of_closes (h : call.next.Closes) :
    call = .shutdown .start ∨ call = .shutdown .collect := by
  cases call with
  | wait w pc => cases pc <;> exact h.elim
  | wake addr n pc =>
    cases pc with
    | notify e n left => cases left <;> exact h.elim
    | _ => exact h.elim
  | shutdown pc =>
    cases pc with
    | start => exact .inl rfl
    | collect => exact .inr rfl
    | notify entries => cases entries <;> exact h.elim
    | done => exact h.elim

theorem Call.eq_of_exchange (h : call.next = .exchange k) : call = .shutdown .start := by
  have hcloses : call.next.Closes := by
    rw [h]
    trivial
  rcases Call.eq_of_closes hcloses with rfl | rfl
  · rfl
  · nomatch h

theorem Call.eq_of_collect (h : call.next = .collect k) : call = .shutdown .collect := by
  have hcloses : call.next.Closes := by
    rw [h]
    trivial
  rcases Call.eq_of_closes hcloses with rfl | rfl
  · nomatch h
  · rfl

-- The steps of the calls are sequences of steps of the ledger, but for the one that clears the
-- table.
theorem Step.simulates (h : s.ledger.Addressed) (hs : Step s act s') :
    s.ledger.Leads s'.ledger ∨
      ∃ c, act = .advance c ∧ s.calls[c]? = some (.shutdown .collect) ∧
        s'.ledger = s.ledger.clear := by
  rw [or_iff_not_imp_right]
  intro hclear
  cases hs with
  | @invoke call hstart =>
    have ⟨addr, hview⟩ := call.view_of_isStart hstart
    have hledger : State.ledger { s with calls := s.calls ++ [call] } =
        { s.ledger with views := s.ledger.views ++ [.begun addr] } := by
      simp [State.ledger, hview]
    exact hledger ▸ .single (.invoke addr)
  | goto hc hop => exact leads_same hc (Call.respects_of_next hop)
  | load hc hop => exact leads_same hc (Call.respects_of_next hop _)
  | readWord word hc hop => exact leads_same hc (Call.respects_of_next hop word)
  | acquire hc hop => exact leads_acquire h hc hop
  | release hc hop => exact leads_release h hc hop
  | lock hc hop he hfree =>
    have ⟨hv, hs, hview⟩ := Call.respects_of_next hop
    rw [ledger_setCall, hview]
    exact .single (.touch (views_of_calls hc) he (.lock hv hfree hs))
  | update hc hop he =>
    rw [ledger_setCall]
    exact leads_mayTouch (views_of_calls hc) he (Call.respects_of_next hop s.ledger _ _)
  | @leave c call e ent k hc hop he =>
    have ⟨v', ht, hv, hh, hs, hview⟩ := Call.respects_of_next hop s.ledger c ent
    have hviews := views_of_calls hc
    have hviews₁ := @List.getElem?_set_of_eq_some _ _ _ _ v' hviews
    have he₁ := @List.getElem?_set_of_eq_some _ _ _ _ (k s.shuttingDown ent).fst he
    have hunlock := (leads_mayTouch hviews he ht).tail (.touch hviews₁ he₁ (.unlock hv hh hs))
    rw [set_set, set_set] at hunlock
    rw [ledger_setCall, show (k s.shuttingDown ent).snd.view = _ from hview]
    exact hunlock
  | block hc hop he =>
    have ⟨hv, hh, hs, hview⟩ := Call.respects_of_next hop
    rw [ledger_setCall, hview]
    exact .single (.touch (views_of_calls hc) he (.unlock hv hh hs))
  | @notifyOne c call e call' target blocked hc hop ht hb =>
    have htarget : (s.setCall target (blocked.notified e)).ledger = s.ledger :=
      ledger_setCall_same (by rw [Call.view_notified]; exact views_of_calls ht)
    rw [ledger_setCall_same (htarget ▸ Call.respects_of_next hop ▸ views_of_calls hc), htarget]
    exact .refl
  | notifyNone hc hop hn => exact leads_same hc (Call.respects_of_next hop)
  | exchange hc hop =>
    have hviews := Call.respects_of_next hop s.shuttingDown ▸ views_of_calls hc
    rw [ledger_setCall_same (s := { s with shuttingDown := true }) hviews]
    exact .single (.close (mem_of_getElem? (views_of_calls hc)) (Call.addr_of_exchange hop))
  | collect hc hop =>
    have hviews := Call.respects_of_next hop (s.table.entries.map Sigma.snd) ▸ views_of_calls hc
    refine absurd ⟨_, rfl, Call.eq_of_collect hop ▸ hc, ?_⟩ hclear
    exact ledger_setCall_same (s := { s with table := ∅ }) hviews
  | @notifyAll c call e entries k hc hop he =>
    have hsame : State.ledger { s with calls := s.calls.map (Call.notified e) } = s.ledger := by
      simp [State.ledger, Function.comp_def, Call.view_notified]
    rw [ledger_setCall_same (hsame ▸ Call.respects_of_next hop _ ▸ views_of_calls hc), hsame]
    exact .refl
  | wakeUp expired hc => exact leads_same hc rfl
  | expire hc => exact leads_same hc rfl

theorem sound_new : State.new.ledger.Sound where
  addressed := ⟨nofun, fun _ _ h => nomatch h⟩
  owned _ _ _ h := nomatch h
  tallied := ⟨(fun _ _ _ h => nomatch h), fun _ _ h => nomatch h⟩
  settled _ _ _ h := nomatch h
  bounded _ _ _ h := nomatch h
  balanced _ := rfl
  closed h := nomatch h

theorem Reachable.sound (h : Reachable s) : s.ledger.Sound := by
  induction h with
  | refl => exact sound_new
  | tail _ hs hi =>
    have ⟨_, hstep⟩ := hs
    rcases hstep.simulates hi.addressed with hl | ⟨_, _, _, hclear⟩
    · exact hi.leads hl
    · exact hclear ▸ hi.clear

theorem Reachable.shuttingDown_eq_false (h : Reachable s)
    (hn : ∀ pc, .shutdown pc ∉ s.calls) : s.shuttingDown = false := by
  by_contra hf
  have ⟨v, hv, ha⟩ := h.sound.closed (Bool.not_eq_false _ ▸ hf)
  have ⟨call, hcall, hview⟩ := mem_map.mp hv
  have ⟨pc, hpc⟩ := Call.addr_eq_none_iff.mp (hview ▸ ha)
  exact hn pc (hpc ▸ hcall)

def Call.returnedWoken (a : U64) : Call → Nat
  | .wait w (.done (some .woken)) => if w.addr = a then 1 else 0
  | _ => 0

-- What a call of `wake` returns, from the moment at which it leaves the entry's mutex.
def Call.wakeCount (a : U64) : Call → Nat
  | .wake addr _ (.notify _ n _) | .wake addr _ (.release _ n) | .wake addr _ (.done n) =>
    if addr = a then n else 0
  | _ => 0

theorem Call.returnedWoken_le : call.returnedWoken a ≤ call.view.consumedOf a := by
  unfold returnedWoken
  split
  · simp [view, WaitPc.view, View.consumedOf, View.begun]
  · exact Nat.zero_le _

theorem Call.grantedOf_view : call.view.grantedOf a = call.wakeCount a := by
  cases call with
  | wait w pc => cases pc <;> simp [view, WaitPc.view, View.grantedOf, View.begun, wakeCount]
  | wake addr n pc => cases pc <;> simp [view, WakePc.view, View.grantedOf, View.begun, wakeCount]
  | shutdown => rfl

theorem calls_releaseEntry : (s.releaseEntry addr e).calls = s.calls := by
  unfold releaseEntry
  split
  · split
    · rfl
    · dsimp only
      split <;> rfl
  · rfl

theorem unused_of_erased (h : s.ledger.Sound) (hc : s.calls[c]? = some call)
    (hop : call.next = .release addr e call') (ht : s.table.lookup a = some k)
    (hne : (s.releaseEntry addr e).table.lookup a ≠ some k) :
    ∀ call ∈ ((s.releaseEntry addr e).setCall c call').calls, call.view.entry ≠ some k := by
  show ∀ call ∈ (s.releaseEntry addr e).calls.set c call', call.view.entry ≠ some k
  rw [calls_releaseEntry]
  unfold releaseEntry at hne
  split at hne
  case _ e' ent hlookup he =>
    split at hne
    case isTrue => exact absurd ht hne
    case isFalse heq =>
      have heq : e' = e := not_not.mp heq
      subst heq
      dsimp only at hne
      split at hne
      case isTrue hzero =>
        have ha : a = addr := by
          by_contra ha
          rw [AList.lookup_erase_ne ha] at hne
          exact hne ht
        subst ha
        have hk : e' = k := Option.some.inj (hlookup.symm.trans ht)
        subst hk
        have hback := h.leads (leads_giveBack h.addressed hc hop ht he)
        have he₁ := @List.getElem?_set_of_eq_some _ _ _ _ { ent with users := ent.users - 1 } he
        exact fun call hcall =>
          hback.tallied.unused ht he₁ hzero.left call.view (mem_map_of_mem hcall)
      case isFalse => exact absurd ht hne
  case _ => exact absurd ht hne

theorem Reachable.returnedWoken_le (h : Reachable s) (a : U64) :
    (s.calls.map (Call.returnedWoken a)).sum ≤ (s.calls.map (Call.wakeCount a)).sum := by
  have hbalance := h.sound.balanced a
  simp only [State.ledger, map_map, Function.comp_def, Call.grantedOf_view] at hbalance
  calc (s.calls.map (Call.returnedWoken a)).sum
      ≤ (s.calls.map fun call => call.view.consumedOf a).sum :=
        sum_le_sum fun _ _ => Call.returnedWoken_le
    _ ≤ (s.calls.map (Call.wakeCount a)).sum := hbalance ▸ Nat.le_add_left ..

theorem table_acquireEntry (h : s.table.lookup a = some e) :
    (s.acquireEntry addr create).fst.table.lookup a = some e := by
  unfold acquireEntry
  split
  · exact h
  · split
    · exact h
    case _ ht =>
      split
      · exact h
      · have ha : a ≠ addr := by
          rintro rfl
          nomatch ht.symm.trans h
        exact (AList.lookup_insert_ne ha).trans h

-- Without calls of `shutdown`: there are no more wake-ups than waiting calls, not more calls
-- return as woken than were granted a wake-up, and an entry that is in use stays in the table.
theorem accounts_hold (h : Reachable s) (hn : ∀ pc, .shutdown pc ∉ s.calls) :
    (∀ (e : EntryId) (ent : Entry), s.entries[e]? = some ent → ent.owner = none →
      ent.wakeCredits ≤ ent.waiters) ∧
    (∀ a, (s.calls.map (Call.returnedWoken a)).sum ≤ (s.calls.map (Call.wakeCount a)).sum) ∧
    ∀ act s' a e, Step s act s' → s.table.lookup a = some e → s'.table.lookup a ≠ some e →
      ∀ call ∈ s'.calls, call.view.entry ≠ some e := by
  have hf := h.shuttingDown_eq_false hn
  refine ⟨fun e ent he _ => h.sound.bounded hf e ent he, h.returnedWoken_le, ?_⟩
  intro act s' a e hs ht hne
  cases hs with
  | release hc hop => exact unused_of_erased h.sound hc hop ht hne
  | acquire => exact absurd (table_acquireEntry ht) hne
  | collect hc hop =>
    exact absurd (mem_of_getElem? hc) (Call.eq_of_collect hop ▸ hn .collect)
  | _ => exact absurd ht hne

def word : Wait :=
  ⟨0, 0, true, false⟩

-- A single call of `wait` that is about to be counted.
def firstCounted : State :=
  ⟨false, AList.singleton 0 0, [⟨0, some 0, 1, 0, 0⟩], [.wait word (.count 0)]⟩

theorem reachable_firstCounted : Reachable firstCounted :=
  .head ⟨_, .invoke (show (Call.wait word .start).isStart from rfl)⟩ <|
  .head ⟨_, .goto (c := 0) rfl rfl⟩ <|
  .head ⟨_, .acquire (c := 0) rfl rfl⟩ <|
  .head ⟨_, .lock (c := 0) rfl rfl rfl rfl⟩ <|
  .head ⟨_, .readWord (c := 0) (some (some 0)) rfl rfl⟩ <|
  .head ⟨_, .load (c := 0) rfl rfl⟩ .refl

-- The first call blocks and is woken, but it does not have the mutex yet.
def afterWake : State :=
  ⟨false, AList.singleton 0 0, [⟨0, none, 1, 1, 1⟩],
    [.wait word (.relock 0 false), .wake 0 1 (.done 1)]⟩

theorem reachable_afterWake : Reachable afterWake :=
  reachable_firstCounted.trans <|
  .head ⟨_, .update (c := 0) rfl rfl rfl⟩ <|
  .head ⟨_, .update (c := 0) rfl rfl rfl⟩ <|
  .head ⟨_, .block (c := 0) rfl rfl rfl⟩ <|
  .head ⟨_, .invoke (show (Call.wake 0 1 .start).isStart from rfl)⟩ <|
  .head ⟨_, .load (c := 1) rfl rfl⟩ <|
  .head ⟨_, .acquire (c := 1) rfl rfl⟩ <|
  .head ⟨_, .lock (c := 1) rfl rfl rfl rfl⟩ <|
  .head ⟨_, .load (c := 1) rfl rfl⟩ <|
  .head ⟨_, .leave (c := 1) rfl rfl rfl⟩ <|
  .head ⟨_, @Step.notifyOne _ 1 _ _ _ 0 _ rfl rfl rfl rfl⟩ <|
  .head ⟨_, .goto (c := 1) rfl rfl⟩ <|
  .head ⟨_, .release (c := 1) rfl rfl⟩ .refl

theorem accounts_hold_afterWake :
    Reachable afterWake ∧ (∀ (e : EntryId) (ent : Entry), afterWake.entries[e]? = some ent →
      ent.owner = none → ent.wakeCredits ≤ ent.waiters) ∧
    (afterWake.calls.map (Call.returnedWoken 0)).sum ≤
      (afterWake.calls.map (Call.wakeCount 0)).sum := by
  have ⟨hcredits, hwoken, _⟩ := accounts_hold reachable_afterWake fun pc hpc => by
    simp [afterWake] at hpc
  exact ⟨reachable_afterWake, hcredits, hwoken 0⟩

end Prisma.FutexWaitTable
