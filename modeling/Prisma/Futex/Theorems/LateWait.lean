import Prisma.Futex.Theorems.Calls

-- Calls of `wait` that come to an address after its last wake-up.

namespace Prisma.FutexWaitTable

variable {s s' : State} {call call' : Call} {c : CallId} {e : EntryId} {act : Action} {w : Wait} {a : U64}

def WakesReturned (s : State) (a : U64) : Prop :=
  ∀ maxCount pc, .wake a maxCount pc ∈ s.calls → ∃ wakeCount, pc = .done wakeCount

-- Runs in which nobody calls `wake` on this address.
def LeadsWithoutWake (a : U64) (s s' : State) : Prop :=
  Relation.ReflTransGen
    (fun s s' => ∃ act, Step s act s' ∧ ∀ maxCount, act ≠ .invoke (.wake a maxCount .start)) s s'

-- From the count of the waiters on, without a wake-up.
def WaitPc.Unwoken (e : EntryId) (shuttingDown : Bool) : WaitPc → Prop
  | .count e' | .ready e' _ | .block e' | .blocked e' | .relock e' _ => e' = e
  | .settle e' signaled => e' = e ∧ (signaled → shuttingDown)
  | .release _ result | .done result => result ≠ some .woken
  | _ => False

-- There is nothing for a late call to consume, and nobody grants anything.
structure Quiet (s : State) (c : CallId) (w : Wait) (e : EntryId) : Prop where
  returned : WakesReturned s w.addr
  entry : Ledger.AddrAt s.entries e w.addr
  credits : s.shuttingDown ∨ ∀ ent, s.entries[e]? = some ent → ent.wakeCredits = 0
  call : ∃ pc, s.calls[c]? = some (.wait w pc) ∧ pc.Unwoken e s.shuttingDown

theorem WaitPc.Unwoken.mono {pc : WaitPc} {f f' : Bool} (h : pc.Unwoken e f) (hf : f → f') :
    pc.Unwoken e f' := by
  cases pc with
  | settle => exact ⟨h.left, fun hs => hf (h.right hs)⟩
  | _ => exact h

theorem Moved.unwoken (h : Moved s (.wait w pc) call') (hu : pc.Unwoken e s.shuttingDown)
    (hq : s.shuttingDown ∨ ∀ ent, s.entries[e]? = some ent → ent.wakeCredits = 0) :
    ∃ pc', call' = .wait w pc' ∧ pc'.Unwoken e s.shuttingDown := by
  cases pc with
  | count e' =>
    have ⟨ent, _, hcall⟩ := h
    exact ⟨_, hcall, hu⟩
  | ready e' expired =>
    have ⟨ent, he, hcall⟩ := h
    refine ⟨_, hcall, ?_⟩
    cases (show e' = e from hu)
    split
    case isTrue hready =>
      refine ⟨rfl, fun _ => hq.elim id fun hzero => ?_⟩
      exact hready.resolve_right (not_not.mpr (hzero ent he))
    case isFalse =>
      cases expired with
      | true => exact ⟨rfl, nofun⟩
      | false => rfl
  | block e' => exact ⟨_, h, hu⟩
  | relock e' expired => exact ⟨_, h, hu⟩
  | settle e' signaled =>
    have ⟨ent, he, hcall⟩ := h
    cases signaled with
    | false => exact ⟨_, hcall, nofun⟩
    | true =>
      rw [show s.shuttingDown = true from hu.right rfl] at hcall
      exact ⟨_, hcall, nofun⟩
  | release e' result => exact ⟨_, h, hu⟩
  | blocked | done => exact h.elim
  | start | acquire | lock | readWord | checkFlag | unlock => exact hu.elim

section Credits

variable {ent ent' : Entry}

-- The wake-ups of an entry are not more than before.
def CreditsBelow (s : State) (e : EntryId) (ent' : Entry) : Prop :=
  ent'.wakeCredits = 0 ∨ ∃ ent, s.entries[e]? = some ent ∧ ent'.wakeCredits ≤ ent.wakeCredits

theorem creditsBelow_of_set (hk : s.entries[k]? = some ent)
    (he : (s.entries.set k new)[e]? = some ent') (hle : new.wakeCredits ≤ ent.wakeCredits) :
    CreditsBelow s e ent' := by
  rw [List.getElem?_set] at he
  split at he
  case isTrue hke =>
    subst hke
    split at he
    · cases he
      exact .inr ⟨ent, hk, hle⟩
    · nomatch he
  case isFalse => exact .inr ⟨ent', he, le_refl _⟩

theorem creditsBelow_acquireEntry (h : s.ledger.Addressed)
    (he : (s.acquireEntry addr create).fst.entries[e]? = some ent') : CreditsBelow s e ent' := by
  unfold State.acquireEntry at he
  split at he
  · exact .inr ⟨ent', he, le_refl _⟩
  · split at he
    case _ k ht =>
      have ⟨ent, hk, _⟩ := h.table addr k ht
      rw [List.modify_eq_set_getElem?, show s.entries[k]? = some ent from hk] at he
      exact creditsBelow_of_set hk he (le_refl _)
    case _ =>
      split at he
      · exact .inr ⟨ent', he, le_refl _⟩
      · rw [List.getElem?_append] at he
        split at he
        · exact .inr ⟨ent', he, le_refl _⟩
        · cases List.mem_singleton.mp (List.mem_of_getElem? he)
          exact .inl rfl

theorem creditsBelow_releaseEntry (he : (s.releaseEntry addr k).entries[e]? = some ent') :
    CreditsBelow s e ent' := by
  unfold State.releaseEntry at he
  split at he
  case _ hk =>
    split at he
    · exact .inr ⟨ent', he, le_refl _⟩
    · dsimp only at he
      split at he
      · exact creditsBelow_of_set hk he (le_refl _)
      · exact creditsBelow_of_set hk he (le_refl _)
  case _ => exact .inr ⟨ent', he, le_refl _⟩

def Op.Lowers : Op → Prop
  | .update _ k | .leave _ k => ∀ b ent, (k b ent).fst.wakeCredits ≤ ent.wakeCredits
  | _ => True

theorem Call.next_lowers (call : Call) :
    call.next.Lowers ∨ ∃ addr n e, call = .wake addr n (.grant e) := by
  cases call with
  | wait w pc =>
    left
    cases pc with
    | settle e signaled =>
      intro b ent
      cases signaled <;> cases b
      case true.false => exact Nat.sub_le ..
      all_goals exact le_refl _
    | count | ready | unlock => exact fun _ _ => le_refl _
    | _ => trivial
  | wake addr n pc =>
    cases pc with
    | grant e => exact .inr ⟨addr, n, e, rfl⟩
    | unlock => exact .inl fun _ _ => le_refl _
    | notify e n left => cases left <;> exact .inl trivial
    | _ => exact .inl trivial
  | shutdown pc =>
    left
    cases pc with
    | notify entries => cases entries <;> trivial
    | _ => trivial

theorem Step.credits_cases (h : s.ledger.Addressed) (hs : Step s act s')
    (he : s'.entries[e]? = some ent') :
    CreditsBelow s e ent' ∨ ∃ addr n, .wake addr n (.grant e) ∈ s.calls := by
  cases hs with
  | acquire => exact .inl (creditsBelow_acquireEntry h he)
  | release => exact .inl (creditsBelow_releaseEntry he)
  | lock hc hop hk | block hc hop hk => exact .inl (creditsBelow_of_set hk he (le_refl _))
  | @update i call k ent f hc hop hk =>
    rcases call.next_lowers with hlow | ⟨addr, n, k', hcall⟩
    · rw [hop] at hlow
      exact .inl (creditsBelow_of_set hk he (hlow ..))
    · subst hcall
      nomatch hop
  | @leave i call k ent f hc hop hk =>
    rcases call.next_lowers with hlow | ⟨addr, n, k', hcall⟩
    · rw [hop] at hlow
      exact .inl (creditsBelow_of_set hk he (hlow s.shuttingDown ent))
    · subst hcall
      cases hop
      by_cases hke : k = e
      case pos => exact .inr ⟨addr, n, hke ▸ List.mem_of_getElem? hc⟩
      case neg => exact .inl (.inr ⟨ent', (List.getElem?_set_ne hke).symm.trans he, le_refl _⟩)
  | _ => exact .inl (.inr ⟨ent', he, le_refl _⟩)

end Credits

theorem WakesReturned.step (h : WakesReturned s a) (hs : Step s act s')
    (hn : ∀ maxCount, act ≠ .invoke (.wake a maxCount .start)) : WakesReturned s' a := by
  intro maxCount pc hcall
  have ⟨i, hi⟩ := List.mem_iff_getElem?.mp hcall
  rcases hs.call_cases hi with ⟨hact, hstart, _⟩ | ⟨call, hc, hbecomes⟩
  · rw [of_decide_eq_true hstart] at hact
    exact absurd hact (hn maxCount)
  · have hbegun := hbecomes.begun_eq
    cases call with
    | wake addr n pc₀ =>
      cases hbegun
      have ⟨k, hk⟩ := h maxCount pc₀ (List.mem_of_getElem? hc)
      subst hk
      rcases hbecomes with hsame | hwoke | ⟨_, hmoved⟩
      · cases hsame
        exact ⟨k, rfl⟩
      · nomatch hwoke
      · exact hmoved.elim
    | wait | shutdown => nomatch hbegun

theorem Quiet.step (h : Quiet s c w e) (hr : Reachable s) (hs : Step s act s')
    (hn : ∀ maxCount, act ≠ .invoke (.wake w.addr maxCount .start)) : Quiet s' c w e := by
  have hsound := hr.sound
  refine ⟨h.returned.step hs hn, ?_, ?_, ?_⟩
  · rcases hs.simulates hsound.addressed with hl | ⟨_, _, _, hclear⟩
    · exact h.entry.leads hl
    · have hentries : s'.entries = s.entries := congrArg Ledger.entries hclear
      exact hentries ▸ h.entry
  · rcases h.credits with hf | hzero
    · exact .inl (hs.shuttingDown hf)
    · refine .inr fun ent' he' => ?_
      rcases hs.credits_cases hsound.addressed he' with (hz | ⟨ent, he, hle⟩) | ⟨addr, n, hgrant⟩
      · exact hz
      · exact Nat.le_zero.mp (hzero ent he ▸ hle)
      -- A call that grants wake-ups on the entry is one on the same address.
      · have ⟨_, ha, hat⟩ := hsound.addressed.views _ (List.mem_map_of_mem hgrant) e rfl
        cases ha
        have ⟨_, he₁, ha₁⟩ := hat
        have ⟨_, he₂, ha₂⟩ := h.entry
        cases he₁.symm.trans he₂
        cases ha₁.symm.trans ha₂
        have ⟨_, hdone⟩ := h.returned n _ hgrant
        nomatch hdone
  · have ⟨pc, hc, hu⟩ := h.call
    have ⟨call', hc', hbecomes⟩ := hs.becomes hc
    rcases hbecomes with hsame | hwoke | ⟨_, hmoved⟩
    · exact ⟨pc, hsame ▸ hc', hu.mono hs.shuttingDown⟩
    · cases hwoke with
      | relock => exact ⟨_, hc', hu⟩
      | expire => exact ⟨_, hc', hu⟩
    · have ⟨pc', hcall, hu'⟩ := hmoved.unwoken hu h.credits
      exact ⟨pc', hcall ▸ hc', hu'.mono hs.shuttingDown⟩

theorem Quiet.not_woken (h : Quiet s c w e) (hr : Reachable s) (hl : LeadsWithoutWake w.addr s s') :
    s'.calls[c]? ≠ some (.wait w (.done (some .woken))) := by
  have ⟨_, hquiet⟩ : Reachable s' ∧ Quiet s' c w e := by
    induction hl with
    | refl => exact ⟨hr, h⟩
    | tail _ hs hi =>
      have ⟨act, hstep, hn⟩ := hs
      exact ⟨hi.left.tail ⟨act, hstep⟩, hi.right.step hi.left hstep hn⟩
  intro hwoken
  have ⟨pc, hc, hu⟩ := hquiet.call
  cases hc.symm.trans hwoken
  exact hu rfl

section Alone

variable {ent : Entry} {k : Bool → Entry → Entry × Call}

theorem exists_update (hc : s.calls[c]? = some call) (hop : call.next = .update e k)
    (he : s.entries[e]? = some ent) :
    ∃ s', Step s (.advance c) s' ∧ s'.shuttingDown = s.shuttingDown ∧
      s'.calls[c]? = some (k s.shuttingDown ent).snd ∧
      s'.entries[e]? = some (k s.shuttingDown ent).fst := by
  refine ⟨_, .update hc hop he, rfl, ?_, ?_⟩
  · exact List.getElem?_set_of_eq_some hc
  · exact List.getElem?_set_of_eq_some he

theorem exists_leave (hc : s.calls[c]? = some call) (hop : call.next = .leave e k)
    (he : s.entries[e]? = some ent) :
    ∃ s', Step s (.advance c) s' ∧ s'.calls[c]? = some (k s.shuttingDown ent).snd :=
  ⟨_, .leave hc hop he, List.getElem?_set_of_eq_some hc⟩

theorem exists_release (hc : s.calls[c]? = some call) (hop : call.next = .release addr e call') :
    ∃ s', Step s (.advance c) s' ∧ s'.calls[c]? = some call' := by
  refine ⟨_, .release hc hop, ?_⟩
  rw [State.setCall, calls_releaseEntry]
  exact List.getElem?_set_of_eq_some hc

theorem exists_woken (hc : s.calls[c]? = some (.wait w (.count e)))
    (he : s.entries[e]? = some ent) (hcredits : ent.wakeCredits ≠ 0)
    (hf : s.shuttingDown = false) :
    ∃ s', LeadsWithoutWake a s s' ∧ s'.calls[c]? = some (.wait w (.done (some .woken))) := by
  have ⟨s₁, hs₁, hf₁, hc₁, he₁⟩ := exists_update hc rfl he
  have ⟨s₂, hs₂, hf₂, hc₂, he₂⟩ := exists_update hc₁ rfl he₁
  rw [if_pos (.inr hcredits)] at hc₂
  have ⟨s₃, hs₃, hc₃⟩ := exists_leave hc₂ rfl he₂
  rw [hf₂, hf₁, hf] at hc₃
  have ⟨s₄, hs₄, hc₄⟩ := exists_release hc₃ rfl
  refine ⟨s₄, ?_, hc₄⟩
  exact .head ⟨_, hs₁, nofun⟩ (.head ⟨_, hs₂, nofun⟩ (.head ⟨_, hs₃, nofun⟩ (.single ⟨_, hs₄, nofun⟩)))

end Alone

-- A call of `wait` that is counted when all wake-ups on its address have been granted is not
-- woken if and only if none of them is still to be consumed, unless the table is being shut down.
theorem lateWait_not_woken_iff (h : Reachable s) (hc : s.calls[c]? = some (.wait w (.count e)))
    (hw : WakesReturned s w.addr) :
    (∀ s', LeadsWithoutWake w.addr s s' →
      s'.calls[c]? ≠ some (.wait w (.done (some .woken)))) ↔
    s.shuttingDown ∨ ∀ ent, s.entries[e]? = some ent → ent.wakeCredits = 0 := by
  have ⟨_, ha, hat⟩ :=
    h.sound.addressed.views _ (List.mem_of_getElem? (State.views_of_calls hc)) e rfl
  cases ha
  constructor
  · intro hnot
    by_contra hcond
    have ⟨hf, hcredits⟩ := not_or.mp hcond
    refine hcredits fun ent he => ?_
    by_contra hne
    have ⟨s', hl, hwoken⟩ := exists_woken (a := w.addr) hc he hne (Bool.eq_false_iff.mpr hf)
    exact hnot s' hl hwoken
  · intro hcond s' hl
    have hquiet : Quiet s c w e := ⟨hw, hat, hcond, _, hc, rfl⟩
    exact hquiet.not_woken h hl

theorem LeadsWithoutWake.leads (h : LeadsWithoutWake a s s') : Leads s s' := by
  induction h with
  | refl => exact .refl
  | tail _ hs hi => exact hi.tail (hs.imp fun _ h => h.left)

theorem wakesReturned_of_calls {rest : List Wait}
    (h : s.calls = .wait word first :: .wake 0 1 (.done 1) :: rest.map (.wait · (.count 0))) :
    WakesReturned s 0 := by
  intro maxCount pc hmem
  simp only [h, List.mem_cons, reduceCtorEq, Call.wake.injEq, List.mem_map, and_false,
    exists_false, or_false, false_or] at hmem
  exact ⟨1, hmem.right.right⟩

-- Another call of `wait` is counted while the first one is not back at the mutex yet, or when it
-- has taken its wake-up. `n` waiters have a wake-up each.
def lateCounted (first : WaitPc) (n : Nat) : State :=
  ⟨false, AList.singleton 0 0, [⟨0, some 2, 2, n, n⟩],
    [.wait word first, .wake 0 1 (.done 1), .wait word (.count 0)]⟩

theorem leads_lateCounted (first : WaitPc) (n : Nat) :
    LeadsWithoutWake 0 ⟨false, AList.singleton 0 0, [⟨0, none, 1, n, n⟩],
      [.wait word first, .wake 0 1 (.done 1)]⟩ (lateCounted first n) :=
  .head ⟨_, .invoke (show (Call.wait word .start).isStart from rfl), nofun⟩ <|
  .head ⟨_, .goto (c := 2) rfl rfl, nofun⟩ <|
  .head ⟨_, .acquire (c := 2) rfl rfl, nofun⟩ <|
  .head ⟨_, .lock (c := 2) rfl rfl rfl rfl, nofun⟩ <|
  .head ⟨_, .readWord (c := 2) (some (some 0)) rfl rfl, nofun⟩ <|
  .head ⟨_, .load (c := 2) rfl rfl, nofun⟩ .refl

-- The first call has taken the only wake-up.
theorem lateWait_not_woken_iff_taken :
    Reachable (lateCounted (.release 0 (some .woken)) 0) ∧
      ∀ s', LeadsWithoutWake 0 (lateCounted (.release 0 (some .woken)) 0) s' →
        s'.calls[2]? ≠ some (.wait word (.done (some .woken))) := by
  have hr : Reachable (lateCounted (.release 0 (some .woken)) 0) :=
    reachable_afterWake.trans <|
    .head ⟨_, .lock (c := 0) rfl rfl rfl rfl⟩ <|
    .head ⟨_, .update (c := 0) rfl rfl rfl⟩ <|
    .head ⟨_, .leave (c := 0) rfl rfl rfl⟩ <|
    (leads_lateCounted _ 0).leads
  have hw : WakesReturned (lateCounted (.release 0 (some .woken)) 0) word.addr :=
    @wakesReturned_of_calls _ _ [word] rfl
  refine ⟨hr, (lateWait_not_woken_iff hr rfl hw).mpr ?_⟩
  refine .inr fun ent he => ?_
  cases he
  rfl

-- It takes the wake-up, although the only call of `wake` has returned before it started.
theorem not_lateWait_not_woken :
    ¬∀ s₀ s s' c w e, Reachable s₀ → (∃ n k, .wake w.addr n (.done k) ∈ s₀.calls) →
      WakesReturned s₀ w.addr → s₀.calls.length ≤ c → LeadsWithoutWake w.addr s₀ s →
      s.calls[c]? = some (.wait w (.count e)) → LeadsWithoutWake w.addr s s' →
      s'.calls[c]? ≠ some (.wait w (.done (some .woken))) := by
  intro h
  have hwake : Call.wake 0 1 (.done 1) ∈ afterWake.calls := .tail _ (.head _)
  have ⟨s', hl, hwoken⟩ : ∃ s', LeadsWithoutWake 0 (lateCounted (.relock 0 false) 1) s' ∧
      s'.calls[2]? = some (.wait word (.done (some .woken))) :=
    exists_woken (s := lateCounted _ 1) rfl rfl (by decide) rfl
  exact h afterWake _ s' 2 word 0 reachable_afterWake ⟨1, 1, hwake⟩
    (@wakesReturned_of_calls _ _ [] rfl) (le_refl _) (leads_lateCounted _ 1) rfl hl hwoken

end Prisma.FutexWaitTable
