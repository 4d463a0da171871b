import Prisma.Futex.Theorems.Calls

-- Calls of `wait` that are blocked when the table has been shut down.

namespace Prisma.FutexWaitTable

open List

variable {s s' : State} {call call' : Call} {c c' : CallId} {e : EntryId} {act : Action}
  {pc pc' : ShutdownPc}

namespace ShutdownPc

def Active : ShutdownPc → Prop
  | .collect | .notify _ => True
  | _ => False

-- The entry is among those that the call has still to notify, if it was in the table.
def Lists (e : EntryId) : ShutdownPc → Prop
  | .collect => True
  | .notify entries => e ∈ entries
  | _ => False

end ShutdownPc

-- The call is still to notify the calls that wait on the entry.
def Call.Notifies (s : State) (e : EntryId) : Call → Prop
  | .wake _ _ (.notify e' _ left) => e' = e ∧ left ≠ 0
  | .shutdown .collect => e ∈ s.table.entries.map Sigma.snd
  | .shutdown (.notify entries) => e ∈ entries
  | _ => False

-- No call of `wait` is on its way from the predicate to the condition variable when `shutdown`
-- notifies its entry.
def Allowed (s : State) : Action → Prop
  | .notifyAll _ e => ∀ w, .wait w (.block e) ∉ s.calls
  | _ => True

def LeadsAllowed (s s' : State) : Prop :=
  Relation.ReflTransGen (fun s s' => ∃ act, Step s act s' ∧ Allowed s act) s s'

structure Orderly (s : State) : Prop where
  flagged : ∀ pc, .shutdown pc ∈ s.calls → pc ≠ .start → s.shuttingDown
  one : ∀ (c c' : CallId) (pc pc' : ShutdownPc), s.calls[c]? = some (.shutdown pc) →
    s.calls[c']? = some (.shutdown pc') → pc.Active → pc'.Active → c = c'
  listed : s.shuttingDown → ∀ w e,
    .wait w (.block e) ∈ s.calls ∨ .wait w (.blocked e) ∈ s.calls →
    ∃ pc, .shutdown pc ∈ s.calls ∧ pc.Lists e
  table : s.shuttingDown = false ∨ .shutdown .collect ∈ s.calls → s.ledger.InTable

theorem Step.active_cases (hs : Step s act s') (hc : s'.calls[c]? = some (.shutdown pc'))
    (ha : pc'.Active) :
    (∃ pc, s.calls[c]? = some (.shutdown pc) ∧ pc.Active) ∨
      (s.calls[c]? = some (.shutdown .start) ∧ act.mover = some c ∧ s.shuttingDown = false) := by
  rcases hs.call_cases hc with ⟨_, hstart, _⟩ | ⟨call, hcall, hbecomes⟩
  · rw [of_decide_eq_true hstart] at ha
    exact ha.elim
  · cases call with
    | wait | wake => nomatch hbecomes.begun_eq
    | shutdown pc =>
      rcases hbecomes with hsame | hwoke | ⟨hm, hmoved⟩
      · cases hsame
        exact .inl ⟨_, hcall, ha⟩
      · nomatch hwoke
      · cases pc with
        | start =>
          refine .inr ⟨hcall, hm, Bool.eq_false_iff.mpr fun hf => ?_⟩
          have hdone : Call.shutdown pc' = .shutdown (if s.shuttingDown then .done else .collect) :=
            hmoved
          rw [hf] at hdone
          cases hdone
          exact ha
        | collect | notify => exact .inl ⟨_, hcall, trivial⟩
        | done => exact hmoved.elim

theorem Moved.blocking {w : Wait} {pc pc' : WaitPc} (h : Moved s (.wait w pc) (.wait w pc'))
    (hf : s.shuttingDown) : pc' ≠ .block e ∧ (pc' = .blocked e → pc = .block e) := by
  cases pc with
  | start =>
    cases (show Call.wait w pc' = .wait w _ from h)
    split <;> exact ⟨nofun, nofun⟩
  | acquire =>
    have h : Call.wait w pc' = _ := h
    generalize (s.acquireEntry w.addr true).snd = found at h
    cases found <;> cases h <;> exact ⟨nofun, nofun⟩
  | readWord =>
    have ⟨observed, h⟩ := h
    match observed with
    | none | some none =>
      cases h
      exact ⟨nofun, nofun⟩
    | some (some _) =>
      cases h
      split <;> exact ⟨nofun, nofun⟩
  | checkFlag =>
    cases (show Call.wait w pc' = .wait w _ from h)
    split <;> exact ⟨nofun, nofun⟩
  | ready e' expired =>
    have ⟨ent, _, h⟩ := h
    cases h
    rw [if_pos (.inl hf)]
    exact ⟨nofun, nofun⟩
  | block =>
    cases h
    refine ⟨nofun, fun hblocked => ?_⟩
    cases hblocked
    rfl
  | settle e' signaled =>
    have ⟨ent, _, h⟩ := h
    rw [hf] at h
    cases signaled <;> cases h <;> exact ⟨nofun, nofun⟩
  | count | unlock =>
    have ⟨ent, _, h⟩ := h
    cases h
    exact ⟨nofun, nofun⟩
  | lock | relock | release =>
    cases h
    exact ⟨nofun, nofun⟩
  | blocked | done => exact h.elim

theorem Step.blocking (hs : Step s act s') (hf : s.shuttingDown) {w : Wait}
    (h : .wait w (.block e) ∈ s'.calls ∨ .wait w (.blocked e) ∈ s'.calls) :
    .wait w (.block e) ∈ s.calls ∨ .wait w (.blocked e) ∈ s.calls := by
  have hbefore : ∀ pc, pc = .block e ∨ pc = .blocked e → .wait w pc ∈ s'.calls →
      .wait w (.block e) ∈ s.calls ∨ .wait w (.blocked e) ∈ s.calls := by
    intro pc hpc hmem
    have ⟨c, hc⟩ := mem_iff_getElem?.mp hmem
    rcases hs.call_cases hc with ⟨_, hstart, _⟩ | ⟨call, hcall, hbecomes⟩
    · rcases hpc with rfl | rfl <;> exact absurd hstart (by simp [Call.isStart])
    · cases call with
      | wake | shutdown => nomatch hbecomes.begun_eq
      | wait w₀ pc₀ =>
        cases hbecomes.begun_eq
        have hmem₀ := mem_of_getElem? hcall
        rcases hbecomes with hsame | hwoke | ⟨_, hmoved⟩
        · cases hsame
          rcases hpc with rfl | rfl
          · exact .inl hmem₀
          · exact .inr hmem₀
        · rcases hpc with rfl | rfl <;> nomatch hwoke
        · have ⟨hnot, hfrom⟩ := @Moved.blocking s e w pc₀ pc hmoved hf
          rcases hpc with hblock | hblocked
          · exact absurd hblock hnot
          · cases hfrom hblocked
            exact .inl hmem₀
  rcases h with h | h
  · exact hbefore _ (.inl rfl) h
  · exact hbefore _ (.inr rfl) h

theorem Step.begins_shutdown (hs : Step s act s') (hf : s.shuttingDown = false)
    (hf' : s'.shuttingDown) : .shutdown .collect ∈ s'.calls := by
  cases hs with
  | @exchange c call k hc hop =>
    cases Call.eq_of_exchange hop
    cases hop
    rw [hf]
    exact mem_of_getElem? (List.getElem?_set_of_eq_some hc)
  | acquire =>
    rw [State.setCall, shuttingDown_acquireEntry, hf] at hf'
    cases hf'
  | release =>
    rw [State.setCall, shuttingDown_releaseEntry, hf] at hf'
    cases hf'
  | _ => cases hf.symm.trans hf'

theorem Ledger.InTable.mem_table (h : s.ledger.InTable)
    (hw : .wait w (.block e) ∈ s.calls ∨ .wait w (.blocked e) ∈ s.calls) :
    e ∈ s.table.entries.map Sigma.snd := by
  have hused : ∃ v ∈ s.ledger.views, v.entry = some e := by
    rcases hw with hw | hw
    · exact ⟨_, mem_map_of_mem hw, rfl⟩
    · exact ⟨_, mem_map_of_mem hw, rfl⟩
  have ⟨v, hv, hentry⟩ := hused
  have ⟨a, _, hlookup⟩ := h v hv e hentry
  exact mem_map.mpr ⟨⟨a, e⟩, AList.mem_lookup_iff.mp hlookup, rfl⟩

theorem Call.block_of_notified (h : call.notified e = .wait w (.block e)) :
    call = .wait w (.block e) := by
  unfold notified at h
  split at h
  · split at h <;> nomatch h
  · exact h

theorem Call.notified_ne_blocked : call.notified e ≠ .wait w (.blocked e) := by
  intro h
  unfold notified at h
  split at h
  case _ e' =>
    split at h
    case isTrue => nomatch h
    case isFalse hne =>
      cases h
      exact hne rfl
  case _ hne => exact hne w e h

theorem not_blocked_of_notified (hblock : ∀ w, .wait w (.block e) ∉ s.calls)
    (h : .wait w (.block e) ∈ (s.calls.map (Call.notified e)).set c (.shutdown pc) ∨
      .wait w (.blocked e) ∈ (s.calls.map (Call.notified e)).set c (.shutdown pc)) : False := by
  rcases h with h | h
  · rcases mem_or_eq_of_mem_set h with h | h
    · have ⟨call, hmem, hcall⟩ := mem_map.mp h
      exact hblock w (Call.block_of_notified hcall ▸ hmem)
    · nomatch h
  · rcases mem_or_eq_of_mem_set h with h | h
    · have ⟨call, _, hcall⟩ := mem_map.mp h
      exact Call.notified_ne_blocked hcall
    · nomatch h

theorem Step.collect_cases (hs : Step s act s')
    (hc' : s'.calls[c]? = some (.shutdown .collect)) :
    (s.calls[c]? = some (.shutdown .collect) ∧ act.mover ≠ some c) ∨ s.shuttingDown = false := by
  rcases hs.active_cases hc' trivial with ⟨pc, hc, ha⟩ | ⟨_, _, hf⟩
  case inr => exact .inr hf
  case inl =>
    refine .inl ?_
    have ⟨_, hcall', hbecomes⟩ := hs.becomes hc
    cases hcall'.symm.trans hc'
    rcases hbecomes with hsame | hwoke | ⟨_, hmoved⟩
    · cases hsame
      refine ⟨hc, fun hm => ?_⟩
      cases show s' = _ from hs.effect hm hc
      nomatch (List.getElem?_set_of_eq_some hc).symm.trans hc'
    · nomatch hwoke
    · cases pc with
      | start | done => exact ha.elim
      | collect => nomatch hmoved
      | notify entries =>
        cases entries with
        | nil => nomatch hmoved
        | cons =>
          have ⟨_, _, hnotify⟩ := hmoved
          nomatch hnotify

namespace Orderly

theorem flagged_step (h : Orderly s) (hs : Step s act s') :
    ∀ pc, .shutdown pc ∈ s'.calls → pc ≠ .start → s'.shuttingDown := by
  intro pc hmem hne
  have ⟨c, hc⟩ := mem_iff_getElem?.mp hmem
  rcases hs.call_cases hc with ⟨_, hstart, _⟩ | ⟨call, hcall, hbecomes⟩
  · exact absurd (of_decide_eq_true hstart) hne
  · cases call with
    | wait | wake => nomatch hbecomes.begun_eq
    | shutdown pc₀ =>
      by_cases hstart : pc₀ = .start
      case neg => exact hs.shuttingDown (h.flagged pc₀ (mem_of_getElem? hcall) hstart)
      case pos =>
        subst hstart
        rcases hbecomes with hsame | hwoke | ⟨hm, _⟩
        · cases hsame
          exact absurd rfl hne
        · nomatch hwoke
        · have ⟨_, heffect⟩ := hs.effect hm hcall
          rw [heffect]
          rfl

theorem shuttingDown (h : Orderly s) (hc : s.calls[c]? = some (.shutdown pc)) (ha : pc.Active) :
    s.shuttingDown := by
  refine h.flagged pc (mem_of_getElem? hc) ?_
  rintro rfl
  exact ha

theorem one_step (h : Orderly s) (hs : Step s act s') :
    ∀ (c c' : CallId) (pc pc' : ShutdownPc), s'.calls[c]? = some (.shutdown pc) →
      s'.calls[c']? = some (.shutdown pc') → pc.Active → pc'.Active → c = c' := by
  intro c c' pc pc' hc hc' ha ha'
  rcases hs.active_cases hc ha with ⟨pc₀, h₀, ha₀⟩ | ⟨_, hm, hf⟩ <;>
    rcases hs.active_cases hc' ha' with ⟨pc₀', h₀', ha₀'⟩ | ⟨_, hm', hf'⟩
  · exact h.one c c' pc₀ pc₀' h₀ h₀' ha₀ ha₀'
  · nomatch hf'.symm.trans (h.shuttingDown h₀ ha₀)
  · nomatch hf.symm.trans (h.shuttingDown h₀' ha₀')
  · exact Option.some.inj (hm.symm.trans hm')

theorem listed_of_mover (h : Orderly s) (hs : Step s act s') (hallowed : Allowed s act)
    (hbefore : .wait w (.block e) ∈ s.calls ∨ .wait w (.blocked e) ∈ s.calls)
    (hafter : .wait w (.block e) ∈ s'.calls ∨ .wait w (.blocked e) ∈ s'.calls)
    (hc : s.calls[c]? = some (.shutdown pc)) (hl : pc.Lists e) (hm : act.mover = some c) :
    ∃ pc', .shutdown pc' ∈ s'.calls ∧ pc'.Lists e := by
  have heffect := hs.effect hm hc
  cases pc with
  | start | done => exact hl.elim
  | collect =>
    cases heffect
    have hin := h.table (.inr (mem_of_getElem? hc))
    exact ⟨_, mem_of_getElem? (List.getElem?_set_of_eq_some hc), hin.mem_table hbefore⟩
  | notify entries =>
    cases entries with
    | nil => nomatch hl
    | cons e₀ entries =>
      have ⟨e₁, _, hact, hs'⟩ := heffect
      subst hact hs'
      have hne : e ≠ e₁ := by
        rintro rfl
        exact not_blocked_of_notified hallowed hafter
      have hc' := List.getElem?_map (f := Call.notified e₁) (i := c) (l := s.calls)
      rw [hc] at hc'
      exact ⟨_, mem_of_getElem? (List.getElem?_set_of_eq_some hc'),
        (mem_erase_of_ne hne).mpr hl⟩

theorem listed_step (h : Orderly s) (hs : Step s act s') (hallowed : Allowed s act) :
    s'.shuttingDown → ∀ w e,
      .wait w (.block e) ∈ s'.calls ∨ .wait w (.blocked e) ∈ s'.calls →
      ∃ pc, .shutdown pc ∈ s'.calls ∧ pc.Lists e := by
  intro hf' w e hafter
  by_cases hf : s.shuttingDown
  case neg => exact ⟨.collect, hs.begins_shutdown (Bool.eq_false_iff.mpr hf) hf', trivial⟩
  case pos =>
    have hbefore := hs.blocking hf hafter
    have ⟨pc, hmem, hl⟩ := h.listed hf w e hbefore
    have ⟨c, hc⟩ := mem_iff_getElem?.mp hmem
    have ⟨call', hc', hbecomes⟩ := hs.becomes hc
    rcases hbecomes with hsame | hwoke | ⟨hm, _⟩
    · exact ⟨pc, mem_of_getElem? (hsame ▸ hc'), hl⟩
    · nomatch hwoke
    · exact h.listed_of_mover hs hallowed hbefore hafter hc hl hm

theorem table_step (h : Orderly s) (hsound : s.ledger.Sound) (hs : Step s act s') :
    s'.shuttingDown = false ∨ .shutdown .collect ∈ s'.calls → s'.ledger.InTable := by
  intro hcond
  have hbefore (hf : s.shuttingDown = false) : s.ledger.InTable ∧
      ∀ c, act.mover = some c → s.calls[c]? ≠ some (.shutdown .collect) := by
    refine ⟨h.table (.inl hf), fun c _ hc => ?_⟩
    nomatch hf.symm.trans (h.shuttingDown hc trivial)
  have ⟨hin, hcollect⟩ : s.ledger.InTable ∧
      ∀ c, act.mover = some c → s.calls[c]? ≠ some (.shutdown .collect) := by
    rcases hcond with hf' | hmem
    · refine hbefore (Bool.eq_false_iff.mpr fun hf => ?_)
      rw [hs.shuttingDown hf] at hf'
      nomatch hf'
    · have ⟨c', hc'⟩ := mem_iff_getElem?.mp hmem
      rcases hs.collect_cases hc' with ⟨hcollect, hstays⟩ | hf
      · refine ⟨h.table (.inr (mem_of_getElem? hcollect)), fun c hm hc => hstays ?_⟩
        rw [h.one c' c _ _ hcollect hc trivial trivial, hm]
      · exact hbefore hf
  rcases hs.simulates hsound.addressed with hl | ⟨c, rfl, hc, _⟩
  · exact hin.leads hsound hl
  · exact absurd hc (hcollect c rfl)

theorem new : Orderly .new where
  flagged _ h := nomatch h
  one _ _ _ _ h := nomatch h
  listed h := nomatch h
  table _ _ h := nomatch h

theorem step (h : Orderly s) (hsound : s.ledger.Sound) (hs : Step s act s')
    (hallowed : Allowed s act) : Orderly s' where
  flagged := h.flagged_step hs
  one := h.one_step hs
  listed := h.listed_step hs hallowed
  table := h.table_step hsound hs

end Orderly

theorem LeadsAllowed.reachable (h : LeadsAllowed .new s) : Reachable s :=
  Relation.ReflTransGen.mono (fun _ _ ⟨act, hs, _⟩ => ⟨act, hs⟩) _ _ h

theorem LeadsAllowed.orderly (h : LeadsAllowed .new s) : Orderly s := by
  induction h with
  | refl => exact .new
  | tail hl hs hi =>
    have ⟨_, hs, hallowed⟩ := hs
    exact hi.step (LeadsAllowed.reachable hl).sound hs hallowed

-- When `shutdown` has returned, whatever is blocked is still to be notified.
theorem notified_after_shutdown (h : LeadsAllowed .new s) (hd : .shutdown .done ∈ s.calls)
    (w : Wait) (e : EntryId) (hw : .wait w (.blocked e) ∈ s.calls) :
    ∃ call ∈ s.calls, call.Notifies s e := by
  have hf := h.orderly.flagged .done hd nofun
  have ⟨pc, hpc, hl⟩ := h.orderly.listed hf w e (.inr hw)
  refine ⟨_, hpc, ?_⟩
  cases pc with
  | start | done => exact hl.elim
  | collect => exact (h.orderly.table (.inr hpc)).mem_table (.inr hw)
  | notify => exact hl

-- A call is blocked, one of `shutdown` is about to notify it and another one has returned.
def closing : State :=
  ⟨true, ∅, [⟨0, none, 1, 1, 0⟩],
    [.wait word (.blocked 0), .shutdown (.notify [0]), .shutdown .done]⟩

theorem leadsAllowed_closing : LeadsAllowed .new closing :=
  .head ⟨_, .invoke (show (Call.wait word .start).isStart from rfl), trivial⟩ <|
  .head ⟨_, .goto (c := 0) rfl rfl, trivial⟩ <|
  .head ⟨_, .acquire (c := 0) rfl rfl, trivial⟩ <|
  .head ⟨_, .lock (c := 0) rfl rfl rfl rfl, trivial⟩ <|
  .head ⟨_, .readWord (c := 0) (some (some 0)) rfl rfl, trivial⟩ <|
  .head ⟨_, .load (c := 0) rfl rfl, trivial⟩ <|
  .head ⟨_, .update (c := 0) rfl rfl rfl, trivial⟩ <|
  .head ⟨_, .update (c := 0) rfl rfl rfl, trivial⟩ <|
  .head ⟨_, .block (c := 0) rfl rfl rfl, trivial⟩ <|
  .head ⟨_, .invoke (show (Call.shutdown .start).isStart from rfl), trivial⟩ <|
  .head ⟨_, .exchange (c := 1) rfl rfl, trivial⟩ <|
  .head ⟨_, .collect (c := 1) rfl rfl, trivial⟩ <|
  .head ⟨_, .invoke (show (Call.shutdown .start).isStart from rfl), trivial⟩ <|
  .head ⟨_, .exchange (c := 2) rfl rfl, trivial⟩ .refl

theorem notified_after_shutdown_closing :
    Call.wait word (.blocked 0) ∈ closing.calls ∧ ∃ call ∈ closing.calls, call.Notifies closing 0 :=
  ⟨.head _, notified_after_shutdown leadsAllowed_closing (.tail _ (.tail _ (.head _))) word 0
    (.head _)⟩

-- The call blocks after `shutdown` has notified its entry.
def closed : State :=
  ⟨true, ∅, [⟨0, none, 1, 1, 0⟩], [.wait word (.blocked 0), .shutdown .done]⟩

theorem reachable_closed : Reachable closed :=
  reachable_firstCounted.trans <|
  .head ⟨_, .update (c := 0) rfl rfl rfl⟩ <|
  .head ⟨_, .update (c := 0) rfl rfl rfl⟩ <|
  .head ⟨_, .invoke (show (Call.shutdown .start).isStart from rfl)⟩ <|
  .head ⟨_, .exchange (c := 1) rfl rfl⟩ <|
  .head ⟨_, .collect (c := 1) rfl rfl⟩ <|
  .head ⟨_, @Step.notifyAll _ 1 _ 0 _ _ rfl rfl (.head _)⟩ <|
  .head ⟨_, .goto (c := 1) rfl rfl⟩ <|
  .head ⟨_, .block (c := 0) rfl rfl rfl⟩ .refl

theorem not_notified_after_shutdown :
    ¬∀ s, Reachable s → .shutdown .done ∈ s.calls → ∀ w e, w.timed = false →
      .wait w (.blocked e) ∈ s.calls → ∃ call ∈ s.calls, call.Notifies s e := by
  intro h
  have ⟨call, hmem, hnotifies⟩ :=
    h closed reachable_closed (.tail _ (.head _)) word 0 rfl (.head _)
  cases hmem with
  | head => exact hnotifies
  | tail _ hmem =>
    cases mem_singleton.mp hmem
    exact hnotifies

end Prisma.FutexWaitTable
