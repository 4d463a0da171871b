import Prisma.Futex.Theorems.WaitTable

-- What a step means for a single call.

namespace Prisma.FutexWaitTable

-- What can come of an operation for the call that takes it.
def Op.Result (s : State) (call' : Call) : Op → Prop
  | .stop => False
  | .goto call | .release _ _ call | .lock _ call | .block _ call | .notifyOne _ call =>
    call' = call
  | .load k | .exchange k => call' = k s.shuttingDown
  | .readWord k => ∃ word, call' = k word
  | .acquire addr create k => call' = k (s.acquireEntry addr create).snd
  | .update e k | .leave e k =>
    ∃ ent, s.entries[e]? = some ent ∧ call' = (k s.shuttingDown ent).snd
  | .collect k => call' = k (s.table.entries.map Sigma.snd)
  | .notifyAll entries k => ∃ e ∈ entries, call' = k (entries.erase e)

def Moved (s : State) (call call' : Call) : Prop :=
  call.next.Result s call'

theorem moved_of_next {call : Call} (h : call.next = op) (hr : op.Result s call') :
    Moved s call call' := by
  rw [Moved, h]
  exact hr

-- The condition variable lets the call go on, or its time is over.
inductive Woke : Call → Call → Prop
  | relock {w e} (expired : Bool) : Woke (.wait w (.blocked e)) (.wait w (.relock e expired))
  | expire {w e} : Woke (.wait w (.relock e false)) (.wait w (.relock e true))

variable {s s' : State} {call call' : Call} {c : CallId} {e : EntryId} {act : Action}

theorem Call.notified_cases (call : Call) (e : EntryId) :
    call.notified e = call ∨ Woke call (call.notified e) := by
  unfold notified
  split
  case _ w e' =>
    split
    case isTrue h => exact .inr (h ▸ .relock false)
    case isFalse => exact .inl rfl
  case _ => exact .inl rfl

-- The call that takes the step.
def Action.mover : Action → Option CallId
  | .advance c | .notifyAll c _ => some c
  | _ => none

-- What a step makes of a call.
def Becomes (s : State) (act : Action) (c : CallId) (call call' : Call) : Prop :=
  call' = call ∨ Woke call call' ∨ (act.mover = some c ∧ Moved s call call')

theorem becomes_of_set (hi : s.calls[i]? = some mover)
    (hm : Woke mover moved ∨ (act.mover = some i ∧ Moved s mover moved))
    (hc : (s.calls.set i moved)[c]? = some call') :
    ∃ call, s.calls[c]? = some call ∧ Becomes s act c call call' := by
  rcases List.getElem?_set_cases hc with ⟨rfl, rfl⟩ | ⟨_, hc⟩
  · exact ⟨mover, hi, .inr hm⟩
  · exact ⟨call', hc, .inl rfl⟩

theorem becomes_of_advance (hi : s.calls[i]? = some mover) (hop : mover.next = op)
    (hr : op.Result s moved) (hc : (s.calls.set i moved)[c]? = some call') :
    ∃ call, s.calls[c]? = some call ∧ Becomes s (.advance i) c call call' :=
  becomes_of_set hi (.inr ⟨rfl, moved_of_next hop hr⟩) hc

theorem calls_acquireEntry : (s.acquireEntry addr create).fst.calls = s.calls := by
  unfold State.acquireEntry
  split
  · rfl
  · split
    · rfl
    · split <;> rfl

theorem shuttingDown_acquireEntry :
    (s.acquireEntry addr create).fst.shuttingDown = s.shuttingDown := by
  unfold State.acquireEntry
  split
  · rfl
  · split
    · rfl
    · split <;> rfl

theorem shuttingDown_releaseEntry : (s.releaseEntry addr e).shuttingDown = s.shuttingDown := by
  unfold State.releaseEntry
  split
  · split
    · rfl
    · dsimp only
      split <;> rfl
  · rfl

theorem Step.call_cases (hs : Step s act s') (hc : s'.calls[c]? = some call') :
    (act = .invoke call' ∧ call'.isStart ∧ c = s.calls.length) ∨
      ∃ call, s.calls[c]? = some call ∧ Becomes s act c call call' := by
  cases hs with
  | invoke hstart =>
    dsimp only at hc
    rw [List.getElem?_append] at hc
    split at hc
    case isTrue => exact .inr ⟨call', hc, .inl rfl⟩
    case isFalse hlt =>
      have hi : c - s.calls.length = 0 := by
        obtain ⟨hlt, _⟩ := List.getElem?_eq_some_iff.mp hc
        simpa using hlt
      rw [hi] at hc
      cases hc
      exact .inl ⟨rfl, hstart, Nat.le_antisymm (Nat.sub_eq_zero_iff_le.mp hi) (Nat.not_lt.mp hlt)⟩
  | goto h hop => exact .inr (becomes_of_advance h hop rfl hc)
  | load h hop => exact .inr (becomes_of_advance h hop rfl hc)
  | readWord word h hop => exact .inr (becomes_of_advance h hop ⟨word, rfl⟩ hc)
  | acquire h hop =>
    have hc : ((State.acquireEntry ..).fst.calls.set _ _)[c]? = some call' := hc
    rw [calls_acquireEntry] at hc
    exact .inr (becomes_of_advance h hop rfl hc)
  | release h hop =>
    have hc : ((State.releaseEntry ..).calls.set _ _)[c]? = some call' := hc
    rw [calls_releaseEntry] at hc
    exact .inr (becomes_of_advance h hop rfl hc)
  | lock h hop => exact .inr (becomes_of_advance h hop rfl hc)
  | update h hop he => exact .inr (becomes_of_advance h hop ⟨_, he, rfl⟩ hc)
  | leave h hop he => exact .inr (becomes_of_advance h hop ⟨_, he, rfl⟩ hc)
  | block h hop => exact .inr (becomes_of_advance h hop rfl hc)
  | @notifyOne i mover e moved target blocked h hop ht hb =>
    rw [State.setCall, State.setCall] at hc
    rcases List.getElem?_set_cases hc with ⟨rfl, rfl⟩ | ⟨_, hc⟩
    · exact .inr ⟨mover, h, .inr (.inr ⟨rfl, moved_of_next hop rfl⟩)⟩
    · rcases blocked.notified_cases e with hsame | hwoke
      · rw [hsame, List.set_eq_self ht] at hc
        exact .inr ⟨call', hc, .inl rfl⟩
      · exact .inr (becomes_of_set ht (.inl hwoke) hc)
  | notifyNone h hop => exact .inr (becomes_of_advance h hop rfl hc)
  | exchange h hop => exact .inr (becomes_of_advance h hop rfl hc)
  | collect h hop => exact .inr (becomes_of_advance h hop rfl hc)
  | @notifyAll i mover e entries k h hop he =>
    rcases List.getElem?_set_cases hc with ⟨rfl, rfl⟩ | ⟨_, hc⟩
    · exact .inr ⟨mover, h, .inr (.inr ⟨rfl, moved_of_next hop ⟨e, he, rfl⟩⟩)⟩
    · rw [List.getElem?_map] at hc
      obtain ⟨call, hcall, hnotified⟩ := Option.map_eq_some_iff.mp hc
      subst hnotified
      exact .inr ⟨call, hcall, (call.notified_cases e).imp_right .inl⟩
  | wakeUp expired h => exact .inr (becomes_of_set h (.inl (.relock expired)) hc)
  | expire h => exact .inr (becomes_of_set h (.inl .expire) hc)

theorem Step.length_le (hs : Step s act s') : s.calls.length ≤ s'.calls.length := by
  cases hs with
  | invoke => simp
  | acquire => simp [State.setCall, calls_acquireEntry]
  | release => simp [State.setCall, calls_releaseEntry]
  | _ => simp [State.setCall, State.setEntry]

theorem Step.becomes (hs : Step s act s') (hc : s.calls[c]? = some call) :
    ∃ call', s'.calls[c]? = some call' ∧ Becomes s act c call call' := by
  have ⟨hlt, _⟩ := List.getElem?_eq_some_iff.mp hc
  have hc' := List.getElem?_eq_getElem (hlt.trans_le hs.length_le)
  refine ⟨_, hc', ?_⟩
  rcases hs.call_cases hc' with ⟨_, _, hlen⟩ | ⟨_, hcall, hbecomes⟩
  · exact absurd hlen hlt.ne
  · cases hc.symm.trans hcall
    exact hbecomes

theorem Step.shuttingDown (h : Step s act s') (hf : s.shuttingDown) : s'.shuttingDown := by
  cases h with
  | acquire => simpa [State.setCall, shuttingDown_acquireEntry] using hf
  | release => simpa [State.setCall, shuttingDown_releaseEntry] using hf
  | exchange => rfl
  | _ => exact hf

-- What the operations of `shutdown` do to the state.
def Op.Effect (s : State) (c : CallId) (act : Action) (s' : State) : Op → Prop
  | .stop => False
  | .exchange k => act = .advance c ∧
    s' = { s with shuttingDown := true }.setCall c (k s.shuttingDown)
  | .collect k => s' = { s with table := ∅ }.setCall c (k (s.table.entries.map Sigma.snd))
  | .notifyAll entries k => ∃ e ∈ entries, act = .notifyAll c e ∧
    s' = { s with calls := s.calls.map (Call.notified e) }.setCall c (k (entries.erase e))
  | _ => True

theorem Step.effect (hs : Step s act s') (hm : act.mover = some c)
    (hc : s.calls[c]? = some call) : call.next.Effect s c act s' := by
  cases hs with
  | invoke | wakeUp | expire => nomatch hm
  | exchange h hop =>
    cases hm
    cases h.symm.trans hc
    rw [hop]
    exact ⟨rfl, rfl⟩
  | collect h hop =>
    cases hm
    cases h.symm.trans hc
    rw [hop]
    rfl
  | @notifyAll i mover e entries k h hop he =>
    cases hm
    cases h.symm.trans hc
    rw [hop]
    exact ⟨e, he, rfl, rfl⟩
  | goto h hop | load h hop | readWord _ h hop | acquire h hop | release h hop | lock h hop
  | update h hop | leave h hop | block h hop | notifyOne h hop | notifyNone h hop =>
    cases hm
    cases h.symm.trans hc
    rw [hop]
    trivial

-- The call without its position.
def Call.begun : Call → Call
  | .wait w _ => .wait w .start
  | .wake addr maxCount _ => .wake addr maxCount .start
  | .shutdown _ => .shutdown .start

def Op.Keeps (begun : Call) : Op → Prop
  | .stop => True
  | .goto call | .release _ _ call | .lock _ call | .block _ call | .notifyOne _ call =>
    call.begun = begun
  | .load k | .exchange k => ∀ b, (k b).begun = begun
  | .readWord k => ∀ word, (k word).begun = begun
  | .acquire _ _ k => ∀ e, (k e).begun = begun
  | .update _ k | .leave _ k => ∀ b ent, (k b ent).snd.begun = begun
  | .collect k | .notifyAll _ k => ∀ entries, (k entries).begun = begun

theorem Wait.next_keeps (w : Wait) (pc : WaitPc) : (w.next pc).Keeps (.wait w .start) := by
  cases pc with
  | acquire =>
    intro e
    cases e <;> rfl
  | readWord =>
    intro word
    match word with
    | none | some none | some (some _) => rfl
  | settle e signaled =>
    intro b ent
    cases signaled <;> cases b <;> rfl
  | start | lock | block | relock | release => rfl
  | checkFlag => exact fun _ => rfl
  | count | ready | unlock => exact fun _ _ => rfl
  | blocked | done => trivial

theorem wakeNext_keeps (addr : U64) (maxCount : Nat) (pc : WakePc) :
    (wakeNext addr maxCount pc).Keeps (.wake addr maxCount .start) := by
  cases pc with
  | acquire =>
    intro e
    cases e <;> rfl
  | notify e n left => cases left <;> rfl
  | lock | release => rfl
  | start | checkFlag => exact fun _ => rfl
  | grant | unlock => exact fun _ _ => rfl
  | done => trivial

theorem Call.next_keeps (call : Call) : call.next.Keeps call.begun := by
  cases call with
  | wait w pc => exact w.next_keeps pc
  | wake addr maxCount pc => exact wakeNext_keeps addr maxCount pc
  | shutdown pc =>
    cases pc with
    | notify entries =>
      cases entries with
      | nil => rfl
      | cons => exact fun _ => rfl
    | start | collect => exact fun _ => rfl
    | done => trivial

theorem Op.begun_of_result {op : Op} (hk : op.Keeps begun) (hr : op.Result s call') :
    call'.begun = begun := by
  cases op with
  | stop => exact hr.elim
  | goto | release | lock | block | notifyOne =>
    rw [show call' = _ from hr]
    exact hk
  | load | exchange | acquire | collect =>
    rw [show call' = _ from hr]
    exact hk _
  | readWord =>
    have ⟨word, hcall⟩ := hr
    exact hcall ▸ hk word
  | update | leave =>
    have ⟨ent, _, hcall⟩ := hr
    exact hcall ▸ hk _ ent
  | notifyAll =>
    have ⟨_, _, hcall⟩ := hr
    exact hcall ▸ hk _

theorem Moved.begun_eq (h : Moved s call call') : call'.begun = call.begun :=
  Op.begun_of_result call.next_keeps h

theorem Becomes.begun_eq (h : Becomes s act c call call') : call'.begun = call.begun := by
  rcases h with rfl | hwoke | ⟨_, hmoved⟩
  · rfl
  · cases hwoke <;> rfl
  · exact hmoved.begun_eq

end Prisma.FutexWaitTable
