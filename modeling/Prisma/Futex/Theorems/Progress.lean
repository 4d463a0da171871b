import Prisma.Futex.Theorems.Calls
import Prisma.Futex.Theorems.WaitTable

namespace Prisma.FutexWaitTable

open List

namespace Ledger

variable {l l' : Ledger} {c c₀ : CallId} {e k : EntryId} {v v' : View} {ent ent' : Entry}

def ownerOf (l : Ledger) (e : EntryId) : Option CallId :=
  l.entries[e]?.bind Entry.owner

-- The owner of an entry's mutex is a call that has the mutex.
def Held (l : Ledger) : Prop :=
  ∀ e c, l.ownerOf e = some c → ∃ v, l.views[c]? = some v ∧ v.entry = some e ∧ v.holds

theorem Touch.held_cases (h : l.Touch c e v ent v' ent') :
    (ent'.owner = ent.owner ∧ (v.holds → v'.holds ∧ v'.entry = v.entry)) ∨
    (v.entry = some e ∧
      (ent'.owner = none ∨ ent'.owner = some c ∧ v'.entry = some e ∧ v'.holds)) := by
  cases h with
  | enter _ _ hv => exact .inl ⟨rfl, fun hh => by simp [hv, View.begun] at hh⟩
  | giveBack _ _ hh => exact .inl ⟨rfl, fun hh' => by simp [hh] at hh'⟩
  | lock hv => exact .inr ⟨hv, .inr ⟨rfl, hv, rfl⟩⟩
  | unlock hv => exact .inr ⟨hv, .inl rfl⟩
  | _ => exact .inl ⟨rfl, fun hh => ⟨hh, rfl⟩⟩

theorem Held.set_view (h : l.Held) (hc : l.views[c]? = some v)
    (hv : v.entry = some k → v.holds → v'.entry = some k ∧ v'.holds) (ho : l.ownerOf k = some c₀) :
    ∃ u, (l.views.set c v')[c₀]? = some u ∧ u.entry = some k ∧ u.holds := by
  obtain ⟨u, hu, hentry, hholds⟩ := h k c₀ ho
  by_cases hcc : c₀ = c
  case pos =>
    subst hcc
    cases hc.symm.trans hu
    exact ⟨v', getElem?_set_of_eq_some hc, hv hentry hholds⟩
  case neg => exact ⟨u, (getElem?_set_ne (Ne.symm hcc)).trans hu, hentry, hholds⟩

theorem Held.step (h : l.Held) (hs : Step l l') : l'.Held := by
  intro k c₀ ho
  cases hs with
  | @touch c e v ent v' ent' hc he ht =>
    rw [ownerOf, getElem?_set_entry he] at ho
    by_cases hk : k = e
    case pos =>
      subst hk
      rw [if_pos rfl] at ho
      rcases ht.held_cases with ⟨hown, hv⟩ | ⟨hv, hnone | ⟨hown, hentry, hholds⟩⟩
      · have ho' : l.ownerOf k = some c₀ := by rwa [ownerOf, he, Option.bind_some, ← hown]
        exact h.set_view hc (fun hentry hh => ⟨(hv hh).right.trans hentry, (hv hh).left⟩) ho'
      · cases hnone.symm.trans ho
      · cases hown.symm.trans ho
        exact ⟨v', getElem?_set_of_eq_some hc, hentry, hholds⟩
    case neg =>
      rw [if_neg hk] at ho
      refine h.set_view hc (fun hentry hh => ?_) ho
      rcases ht.held_cases with ⟨_, hv⟩ | ⟨hv, _⟩
      · exact ⟨(hv hh).right.trans hentry, (hv hh).left⟩
      · exact absurd (Option.some.inj (hentry.symm.trans hv)) hk
  | forget hc _ _ hh => exact h.set_view hc (fun _ hh' => by simp [hh] at hh') ho
  | create hc =>
    have ho' : l.ownerOf k = some c₀ := by
      simp only [ownerOf, getElem?_append] at ho ⊢
      split at ho
      · exact ho
      · cases hn : k - l.entries.length <;> simp [hn] at ho
    exact h.set_view hc (fun _ hh => by cases hh) ho'
  | erase | close => exact h k c₀ ho
  | invoke =>
    obtain ⟨u, hu, hentry⟩ := h k c₀ ho
    obtain ⟨hlt, _⟩ := List.getElem?_eq_some_iff.mp hu
    exact ⟨u, (getElem?_append_left hlt).trans hu, hentry⟩

theorem Held.leads (h : l.Held) (hl : Leads l l') : l'.Held := by
  induction hl with
  | refl => exact h
  | tail _ hs hi => exact hi.step hs

end Ledger

variable {s s' : State} {call call' : Call} {c : CallId} {e : EntryId} {op : Op}

theorem Reachable.held (h : Reachable s) : s.ledger.Held := by
  induction h with
  | refl => exact fun e c ho => by cases ho
  | tail hr hs hi =>
    obtain ⟨_, hs⟩ := hs
    rcases hs.simulates (Reachable.sound hr).addressed with hl | ⟨_, _, _, hclear⟩
    · exact hi.leads hl
    · exact hclear ▸ hi

-- The entry that an operation needs.
def Op.entry? : Op → Option EntryId
  | .lock e _ | .update e _ | .leave e _ | .block e _ => some e
  | _ => none

theorem Call.entry_of_next (h : call.next.entry? = some e) : call.view.entry = some e := by
  cases call with
  | wait w pc => cases pc <;> first | exact h | cases h
  | wake addr n pc =>
    cases pc with
    | notify _ _ left => cases left <;> cases h
    | _ => first | exact h | cases h
  | shutdown pc =>
    cases pc with
    | notify entries => cases entries <;> cases h
    | _ => cases h

-- Whether the call can go on without waiting for a mutex.
def Op.Moves : Op → Prop
  | .stop | .lock .. | .notifyAll [] _ => False
  | _ => True

theorem Call.moves_of_holds (h : call.view.holds) : call.next.Moves := by
  cases call with
  | wait w pc => cases pc <;> trivial
  | wake addr n pc => cases pc <;> trivial
  | shutdown => cases h

theorem exists_entry (hr : Reachable s) (hc : s.calls[c]? = some call)
    (he : call.next.entry? = some e) : ∃ ent, s.entries[e]? = some ent := by
  obtain ⟨_, _, ent, he, _⟩ := hr.sound.addressed.views call.view
    (mem_map_of_mem (mem_of_getElem? hc)) e (Call.entry_of_next he)
  exact ⟨ent, he⟩

theorem exists_step_of_moves (hr : Reachable s) (hc : s.calls[c]? = some call)
    (hm : call.next.Moves) : ∃ act s', Step s act s' ∧ act.mover = some c := by
  cases hop : call.next with
  | stop | lock => simp [hop, Op.Moves] at hm
  | goto => exact ⟨_, _, .goto hc hop, rfl⟩
  | load => exact ⟨_, _, .load hc hop, rfl⟩
  | readWord => exact ⟨_, _, .readWord none hc hop, rfl⟩
  | acquire => exact ⟨_, _, .acquire hc hop, rfl⟩
  | release => exact ⟨_, _, .release hc hop, rfl⟩
  | exchange => exact ⟨_, _, .exchange hc hop, rfl⟩
  | collect => exact ⟨_, _, .collect hc hop, rfl⟩
  | update e =>
    obtain ⟨ent, he⟩ := exists_entry hr hc (by rw [hop]; rfl)
    exact ⟨_, _, .update hc hop he, rfl⟩
  | leave e =>
    obtain ⟨ent, he⟩ := exists_entry hr hc (by rw [hop]; rfl)
    exact ⟨_, _, .leave hc hop he, rfl⟩
  | block e =>
    obtain ⟨ent, he⟩ := exists_entry hr hc (by rw [hop]; rfl)
    exact ⟨_, _, .block hc hop he, rfl⟩
  | notifyOne e =>
    by_cases hb : ∃ blocked ∈ s.calls, blocked.isBlocked e
    case pos =>
      obtain ⟨blocked, hmem, hb⟩ := hb
      obtain ⟨target, ht⟩ := mem_iff_getElem?.mp hmem
      exact ⟨_, _, .notifyOne hc hop ht hb, rfl⟩
    case neg => exact ⟨_, _, .notifyNone hc hop (by simpa using hb), rfl⟩
  | notifyAll entries =>
    cases entries with
    | nil => simp [hop, Op.Moves] at hm
    | cons e => exact ⟨_, _, .notifyAll hc hop (.head _), rfl⟩

theorem Call.moves_or_lock (hn : call.next ≠ .stop) :
    call.next.Moves ∨ ∃ e call', call.next = .lock e call' := by
  cases call with
  | wait w pc => cases pc <;> first | exact .inl trivial | exact .inr ⟨_, _, rfl⟩ | cases hn rfl
  | wake addr n pc =>
    cases pc with
    | notify _ _ left => cases left <;> exact .inl trivial
    | _ => first | exact .inl trivial | exact .inr ⟨_, _, rfl⟩ | cases hn rfl
  | shutdown pc =>
    cases pc with
    | notify entries => cases entries <;> exact .inl trivial
    | _ => first | exact .inl trivial | cases hn rfl

-- Calls never wait for each other in a circle: as long as one of them has neither returned nor is
-- blocked on a condition variable, there is a call that can take a step.
theorem exists_step (hr : Reachable s) (hc : s.calls[c]? = some call) (hn : call.next ≠ .stop) :
    ∃ act s' c', Step s act s' ∧ act.mover = some c' := by
  rcases Call.moves_or_lock hn with hm | ⟨e, call', hop⟩
  · obtain ⟨act, s', hs, hmover⟩ := exists_step_of_moves hr hc hm
    exact ⟨act, s', c, hs, hmover⟩
  obtain ⟨ent, he⟩ := exists_entry hr hc (by rw [hop]; rfl)
  cases ho : ent.owner with
  | none => exact ⟨_, _, c, .lock hc hop he ho, rfl⟩
  | some c' =>
    -- the call that has the mutex does not wait for another one
    obtain ⟨v, hv, _, hh⟩ := hr.held e c' (by simp [Ledger.ownerOf, State.ledger, he, ho])
    rw [State.ledger, getElem?_map, Option.map_eq_some_iff] at hv
    obtain ⟨holder, hc', rfl⟩ := hv
    obtain ⟨act, s', hs, hmover⟩ := exists_step_of_moves hr hc' (Call.moves_of_holds hh)
    exact ⟨act, s', c', hs, hmover⟩

theorem exists_step_firstCounted : ∃ act s' c', Step firstCounted act s' ∧ act.mover = some c' :=
  exists_step (c := 0) reachable_firstCounted rfl nofun

-- At most one call at a time is between taking and giving back the mutex of an entry.

end Prisma.FutexWaitTable
