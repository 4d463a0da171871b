import Mathlib.Data.List.AList
import Mathlib.Logic.Relation
import Prisma.IR.Basic

-- The table of futex wait queues. Calls of its functions run on several threads, and everything
-- that one of them does while it has the table's mutex is one step here.

namespace Prisma.FutexWaitTable

abbrev EntryId := Nat

abbrev CallId := Nat

inductive Status
  | woken
  | valueMismatch
  | timedOut
  | invalidAddress
  | shutdown
deriving DecidableEq, Repr

-- The wait queue of an address. Its mutex belongs to the call `owner`.
structure Entry where
  addr : U64
  owner : Option CallId
  users : Nat
  waiters : Nat
  wakeCredits : Nat
deriving DecidableEq, Repr

structure Wait where
  addr : U64
  expected : U32
  hasReadWord : Bool
  timed : Bool
deriving DecidableEq, Repr

-- Where a call of `wait` is. There is no result if reading the word throws.
inductive WaitPc
  | start
  | acquire
  | lock (e : EntryId)
  | readWord (e : EntryId)
  | checkFlag (e : EntryId)
  | count (e : EntryId)
  | ready (e : EntryId) (expired : Bool)
  | block (e : EntryId)
  | blocked (e : EntryId)
  | relock (e : EntryId) (expired : Bool)
  | settle (e : EntryId) (signaled : Bool)
  | unlock (e : EntryId) (result : Option Status)
  | release (e : EntryId) (result : Option Status)
  | done (result : Option Status)
deriving DecidableEq, Repr

inductive WakePc
  | start
  | acquire
  | lock (e : EntryId)
  | checkFlag (e : EntryId)
  | grant (e : EntryId)
  | unlock (e : EntryId)
  | notify (e : EntryId) (wakeCount left : Nat)
  | release (e : EntryId) (wakeCount : Nat)
  | done (wakeCount : Nat)
deriving DecidableEq, Repr

inductive ShutdownPc
  | start
  | collect
  | notify (entries : List EntryId)
  | done
deriving DecidableEq, Repr

inductive Call
  | wait (w : Wait) (pc : WaitPc)
  | wake (addr : U64) (maxCount : Nat) (pc : WakePc)
  | shutdown (pc : ShutdownPc)
deriving DecidableEq, Repr

-- What a call does next. The functions take what it gets from the shared state: the flag
-- `shutting_down`, the word of the guest, an entry.
inductive Op
  | stop
  | goto (call : Call)
  | load (k : Bool → Call)
  | readWord (k : Option (Option U32) → Call)
  | acquire (addr : U64) (create : Bool) (k : Option EntryId → Call)
  | release (addr : U64) (e : EntryId) (call : Call)
  | lock (e : EntryId) (call : Call)
  | update (e : EntryId) (k : Bool → Entry → Entry × Call)
  | leave (e : EntryId) (k : Bool → Entry → Entry × Call)
  | block (e : EntryId) (call : Call)
  | notifyOne (e : EntryId) (call : Call)
  | exchange (k : Bool → Call)
  | collect (k : List EntryId → Call)
  | notifyAll (entries : List EntryId) (k : List EntryId → Call)

-- `ready` to `relock` are the loop of the condition variable's `wait` and `wait_for`, which looks
-- at the predicate once more after a timeout.
def Wait.next (w : Wait) : WaitPc → Op
  | .start =>
    .goto (.wait w (if w.addr.toNat % 4 ≠ 0 ∨ !w.hasReadWord then .done (some .invalidAddress)
      else .acquire))
  | .acquire =>
    .acquire w.addr true fun
      | none => .wait w (.done (some .shutdown))
      | some e => .wait w (.lock e)
  | .lock e => .lock e (.wait w (.readWord e))
  | .readWord e =>
    .readWord fun
      | none => .wait w (.unlock e none)
      | some none => .wait w (.unlock e (some .invalidAddress))
      | some (some observed) =>
        .wait w (if observed ≠ w.expected then .unlock e (some .valueMismatch) else .checkFlag e)
  | .checkFlag e =>
    .load fun shuttingDown =>
      .wait w (if shuttingDown then .unlock e (some .shutdown) else .count e)
  | .count e =>
    .update e fun _ ent => ({ ent with waiters := ent.waiters + 1 }, .wait w (.ready e false))
  | .ready e expired =>
    .update e fun shuttingDown ent =>
      (ent, .wait w (if shuttingDown ∨ ent.wakeCredits ≠ 0 then .settle e true
        else if expired then .settle e false else .block e))
  | .block e => .block e (.wait w (.blocked e))
  | .blocked _ => .stop
  | .relock e expired => .lock e (.wait w (.ready e expired))
  | .settle e signaled =>
    .leave e fun shuttingDown ent =>
      if !signaled then
        ({ ent with waiters := ent.waiters - 1 }, .wait w (.release e (some .timedOut)))
      else if shuttingDown then
        ({ ent with waiters := ent.waiters - 1 }, .wait w (.release e (some .shutdown)))
      else
        ({ ent with wakeCredits := ent.wakeCredits - 1, waiters := ent.waiters - 1 },
          .wait w (.release e (some .woken)))
  | .unlock e result => .leave e fun _ ent => (ent, .wait w (.release e result))
  | .release e result => .release w.addr e (.wait w (.done result))
  | .done _ => .stop

def wakeNext (addr : U64) (maxCount : Nat) : WakePc → Op
  | .start =>
    .load fun shuttingDown =>
      .wake addr maxCount (if maxCount = 0 ∨ shuttingDown then .done 0 else .acquire)
  | .acquire =>
    .acquire addr false fun
      | none => .wake addr maxCount (.done 0)
      | some e => .wake addr maxCount (.lock e)
  | .lock e => .lock e (.wake addr maxCount (.checkFlag e))
  | .checkFlag e =>
    .load fun shuttingDown =>
      .wake addr maxCount (if shuttingDown then .unlock e else .grant e)
  | .grant e =>
    .leave e fun _ ent =>
      let wakeCount := min maxCount (ent.waiters - ent.wakeCredits)
      ({ ent with wakeCredits := ent.wakeCredits + wakeCount },
        .wake addr maxCount (.notify e wakeCount wakeCount))
  | .unlock e => .leave e fun _ ent => (ent, .wake addr maxCount (.release e 0))
  | .notify e wakeCount 0 => .goto (.wake addr maxCount (.release e wakeCount))
  | .notify e wakeCount (left + 1) =>
    .notifyOne e (.wake addr maxCount (.notify e wakeCount left))
  | .release e wakeCount => .release addr e (.wake addr maxCount (.done wakeCount))
  | .done _ => .stop

def shutdownNext : ShutdownPc → Op
  | .start => .exchange fun wasShuttingDown =>
    .shutdown (if wasShuttingDown then .done else .collect)
  | .collect => .collect fun entries => .shutdown (.notify entries)
  | .notify [] => .goto (.shutdown .done)
  | .notify (e :: entries) => .notifyAll (e :: entries) fun rest => .shutdown (.notify rest)
  | .done => .stop

def Call.next : Call → Op
  | .wait w pc => w.next pc
  | .wake addr maxCount pc => wakeNext addr maxCount pc
  | .shutdown pc => shutdownNext pc

def Call.isStart : Call → Bool
  | .wait _ pc => pc = .start
  | .wake _ _ pc => pc = .start
  | .shutdown pc => pc = .start

-- A call that is blocked on this entry's condition variable goes on with taking the mutex.
def Call.notified (e : EntryId) : Call → Call
  | .wait w (.blocked e') => .wait w (if e' = e then .relock e false else .blocked e')
  | call => call

def Call.isBlocked (e : EntryId) : Call → Bool
  | .wait _ (.blocked e') => e' = e
  | _ => false

structure State where
  shuttingDown : Bool
  table : AList fun _ : U64 => EntryId
  entries : List Entry
  calls : List Call

namespace State

def new : State :=
  ⟨false, ∅, [], []⟩

variable (s : State)

def setCall (c : CallId) (call : Call) : State :=
  { s with calls := s.calls.set c call }

def setEntry (e : EntryId) (ent : Entry) : State :=
  { s with entries := s.entries.set e ent }

def acquireEntry (addr : U64) (create : Bool) : State × Option EntryId :=
  if s.shuttingDown then (s, none)
  else
    match s.table.lookup addr with
    | some e => ({ s with entries := s.entries.modify e fun ent =>
        { ent with users := ent.users + 1 } }, some e)
    | none =>
      if !create then (s, none)
      else
        ({ s with
          table := s.table.insert addr s.entries.length
          entries := s.entries ++ [⟨addr, none, 1, 0, 0⟩] }, some s.entries.length)

-- Only an entry that is still in the table is given back.
def releaseEntry (addr : U64) (e : EntryId) : State :=
  match s.table.lookup addr, s.entries[e]? with
  | some e', some ent =>
    if e' ≠ e then s
    else
      let ent := { ent with users := ent.users - 1 }
      let s := s.setEntry e ent
      if ent.users = 0 ∧ ent.waiters = 0 ∧ ent.wakeCredits = 0 then
        { s with table := s.table.erase addr }
      else s
  | _, _ => s

end State

inductive Action
  | invoke (call : Call)
  | advance (c : CallId)
  | notifyAll (c : CallId) (e : EntryId)
  | wakeUp (c : CallId)
deriving DecidableEq

-- A condition variable wakes a call on a notification, after a timeout or for no reason. After a
-- timeout the call may find out late that its time is over.
inductive Step (s : State) : Action → State → Prop
  | invoke {call} (h : call.isStart) : Step s (.invoke call) { s with calls := s.calls ++ [call] }
  | goto {c call call'} (h : s.calls[c]? = some call) (hop : call.next = .goto call') :
    Step s (.advance c) (s.setCall c call')
  | load {c call k} (h : s.calls[c]? = some call) (hop : call.next = .load k) :
    Step s (.advance c) (s.setCall c (k s.shuttingDown))
  | readWord {c call k} (word : Option (Option U32)) (h : s.calls[c]? = some call)
    (hop : call.next = .readWord k) : Step s (.advance c) (s.setCall c (k word))
  | acquire {c call addr create k} (h : s.calls[c]? = some call)
    (hop : call.next = .acquire addr create k) :
    Step s (.advance c)
      ((s.acquireEntry addr create).fst.setCall c (k (s.acquireEntry addr create).snd))
  | release {c call addr e call'} (h : s.calls[c]? = some call)
    (hop : call.next = .release addr e call') :
    Step s (.advance c) ((s.releaseEntry addr e).setCall c call')
  | lock {c call e ent call'} (h : s.calls[c]? = some call) (hop : call.next = .lock e call')
    (he : s.entries[e]? = some ent) (hfree : ent.owner = none) :
    Step s (.advance c) ((s.setEntry e { ent with owner := some c }).setCall c call')
  | update {c call e ent k} (h : s.calls[c]? = some call) (hop : call.next = .update e k)
    (he : s.entries[e]? = some ent) :
    Step s (.advance c)
      ((s.setEntry e (k s.shuttingDown ent).fst).setCall c (k s.shuttingDown ent).snd)
  | leave {c call e ent k} (h : s.calls[c]? = some call) (hop : call.next = .leave e k)
    (he : s.entries[e]? = some ent) :
    Step s (.advance c)
      ((s.setEntry e { (k s.shuttingDown ent).fst with owner := none }).setCall c
        (k s.shuttingDown ent).snd)
  | block {c call e ent call'} (h : s.calls[c]? = some call) (hop : call.next = .block e call')
    (he : s.entries[e]? = some ent) :
    Step s (.advance c) ((s.setEntry e { ent with owner := none }).setCall c call')
  | notifyOne {c call e call' target blocked} (h : s.calls[c]? = some call)
    (hop : call.next = .notifyOne e call') (ht : s.calls[target]? = some blocked)
    (hb : blocked.isBlocked e) :
    Step s (.advance c) ((s.setCall target (blocked.notified e)).setCall c call')
  | notifyNone {c call e call'} (h : s.calls[c]? = some call)
    (hop : call.next = .notifyOne e call') (hn : ∀ call ∈ s.calls, !call.isBlocked e) :
    Step s (.advance c) (s.setCall c call')
  | exchange {c call k} (h : s.calls[c]? = some call) (hop : call.next = .exchange k) :
    Step s (.advance c) ({ s with shuttingDown := true }.setCall c (k s.shuttingDown))
  | collect {c call k} (h : s.calls[c]? = some call) (hop : call.next = .collect k) :
    Step s (.advance c) ({ s with table := ∅ }.setCall c (k (s.table.entries.map Sigma.snd)))
  | notifyAll {c call e entries k} (h : s.calls[c]? = some call)
    (hop : call.next = .notifyAll entries k) (he : e ∈ entries) :
    Step s (.notifyAll c e)
      ({ s with calls := s.calls.map (Call.notified e) }.setCall c (k (entries.erase e)))
  | wakeUp {c w e} (expired : Bool) (h : s.calls[c]? = some (.wait w (.blocked e)))
    (ht : expired → w.timed) : Step s (.wakeUp c) (s.setCall c (.wait w (.relock e expired)))
  | expire {c w e} (h : s.calls[c]? = some (.wait w (.relock e false))) (ht : w.timed) :
    Step s (.wakeUp c) (s.setCall c (.wait w (.relock e true)))

-- The states after any number of steps.
def Leads (s s' : State) : Prop :=
  Relation.ReflTransGen (fun s s' => ∃ act, Step s act s') s s'

def Reachable (s : State) : Prop :=
  Leads .new s

end Prisma.FutexWaitTable
