import Prisma.Futex.WaitTable

-- The accounts of the wait table: which call uses, locks or waits on which entry, and how many
-- wake-ups it has granted or consumed. Calls are only seen through these accounts, and their
-- effects on them are cut into smaller steps than the steps of the calls.

namespace Prisma.FutexWaitTable

-- `settled` is what the condition variable's `wait` has returned to a call that is still to act
-- on it.
structure View where
  addr : Option U64
  entry : Option EntryId
  holds : Bool
  counted : Bool
  settled : Option Bool
  consumed : Nat
  granted : Nat
deriving DecidableEq, Repr

structure Ledger where
  shuttingDown : Bool
  table : AList fun _ : U64 => EntryId
  entries : List Entry
  views : List View

namespace View

def begun (addr : Option U64) : View :=
  ⟨addr, none, false, false, none, 0, 0⟩

variable (v : View) (e : EntryId) (a : U64)

def usesOf : Nat :=
  if v.entry = some e then 1 else 0

def countedOn : Nat :=
  if v.entry = some e ∧ v.counted then 1 else 0

def consumedOf : Nat :=
  if v.addr = some a then v.consumed else 0

def grantedOf : Nat :=
  if v.addr = some a then v.granted else 0

end View

def Entry.creditsOf (a : U64) (ent : Entry) : Nat :=
  if ent.addr = a then ent.wakeCredits else 0

namespace Ledger

-- What a call does to its own accounts and to an entry.
inductive Touch (l : Ledger) (c : CallId) (e : EntryId) (v : View) (ent : Entry) :
    View → Entry → Prop
  | enter (hf : l.shuttingDown = false) (ht : l.table.lookup ent.addr = some e)
    (hv : v = .begun (some ent.addr)) :
    Touch l c e v ent { v with entry := some e } { ent with users := ent.users + 1 }
  | giveBack (ht : l.table.lookup ent.addr = some e) (hv : v.entry = some e)
    (hh : v.holds = false) (hc : v.counted = false) (hs : v.settled = none) :
    Touch l c e v ent { v with entry := none } { ent with users := ent.users - 1 }
  | lock (hv : v.entry = some e) (hfree : ent.owner = none) (hs : v.settled = none) :
    Touch l c e v ent { v with holds := true } { ent with owner := some c }
  | unlock (hv : v.entry = some e) (hh : v.holds) (hs : v.settled = none) :
    Touch l c e v ent { v with holds := false } { ent with owner := none }
  | count (hv : v.entry = some e) (hh : v.holds) (hc : v.counted = false) (hs : v.settled = none) :
    Touch l c e v ent { v with counted := true } { ent with waiters := ent.waiters + 1 }
  | settle (signaled : Bool) (hv : v.entry = some e) (hh : v.holds) (hc : v.counted)
    (hs : signaled ↔ l.shuttingDown ∨ ent.wakeCredits ≠ 0) :
    Touch l c e v ent { v with settled := some signaled } ent
  | timedOut (hv : v.entry = some e) (hh : v.holds) (hc : v.counted)
    (hs : v.settled = some false) :
    Touch l c e v ent { v with settled := none, counted := false }
      { ent with waiters := ent.waiters - 1 }
  | closed (hv : v.entry = some e) (hh : v.holds) (hc : v.counted) (hs : v.settled = some true)
    (hf : l.shuttingDown) :
    Touch l c e v ent { v with settled := none, counted := false }
      { ent with waiters := ent.waiters - 1 }
  | woken (hv : v.entry = some e) (hh : v.holds) (hc : v.counted) (hs : v.settled = some true)
    (hf : l.shuttingDown = false) :
    Touch l c e v ent { v with settled := none, counted := false, consumed := v.consumed + 1 }
      { ent with wakeCredits := ent.wakeCredits - 1, waiters := ent.waiters - 1 }
  | grant (n : Nat) (hv : v.entry = some e) (hh : v.holds) (hs : v.settled = none)
    (hn : n ≤ ent.waiters - ent.wakeCredits) :
    Touch l c e v ent { v with granted := v.granted + n }
      { ent with wakeCredits := ent.wakeCredits + n }

inductive Step (l : Ledger) : Ledger → Prop
  | touch {c e v ent v' ent'} (hc : l.views[c]? = some v) (he : l.entries[e]? = some ent)
    (ht : l.Touch c e v ent v' ent') :
    Step l { l with views := l.views.set c v', entries := l.entries.set e ent' }
  -- Without an effect on an entry that is not in the table any more.
  | forget {c e v addr} (hc : l.views[c]? = some v) (hv : v.entry = some e)
    (ha : v.addr = some addr) (hh : v.holds = false) (hn : v.counted = false)
    (hs : v.settled = none) (ht : l.table.lookup addr ≠ some e) :
    Step l { l with views := l.views.set c { v with entry := none } }
  | create {c addr} (hc : l.views[c]? = some (.begun (some addr)))
    (ht : l.table.lookup addr = none) :
    Step l { l with
      table := l.table.insert addr l.entries.length
      entries := l.entries ++ [⟨addr, none, 1, 0, 0⟩]
      views := l.views.set c { View.begun (some addr) with entry := some l.entries.length } }
  | erase {addr e ent} (ht : l.table.lookup addr = some e) (he : l.entries[e]? = some ent)
    (hu : ent.users = 0 ∧ ent.waiters = 0 ∧ ent.wakeCredits = 0) :
    Step l { l with table := l.table.erase addr }
  | invoke (addr : Option U64) : Step l { l with views := l.views ++ [.begun addr] }
  | close {v} (hv : v ∈ l.views) (ha : v.addr = none) : Step l { l with shuttingDown := true }

def Leads : Ledger → Ledger → Prop :=
  Relation.ReflTransGen Step

def clear (l : Ledger) : Ledger :=
  { l with table := ∅ }

end Ledger

def WaitPc.view (addr : U64) : WaitPc → View
  | .start | .acquire => .begun (some addr)
  | .lock e => { View.begun (some addr) with entry := some e }
  | .readWord e | .checkFlag e | .count e =>
    { View.begun (some addr) with entry := some e, holds := true }
  | .ready e _ | .block e =>
    { View.begun (some addr) with entry := some e, holds := true, counted := true }
  | .blocked e | .relock e _ => { View.begun (some addr) with entry := some e, counted := true }
  | .settle e signaled =>
    { View.begun (some addr) with
      entry := some e, holds := true, counted := true, settled := some signaled }
  | .unlock e result =>
    { View.begun (some addr) with
      entry := some e, holds := true, consumed := if result = some .woken then 1 else 0 }
  | .release e result =>
    { View.begun (some addr) with
      entry := some e, consumed := if result = some .woken then 1 else 0 }
  | .done result =>
    { View.begun (some addr) with consumed := if result = some .woken then 1 else 0 }

def WakePc.view (addr : U64) : WakePc → View
  | .start | .acquire => .begun (some addr)
  | .lock e => { View.begun (some addr) with entry := some e }
  | .checkFlag e | .grant e | .unlock e =>
    { View.begun (some addr) with entry := some e, holds := true }
  | .notify e n _ | .release e n => { View.begun (some addr) with entry := some e, granted := n }
  | .done n => { View.begun (some addr) with granted := n }

def Call.view : Call → View
  | .wait w pc => pc.view w.addr
  | .wake addr _ pc => pc.view addr
  | .shutdown _ => .begun none

def State.ledger (s : State) : Ledger :=
  ⟨s.shuttingDown, s.table, s.entries, s.calls.map Call.view⟩

end Prisma.FutexWaitTable
