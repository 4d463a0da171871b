import Mathlib.Logic.Function.Basic
import Prisma.Runtime.GuestStructs

-- The guest's signal mask and signal dispositions.

namespace Prisma

open GuestStruct

def sigkill : U32 := 9

def sigstop : U32 := 19

structure Sigset where
  bits : U64
deriving DecidableEq, Repr

inductive SigprocmaskHow
  | block
  | unblock
  | setMask
deriving DecidableEq, Repr

def SigprocmaskHow.fromRaw (how : U32) : Option SigprocmaskHow :=
  if how = 0 then some .block
  else if how = 1 then some .unblock
  else if how = 2 then some .setMask
  else none

def validSignal (sig : U32) : Bool :=
  1 ≤ sig && sig ≤ 64

namespace Sigset

def empty : Sigset :=
  ⟨0⟩

def bit (sig : U32) : Option U64 :=
  if validSignal sig then some (1 <<< (sig - 1).toNat) else none

def contains (set : Sigset) (sig : U32) : Bool :=
  match bit sig with
  | some b => set.bits &&& b != 0
  | none => false

-- The signals that can never be blocked are left out of the result.
def apply (set : Sigset) (how : SigprocmaskHow) (arg : Sigset) : Sigset :=
  let bits :=
    match how with
    | .block => set.bits ||| arg.bits
    | .unblock => set.bits &&& ~~~arg.bits
    | .setMask => arg.bits
  match bit sigkill, bit sigstop with
  | some k, some s => ⟨bits &&& ~~~(k ||| s)⟩
  | _, _ => ⟨bits⟩

end Sigset

instance : GuestStruct Sigset where
  size := 8
  toGuestBytes s := fieldBytes 8 s.bits
  fromGuestBytes bytes := if 8 ≤ bytes.length then some ⟨field 8 bytes 0⟩ else none

structure SigAction where
  handler : U64
  flags : U64
  restorer : U64
  mask : Sigset
deriving DecidableEq, Repr

instance : GuestStruct SigAction where
  size := 32
  toGuestBytes a :=
    fieldBytes 8 a.handler ++ fieldBytes 8 a.flags ++ fieldBytes 8 a.restorer ++
      fieldBytes 8 a.mask.bits
  fromGuestBytes bytes :=
    if 32 ≤ bytes.length then
      some ⟨field 8 bytes 0, field 8 bytes 8, field 8 bytes 16, ⟨field 8 bytes 24⟩⟩
    else none

-- A signal without an action has the default one.
structure SignalState where
  pending : List U32
  blocked : Sigset
  actions : U32 → Option SigAction

namespace SignalState

def new : SignalState :=
  ⟨[], .empty, fun _ => none⟩

variable (state : SignalState)

def raise (sig : U32) : SignalState :=
  { state with pending := state.pending ++ [sig] }

def setMask (how : SigprocmaskHow) (set : Sigset) : SignalState :=
  { state with blocked := state.blocked.apply how set }

-- `pop_deliverable` of the queue.
def nextDeliverable : Option U32 × SignalState :=
  match state.pending.findIdx? (!state.blocked.contains ·) with
  | none => (none, state)
  | some idx => (state.pending[idx]?, { state with pending := state.pending.eraseIdx idx })

def action (sig : U32) : Option SigAction :=
  if validSignal sig then some ((state.actions sig).getD ⟨0, 0, 0, .empty⟩) else none

-- Returns nothing if the action of the signal cannot be changed.
def setAction (sig : U32) (act : SigAction) : Option SignalState :=
  if !validSignal sig || sig = sigkill || sig = sigstop then none
  else some { state with actions := Function.update state.actions sig (some act) }

end SignalState

end Prisma
