import Prisma.Orchestrator.GuestMem
import Prisma.Runtime.GuestSignal

-- Calls that report a value to the guest and install another one from it.

namespace Prisma

open GuestStruct

section Exchange

variable {M ε α : Type} [GuestMem M] [GuestStruct α] (fault : RangeError → ε)

-- A null pointer skips its half of the call.
def reportOld (oldPtr : U64) (current : α) : Stateful ε M Unit :=
  if oldPtr = 0 then pure () else GuestMem.store fault oldPtr (toGuestBytes current)

def fetchNew (newPtr : U64) : Stateful ε M (Option α) :=
  if newPtr = 0 then pure none
  else do
    let bytes ← GuestMem.load fault newPtr (BitVec.ofNat 64 (size α))
    match fromGuestBytes bytes with
    | some new => return some new
    | none => Stateful.fail (fault .unmapped)

-- The current value goes to the old pointer before the new one is read.
def exchange (newPtr oldPtr : U64) (current : α) : Stateful ε M (Option α) := do
  reportOld fault oldPtr current
  fetchNew fault newPtr

end Exchange

namespace SigSyscalls

variable {M : Type} [GuestMem M]

inductive SigError
  | badHow (how : U32)
  | badSignal (sig : U32)
  | fault (e : RangeError)
deriving DecidableEq, Repr

-- An unknown `how` is refused before anything is written.
def rtSigprocmask (how : U32) (setAddr oldsetAddr : U64) :
    Stateful SigError (SignalState × M) Unit := fun (state, mem) =>
  match if setAddr = 0 then some none else (SigprocmaskHow.fromRaw how).map some with
  | none => some (.error (.badHow how), (state, mem))
  | some how =>
    match exchange SigError.fault setAddr oldsetAddr state.blocked mem with
    | none => none
    | some (.error e, mem) => some (.error e, (state, mem))
    | some (.ok new, mem) =>
      match how, new with
      | some how, some new => some (.ok (), (state.setMask how new, mem))
      | _, _ => some (.ok (), (state, mem))

def rtSigaction (sig : U32) (actAddr oldactAddr : U64) :
    Stateful SigError (SignalState × M) Unit := fun (state, mem) =>
  match state.action sig with
  | none => some (.error (.badSignal sig), (state, mem))
  | some current =>
    match exchange SigError.fault actAddr oldactAddr current mem with
    | none => none
    | some (.error e, mem) => some (.error e, (state, mem))
    | some (.ok none, mem) => some (.ok (), (state, mem))
    | some (.ok (some new), mem) =>
      match state.setAction sig new with
      | some state => some (.ok (), (state, mem))
      | none => some (.error (.badSignal sig), (state, mem))

def sigaltstack (ssPtr oldSsPtr : U64) (current : SigAltStack) : Stateful SigError M SigAltStack := do
  let new ← exchange .fault ssPtr oldSsPtr current
  return new.getD current

end SigSyscalls

namespace TimeSyscalls

variable {M : Type} [GuestMem M]

inductive TimeError
  | fault (e : RangeError)
deriving DecidableEq, Repr

def setitimer (newPtr oldPtr : U64) (current : ITimerval) : Stateful TimeError M ITimerval := do
  let new ← exchange .fault newPtr oldPtr current
  return new.getD current

end TimeSyscalls

end Prisma
