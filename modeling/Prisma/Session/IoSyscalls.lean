import Prisma.Orchestrator.GuestMem
import Prisma.Runtime.GuestStructs

-- Reads from a descriptor that are scattered over several guest buffers.

namespace Prisma

inductive FdEntry (F : Type)
  | stdin
  | stdout
  | stderr
  | file (f : F)

structure FdTable (F : Type) where
  entries : List (Option (FdEntry F))

def FdTable.get {F : Type} (fds : FdTable F) (fd : U32) : Option (FdEntry F) :=
  if fd.toInt < 0 then none else (fds.entries[fd.toNat]?).join

namespace IoSyscalls

inductive IoError (E : Type)
  | badFd
  | invalid
  | fault (e : RangeError)
  | host (e : E)
deriving DecidableEq, Repr

-- A read of the host, which may return fewer bytes than it is asked for but not more.
structure HostRead (H E : Type) where
  run : U64 → H → Except E (List U8) × H
  short : ∀ {len host bytes host'}, run len host = (.ok bytes, host') → bytes.length ≤ len.toNat

structure HostIo (H F E : Type) where
  stdin : HostRead H E
  file : F → HostRead H E
  fileAt : F → U64 → HostRead H E

variable {H F E M : Type} [GuestMem M]

def iovMax : Nat := 1024

def decodeIovecs (array : List U8) (count : Nat) : Option (List Iovec) :=
  (List.range count).mapM fun i =>
    GuestStruct.fromGuestBytes (array.drop (i * GuestStruct.size Iovec))

def readIovecs (iovPtr : U64) (iovcnt : U32) : Stateful (IoError E) M (List Iovec) :=
  if iovcnt.toInt < 0 then Stateful.fail .invalid
  else
    let count := iovcnt.toNat
    if count = 0 then pure []
    else if count > iovMax then Stateful.fail .invalid
    else if count * GuestStruct.size Iovec ≥ 2 ^ 64 then Stateful.fail .invalid
    else do
      let array ←
        GuestMem.load .fault iovPtr (BitVec.ofNat 64 (count * GuestStruct.size Iovec))
      match decodeIovecs array count with
      | some iovs => return iovs
      | none => Stateful.fail (.fault .unmapped)

-- Adds up the lengths of the buffers, all of which must be writable.
def capacity (total : U64) : List Iovec → Stateful (IoError E) M U64
  | [] => pure total
  | iov :: iovs => do
    GuestMem.checkWritable .fault iov.base iov.len
    match total.checkedAdd iov.len with
    | none => Stateful.fail .invalid
    | some total => capacity total iovs

-- The bytes from `off` on go to these buffers.
def scatter (bytes : List U8) (off : Nat) : List Iovec → Stateful (IoError E) M Unit
  | [] => pure ()
  | iov :: iovs =>
    if off ≥ bytes.length then pure ()
    else do
      let take := min iov.len.toNat (bytes.length - off)
      GuestMem.store .fault iov.base (bytes.slice off take)
      scatter bytes (off + take) iovs

-- Panics if the buffer is larger than any allocation can be.
def readHost (source : FdEntry F → Except (IoError E) (HostRead H E)) (fds : FdTable F) (fd : U32)
    (total : U64) : Stateful (IoError E) (H × M) (List U8) := fun (host, mem) =>
  if total.toNat ≥ 2 ^ 63 then none
  else
    match fds.get fd with
    | none => some (.error .badFd, (host, mem))
    | some entry =>
      match source entry with
      | .error e => some (.error e, (host, mem))
      | .ok read =>
        match read.run total host with
        | (.error e, host) => some (.error (.host e), (host, mem))
        | (.ok bytes, host) => some (.ok bytes, (host, mem))

-- The buffers are checked before anything is read from the descriptor.
def readScattered (source : FdEntry F → Except (IoError E) (HostRead H E)) (fds : FdTable F)
    (fd : U32) (iovPtr : U64) (iovcnt : U32) : Stateful (IoError E) (H × M) Nat := do
  let iovs ← Stateful.onSnd (readIovecs iovPtr iovcnt)
  let total ← Stateful.onSnd (capacity 0 iovs)
  let bytes ← readHost source fds fd total
  Stateful.onSnd (scatter bytes 0 iovs)
  return bytes.length

variable (io : HostIo H F E)

def streamSource : FdEntry F → Except (IoError E) (HostRead H E)
  | .stdin => .ok io.stdin
  | .stdout | .stderr => .error .badFd
  | .file f => .ok (io.file f)

-- Only files have positions.
def positionSource (offset : U64) : FdEntry F → Except (IoError E) (HostRead H E)
  | .file f => .ok (io.fileAt f offset)
  | .stdin | .stdout | .stderr => .error .invalid

def readv (fds : FdTable F) (fd : U32) (iovPtr : U64) (iovcnt : U32) :
    Stateful (IoError E) (H × M) Nat :=
  readScattered (streamSource io) fds fd iovPtr iovcnt

def preadv (fds : FdTable F) (fd : U32) (iovPtr : U64) (iovcnt : U32) (offset : U64) :
    Stateful (IoError E) (H × M) Nat :=
  readScattered (positionSource io offset) fds fd iovPtr iovcnt

end IoSyscalls

end Prisma
