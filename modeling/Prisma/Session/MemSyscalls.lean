import Prisma.Orchestrator.BackedAddressSpace

-- The memory calls of the guest's kernel interface.

namespace Prisma.MemSyscalls

def protWrite : BitVec 32 := 0x2

def protExec : BitVec 32 := 0x4

def mmapMinAddr : U64 := 0x10000

def maxMapBytes : U64 := 256 * 1024 * 1024

inductive MemError
  | noMemory
  | invalid
deriving DecidableEq

def protectionFromProt (prot : BitVec 32) : Protection :=
  match decide (prot &&& protWrite ≠ 0), decide (prot &&& protExec ≠ 0) with
  | true, true => .readWriteExecute
  | true, false => .readWrite
  | false, true => .readExecute
  | false, false => .readOnly

variable (mem : BackedAddressSpace)

-- First fit above the lowest address that is given out. The host's panic is `none`.
def mmapAnywhere (len : U64) (protection : Protection) :
    Option (Except MemError U64 × BackedAddressSpace) := do
  match ← mem.mmapAnon len mmapMinAddr protection with
  | (.ok base, mem) => return (.ok base, mem)
  | (.error (.noSpace _), mem) => return (.error .noMemory, mem)
  | (.error _, mem) => return (.error .invalid, mem)

def mmap (addr len : U64) (prot : BitVec 32) : Option (Except MemError U64 × BackedAddressSpace) :=
  if len = 0 then some (.error .invalid, mem)
  else if len > maxMapBytes then some (.error .noMemory, mem)
  else
    let protection := protectionFromProt prot
    if addr ≥ mmapMinAddr then do
      match ← mem.map addr len protection with
      | (.ok (), mem) => return (.ok addr, mem)
      | (.error _, mem) => mmapAnywhere mem len protection
    else mmapAnywhere mem len protection

end Prisma.MemSyscalls
