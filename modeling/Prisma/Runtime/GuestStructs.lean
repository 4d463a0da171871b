import Prisma.IR.Basic
import Prisma.Lib.LittleEndian
import Prisma.Lib.Slices

-- Structures of the guest's kernel interface as bytes of guest memory.

namespace Prisma

class GuestStruct (α : Type) where
  size : Nat
  toGuestBytes : α → List U8
  fromGuestBytes : List U8 → Option α

namespace GuestStruct

-- A little-endian field.
def field (w : Nat) (bytes : List U8) (off : Nat) : BitVec (8 * w) :=
  BitVec.ofNat (8 * w) (LittleEndian.decode (bytes.slice off w))

def fieldBytes (w : Nat) (v : BitVec (8 * w)) : List U8 :=
  LittleEndian.encode w v.toNat

end GuestStruct

open GuestStruct

structure Timeval where
  sec : U64
  usec : U64
deriving DecidableEq, Repr

instance : GuestStruct Timeval where
  size := 16
  toGuestBytes t := fieldBytes 8 t.sec ++ fieldBytes 8 t.usec
  fromGuestBytes bytes :=
    if 16 ≤ bytes.length then some ⟨field 8 bytes 0, field 8 bytes 8⟩ else none

structure ITimerval where
  interval : Timeval
  value : Timeval
deriving DecidableEq, Repr

instance : GuestStruct ITimerval where
  size := 32
  toGuestBytes t := toGuestBytes t.interval ++ toGuestBytes t.value
  fromGuestBytes bytes :=
    if 32 ≤ bytes.length then do
      let interval ← fromGuestBytes (bytes.slice 0 16)
      let value ← fromGuestBytes (bytes.slice 16 16)
      return ⟨interval, value⟩
    else none

-- Four bytes of padding follow the flags.
structure SigAltStack where
  sp : U64
  flags : U32
  size : U64
deriving DecidableEq, Repr

instance : GuestStruct SigAltStack where
  size := 24
  toGuestBytes s :=
    fieldBytes 8 s.sp ++ fieldBytes 4 s.flags ++ List.replicate 4 0 ++ fieldBytes 8 s.size
  fromGuestBytes bytes :=
    if 24 ≤ bytes.length then some ⟨field 8 bytes 0, field 4 bytes 8, field 8 bytes 16⟩ else none

structure Iovec where
  base : U64
  len : U64
deriving DecidableEq, Repr

instance : GuestStruct Iovec where
  size := 16
  toGuestBytes v := fieldBytes 8 v.base ++ fieldBytes 8 v.len
  fromGuestBytes bytes :=
    if 16 ≤ bytes.length then some ⟨field 8 bytes 0, field 8 bytes 8⟩ else none

end Prisma
