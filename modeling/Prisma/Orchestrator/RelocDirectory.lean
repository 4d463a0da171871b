import Prisma.Orchestrator.Relocations
import Prisma.Lib.Intervals

-- What a relocation directory says: fixups, one after the other, up to its end or to the first
-- place where it makes no sense.

namespace Prisma.PeLoader

-- A number in the image that the load address is part of, of 32 or 64 bits.
structure Fixup where
  target : Nat
  wide : Bool
deriving DecidableEq

namespace Fixup

def size (f : Fixup) : Nat :=
  if f.wide then 8 else 4

instance : Extent Fixup where
  lo := target
  hi f := f.target + f.size

def number (f : Fixup) (bytes : List U8) : Nat :=
  LittleEndian.decode (bytes.slice f.target f.size)

def add (delta : U64) (f : Fixup) (bytes : List U8) : List U8 :=
  bytes.overwrite f.target (LittleEndian.encode f.size (f.number bytes + delta.toNat))

def addAll (delta : U64) (fixups : List Fixup) (bytes : List U8) : List U8 :=
  fixups.foldl (fun bytes f => f.add delta bytes) bytes

end Fixup

-- Before a block, or before an entry of a block.
inductive Position
  | block (off : Nat)
  | entry (pageRva : U32) (eo left next : Nat)

inductive Action
  | goto (next : Position)
  | add (f : Fixup) (next : Position)
  | fail (e : PeError)
  | done

-- The fixup of an entry in an image of `len` bytes.
def entryFixup (len : Nat) (pageRva : U32) (raw : U16) : Except PeError (Option Fixup) :=
  let targetRva := pageRva + (raw &&& 0x0FFF).setWidth 32
  if raw >>> 12 = 0 then .ok none
  else if raw >>> 12 = 3 then
    if targetRva.toNat + 4 ≤ len then .ok (some ⟨targetRva.toNat, false⟩)
    else .error (.relocOutOfImage targetRva)
  else if raw >>> 12 = 10 then
    if targetRva.toNat + 8 ≤ len then .ok (some ⟨targetRva.toNat, true⟩)
    else .error (.relocOutOfImage targetRva)
  else .error (.relocUnsupportedType (raw >>> 12))

def action (dirEnd : Nat) (bytes : List U8) : Position → Action
  | .block off =>
    if off + 8 ≤ dirEnd then
      let pageRva := BitVec.ofNat 32 (LittleEndian.decode (bytes.slice off 4))
      let blockSize := LittleEndian.decode (bytes.slice (off + 4) 4)
      if blockSize < 8 ∨ dirEnd < off + blockSize then .fail (.relocBlockTruncated pageRva)
      else .goto (.entry pageRva (off + 8) ((blockSize - 8) / 2) (off + blockSize))
    else .done
  | .entry _ _ 0 next => .goto (.block next)
  | .entry pageRva eo (left + 1) next =>
    let raw := BitVec.ofNat 16 (LittleEndian.decode (bytes.slice eo 2))
    match entryFixup bytes.length pageRva raw with
    | .error e => .fail e
    | .ok none => .goto (.entry pageRva (eo + 2) left next)
    | .ok (some f) => .add f (.entry pageRva (eo + 2) left next)

-- The fixups that are come to when each of them changes the image by `update`, and the error behind
-- them if there is one.
inductive Visits (dirEnd : Nat) (update : Fixup → List U8 → List U8) :
    Position → List U8 → List Fixup → Option PeError → Prop
  | done {pos bytes} (h : action dirEnd bytes pos = .done) : Visits dirEnd update pos bytes [] none
  | fail {pos bytes e} (h : action dirEnd bytes pos = .fail e) :
    Visits dirEnd update pos bytes [] (some e)
  | goto {pos bytes next fixups stop} (h : action dirEnd bytes pos = .goto next)
    (hnext : Visits dirEnd update next bytes fixups stop) :
    Visits dirEnd update pos bytes fixups stop
  | add {pos bytes f next fixups stop} (h : action dirEnd bytes pos = .add f next)
    (hnext : Visits dirEnd update next (update f bytes) fixups stop) :
    Visits dirEnd update pos bytes (f :: fixups) stop

section Directory

variable (img : PeImage)

def dirStart : Nat :=
  img.relocDirRva.toNat

def dirEnd : Nat :=
  dirStart img + img.relocDirSize.toNat

-- The fixups that the directory lists in these bytes.
def Lists (bytes : List U8) (fixups : List Fixup) (stop : Option PeError) : Prop :=
  Visits (dirEnd img) (fun _ bytes => bytes) (.block (dirStart img)) bytes fixups stop

-- The fixups that are come to while they are applied.
def Reaches (delta : U64) (bytes : List U8) (fixups : List Fixup) (stop : Option PeError) : Prop :=
  Visits (dirEnd img) (Fixup.add delta) (.block (dirStart img)) bytes fixups stop

end Directory

end Prisma.PeLoader
