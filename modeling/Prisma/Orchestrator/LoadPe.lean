import Prisma.Orchestrator.Imports
import Prisma.Orchestrator.Relocations

-- Binding of imports and the whole way from a file to an image.

namespace Prisma

structure ExportedSymbol where
  name : Text
  rva : U32
  ordinal : U16
deriving DecidableEq

structure LoadedModule where
  name : Text
  base : U64
  exports : List ExportedSymbol
deriving DecidableEq

namespace LoadedModule

variable (module : LoadedModule)

def resolve (symbol : Text) : Option U64 := do
  let e ← module.exports.find? (·.name = symbol)
  module.base.checkedAdd (e.rva.setWidth 64)

def resolveOrdinal (ordinal : U16) : Option U64 := do
  let e ← module.exports.find? (·.ordinal = ordinal)
  module.base.checkedAdd (e.rva.setWidth 64)

end LoadedModule

-- One module for each name, in lower case.
structure ModuleTable where
  modules : List (Text × LoadedModule)

namespace ModuleTable

def normalize (name : Text) : Text :=
  name.map fun b => if 0x41 ≤ b ∧ b ≤ 0x5A then b + 0x20 else b

def get (table : ModuleTable) (name : Text) : Option LoadedModule :=
  (table.modules.find? (·.fst = normalize name)).map (·.snd)

end ModuleTable

inductive ImportError
  | unresolved (library symbol : Text)
deriving DecidableEq

structure ImportRequest where
  library : Text
  kind : ImportSymbol

-- `#` and the number stand for an ordinal.
def ImportSymbol.display : ImportSymbol → Text
  | name n => n
  | ordinal o => 0x23 :: (Nat.toDigits 10 o.toNat).map fun c => BitVec.ofNat 8 c.toNat

structure ResolvedImport where
  library : Text
  symbol : Text
  address : U64

def resolveImports (table : ModuleTable) :
    List ImportRequest → Except ImportError (List ResolvedImport)
  | [] => .ok []
  | req :: reqs => do
    let address : Option U64 := do
      let m ← table.get req.library
      match req.kind with
      | .name name => m.resolve name
      | .ordinal ordinal => m.resolveOrdinal ordinal
    match address with
    | none => .error (.unresolved req.library req.kind.display)
    | some address =>
      let resolved ← resolveImports table reqs
      return ⟨req.library, req.kind.display, address⟩ :: resolved

structure IatPatch where
  slotVa : U64
  value : U64
deriving DecidableEq

inductive IatError
  | slotBelowBase (slot base : U64)
  | slotOutOfRange (slot : U64)
deriving DecidableEq

-- The slots before a bad one stay patched.
def applyIatPatches (imageBase : U64) :
    List IatPatch → List U8 → Except IatError Unit × List U8
  | [], image => (.ok (), image)
  | patch :: patches, image =>
    match patch.slotVa.checkedSub imageBase with
    | none => (.error (.slotBelowBase patch.slotVa imageBase), image)
    | some offset =>
      match offset.checkedAddNat 8 with
      | none => (.error (.slotOutOfRange patch.slotVa), image)
      | some stop =>
        if stop.toNat ≤ image.length then
          applyIatPatches imageBase patches
            (image.overwrite offset.toNat (LittleEndian.encode 8 patch.value.toNat))
        else (.error (.slotOutOfRange patch.slotVa), image)

inductive LoadError
  | pe (e : PeError)
  | unresolvedImport (e : ImportError)
  | iat (e : IatError)
  | iatSlotOverflow (dll : Text)
deriving DecidableEq

namespace LoadPe

abbrev Load := Fallible LoadError

def liftPe {α : Type} (m : PeLoader.Parse α) : Load α :=
  ExceptT.mk (m.run.map (Except.mapError .pe))

section Patches

variable (modules : ModuleTable) (base : U64) (thunkWidth : U32) (imp : PeImport)

def importPatch (index : Nat) (sym : ImportSymbol) : Load IatPatch := do
  let resolved ← ExceptT.mk (some ((resolveImports modules [⟨imp.dll, sym⟩]).mapError
    .unresolvedImport))
  let slotRva ← Fallible.orFail (.iatSlotOverflow imp.dll) (imp.iatSlotRva index thunkWidth)
  let slotAddr ← Fallible.orFail (.iatSlotOverflow imp.dll)
    (base.checkedAdd (slotRva.setWidth 64))
  let first ← Fallible.orAbort resolved.head?
  return ⟨slotAddr, first.address⟩

def importPatches : Nat → List ImportSymbol → Load (List IatPatch)
  | _, [] => return []
  | index, sym :: syms => do
    let patch ← importPatch modules base thunkWidth imp index sym
    let patches ← importPatches (index + 1) syms
    return patch :: patches

end Patches

def collectPatches (modules : ModuleTable) (base : U64) (thunkWidth : U32) :
    List PeImport → Load (List IatPatch)
  | [] => return []
  | imp :: imports => do
    let patches ← importPatches modules base thunkWidth imp 0 imp.symbols
    let rest ← collectPatches modules base thunkWidth imports
    return patches ++ rest

section Load

variable (utf8Lossy : List U8 → Text) (file : List U8) (modules : ModuleTable)

-- The image before its slots are written, and what is to be written.
def loadPatches : Load (PeImage × U64 × MappedImage × List IatPatch) := do
  let img ← liftPe (PeLoader.parse file)
  let mapped ← liftPe (PeLoader.mapImage img file)
  let base := mapped.base
  let (relocated, mapped) ← Fallible.orAbort (PeLoader.applyRelocations img mapped base)
  let _ ← ExceptT.mk (some (relocated.mapError .pe))
  let imports ← liftPe (PeLoader.parseImports utf8Lossy img file)
  let thunkWidth : U32 := if img.pe32Plus then 8 else 4
  let patches ← collectPatches modules base thunkWidth imports
  return (img, base, mapped, patches)

end Load

end LoadPe

end Prisma
