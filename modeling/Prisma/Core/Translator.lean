import Prisma.Core.JitPool
import Prisma.IR.Basic

-- The translator facade of the C++ core: the records of the translated blocks and the tail branches
-- that are patched from one block to another.

namespace Prisma.Core

def fnv1a64 (bytes : List U8) : U64 :=
  bytes.foldl (fun h b => (h ^^^ b.setWidth 64) * 0x100000001b3) 0xcbf29ce484222325

inductive TranslateError
  | decodeFailed
  | lowerFailed
  | emptyInput
  | jitAllocFailed
deriving DecidableEq, Repr

inductive BlockExitKind
  | none
  | ret
  | jumpRel
  | jumpReg
  | condJumpRel
  | callRel
  | callReg
  | retAdjusted
  | repStos
  | repMovs
  | syscall
deriving DecidableEq, Repr

structure ExitMetadata where
  kind : BlockExitKind
  targetGuestPc : U64
  fallthroughGuestPc : U64
  returnGuestPc : U64
deriving DecidableEq, Repr

structure DirectPatchSite where
  available : Bool
  autoPatchSafe : Bool
  branchOffset : Nat
  fallbackOffset : Nat
  targetGuestPc : U64
deriving DecidableEq, Repr

structure TranslatedBlock where
  codeEntry : U64
  codeSize : Nat
  guestSize : Nat
  fromCache : Bool
  exit : ExitMetadata
  directPatch : DirectPatchSite
deriving DecidableEq, Repr

inductive DirectPatchResult
  | ok
  | sourceMissing
  | targetMissing
  | sourceNotPatchable
  | targetMismatch
  | selfTarget
  | wouldCreateChain
  | patchFailed
deriving DecidableEq, Repr

structure Record where
  entry : U64
  jitBlock : JitBlock
  codeSize : Nat
  guestSize : Nat
  contentHash : U64
  exit : ExitMetadata
  directPatch : DirectPatchSite
  directPatchApplied : Bool
deriving DecidableEq, Repr

namespace Record

def translatedBlock (record : Record) (fromCache : Bool) : TranslatedBlock where
  codeEntry := record.entry
  codeSize := record.codeSize
  guestSize := record.guestSize
  fromCache := fromCache
  exit := record.exit
  directPatch := record.directPatch

end Record

-- What decoder, passes and lowerer make of the guest bytes: the words up to the tail of the
-- epilogue, and what the translator asks about the optimised statements.
structure LoweredBlock where
  consumed : Nat
  exit : ExitMetadata
  hasTerminator : Bool
  mayWriteGuestMemory : Bool
  words : List U32
deriving DecidableEq, Repr

abbrev Compiler := U64 → List U8 → Except TranslateError LoweredBlock

structure Translator where
  pool : JitSlabPool
  byAddr : AList fun _ : U64 => Record
  directPatchIncoming : AList fun _ : U64 => List U64

namespace Translator

def new : Translator where
  pool := .new
  byAddr := ∅
  directPatchIncoming := ∅

section Patch

def hasIncomingDirectPatch (targetGuestPc : U64) (tr : Translator) : Bool :=
  !((tr.directPatchIncoming.lookup targetGuestPc).getD []).isEmpty

def addIncoming (targetGuestPc sourceGuestPc : U64) (tr : Translator) : Translator :=
  let sources := (tr.directPatchIncoming.lookup targetGuestPc).getD []
  { tr with
    directPatchIncoming := tr.directPatchIncoming.insert targetGuestPc
      (if sourceGuestPc ∈ sources then sources else sources ++ [sourceGuestPc]) }

def removeIncoming (targetGuestPc sourceGuestPc : U64) (tr : Translator) : Translator :=
  match tr.directPatchIncoming.lookup targetGuestPc with
  | none => tr
  | some sources =>
    let sources := sources.filter (· ≠ sourceGuestPc)
    { tr with
      directPatchIncoming :=
        if sources.isEmpty then tr.directPatchIncoming.erase targetGuestPc
        else tr.directPatchIncoming.insert targetGuestPc sources }

def setApplied (sourceGuestPc : U64) (source : Record) (pool : JitSlabPool) (applied : Bool)
    (tr : Translator) : Translator :=
  { tr with
    pool := pool
    byAddr := tr.byAddr.insert sourceGuestPc { source with directPatchApplied := applied } }

def patchDirectExit (sourceGuestPc targetGuestPc : U64) (tr : Translator) :
    DirectPatchResult × Translator :=
  if sourceGuestPc = targetGuestPc then (.selfTarget, tr)
  else
    match tr.byAddr.lookup sourceGuestPc with
    | none => (.sourceMissing, tr)
    | some source =>
      match tr.byAddr.lookup targetGuestPc with
      | none => (.targetMissing, tr)
      | some target =>
        if !source.directPatch.available then (.sourceNotPatchable, tr)
        else if !source.directPatch.autoPatchSafe then (.sourceNotPatchable, tr)
        else if source.directPatch.targetGuestPc ≠ targetGuestPc then (.targetMismatch, tr)
        else if source.directPatchApplied then
          (.ok, tr.addIncoming targetGuestPc sourceGuestPc)
        else if tr.hasIncomingDirectPatch sourceGuestPc || target.directPatchApplied then
          (.wouldCreateChain, tr)
        else
          match tr.pool.patchAarch64Branch source.jitBlock source.directPatch.branchOffset
              target.entry with
          | (.patched, pool) =>
            (.ok, (tr.setApplied sourceGuestPc source pool true).addIncoming targetGuestPc
              sourceGuestPc)
          | _ => (.patchFailed, tr)

def unpatchDirectExit (sourceGuestPc : U64) (tr : Translator) : DirectPatchResult × Translator :=
  match tr.byAddr.lookup sourceGuestPc with
  | none => (.sourceMissing, tr)
  | some source =>
    if !source.directPatch.available then (.sourceNotPatchable, tr)
    else if !source.directPatchApplied then (.ok, tr)
    else
      let fallback := source.entry + BitVec.ofNat 64 source.directPatch.fallbackOffset
      match tr.pool.patchAarch64Branch source.jitBlock source.directPatch.branchOffset fallback with
      | (.patched, pool) =>
        (.ok, (tr.setApplied sourceGuestPc source pool false).removeIncoming
          source.directPatch.targetGuestPc sourceGuestPc)
      | _ => (.patchFailed, tr)

def directExitIsPatched (sourceGuestPc : U64) (tr : Translator) : Bool :=
  (tr.byAddr.lookup sourceGuestPc).any (·.directPatchApplied)

def activeDirectPatchTarget (sourceGuestPc : U64) (tr : Translator) : Option TranslatedBlock := do
  let source ← tr.byAddr.lookup sourceGuestPc
  if source.directPatchApplied then
    let target ← tr.byAddr.lookup source.directPatch.targetGuestPc
    return target.translatedBlock true
  else none

def unpatchIncomingTo (targetGuestPc : U64) (tr : Translator) : Translator :=
  let sources := (tr.directPatchIncoming.lookup targetGuestPc).getD []
  sources.foldl (fun tr source => (tr.unpatchDirectExit source).2) tr

end Patch

section Translate

def lookupCached (guestAddr : U64) (guestBytes : List U8) (tr : Translator) :
    Option TranslatedBlock :=
  if guestBytes.isEmpty then none
  else
    match tr.byAddr.lookup guestAddr with
    | none => none
    | some record =>
      if record.contentHash = fnv1a64 guestBytes then some (record.translatedBlock true) else none

def canUsePatchableTail : BlockExitKind → Bool
  | .jumpRel | .callRel => true
  | _ => false

-- The code of a block. The patchable tail branches to the instruction behind it until it is patched:
-- `b .+4; mov x0, x1; ret`.
def emit (guestAddr : U64) (lowered : LoweredBlock) : JitCode × DirectPatchSite :=
  if lowered.hasTerminator && canUsePatchableTail lowered.exit.kind then
    let branchOffset := 4 * lowered.words.length
    (⟨guestAddr, lowered.words ++ [0x14000001, 0xAA0103E0, 0xD65F03C0], some branchOffset⟩,
      { available := true
        autoPatchSafe := !lowered.mayWriteGuestMemory
        branchOffset := branchOffset
        fallbackOffset := branchOffset + 4
        targetGuestPc := lowered.exit.targetGuestPc })
  else
    (⟨guestAddr, lowered.words ++ [0xD65F03C0], none⟩, ⟨false, false, 0, 0, 0⟩)

def install (compile : Compiler) (guestAddr : U64) (guestBytes : List U8) (place : Option U64)
    (tr : Translator) : Except TranslateError TranslatedBlock × Translator :=
  match compile guestAddr guestBytes with
  | .error e => (.error e, tr)
  | .ok lowered =>
    let (code, directPatch) := emit guestAddr lowered
    match tr.pool.acquire code place with
    | none => (.error .jitAllocFailed, tr)
    | some (block, pool) =>
      let record : Record :=
        { entry := block.entry
          jitBlock := block
          codeSize := code.sizeBytes
          guestSize := lowered.consumed
          contentHash := fnv1a64 guestBytes
          exit := lowered.exit
          directPatch := directPatch
          directPatchApplied := false }
      (.ok (record.translatedBlock false),
        { tr with pool := pool, byAddr := tr.byAddr.insert guestAddr record })

-- Drops the record of a block whose guest bytes have changed.
def drop (guestAddr : U64) (tr : Translator) : Translator :=
  let tr := (tr.unpatchDirectExit guestAddr).2.unpatchIncomingTo guestAddr
  { tr with byAddr := tr.byAddr.erase guestAddr }

def translate (compile : Compiler) (guestAddr : U64) (guestBytes : List U8) (place : Option U64)
    (tr : Translator) : Except TranslateError TranslatedBlock × Translator :=
  if guestBytes.isEmpty then (.error .emptyInput, tr)
  else
    match tr.byAddr.lookup guestAddr with
    | none => tr.install compile guestAddr guestBytes place
    | some record =>
      if record.contentHash = fnv1a64 guestBytes then (.ok (record.translatedBlock true), tr)
      else (tr.drop guestAddr).install compile guestAddr guestBytes place

end Translate

inductive PatchCall
  | patch (sourceGuestPc targetGuestPc : U64)
  | unpatch (sourceGuestPc : U64)
deriving DecidableEq, Repr

inductive Call
  | translate (guestAddr : U64) (guestBytes : List U8) (place : Option U64)
  | patching (call : PatchCall)
deriving DecidableEq, Repr

def stepPatch (tr : Translator) : PatchCall → Translator
  | .patch sourceGuestPc targetGuestPc => (tr.patchDirectExit sourceGuestPc targetGuestPc).2
  | .unpatch sourceGuestPc => (tr.unpatchDirectExit sourceGuestPc).2

def step (compile : Compiler) (tr : Translator) : Call → Translator
  | .translate guestAddr guestBytes place => (tr.translate compile guestAddr guestBytes place).2
  | .patching call => tr.stepPatch call

end Translator

end Prisma.Core
