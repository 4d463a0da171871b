import Prisma.Core.Translator

-- The run loop of the C++ core: translates and executes blocks until the guest halts. A block whose
-- exit is patched runs on into the next one without a return to the loop.

namespace Prisma.Core

structure DispatchStats where
  blocksExecuted : Nat
  stepsTaken : Nat
  uniquePcsSeen : Nat
  rasPushes : Nat
  rasPops : Nat
  rasHits : Nat
  rasMisses : Nat
  rasOverflows : Nat
  rasUnderflows : Nat
  directThreadHits : Nat
  directThreadMisses : Nat
  directThreadInstalls : Nat
  directJitPatchAttempts : Nat
  directJitPatchApplied : Nat
  directJitPatchRejected : Nat
  directJitPatchUnpatches : Nat
  directJitPatchExecutes : Nat
deriving DecidableEq, Repr

inductive DispatchExit
  | halted
  | stepLimit
  | fetchFailed
  | translationFailed
deriving DecidableEq, Repr

structure DispatchResult where
  exit : DispatchExit
  finalPc : U64
  stats : DispatchStats
  message : String
deriving DecidableEq, Repr

-- The guest: its bytes, and what the code at an entry does up to its tail. The second component is
-- the next guest pc, which the tail returns.
structure Guest (σ : Type) where
  reader : σ → U64 → List U8
  body : U64 → σ → σ × U64
  setGuestPc : U64 → σ → σ

-- What happens around the loop in its iterations: the calls that the callback of the drain makes, the
-- exits that are patched by others, and where the host places new code.
structure Surroundings where
  drain : Nat → List Translator.Call
  patches : Nat → List Translator.PatchCall
  place : Nat → Option U64
  threadPlace : Nat → Option U64

-- `executed` are the guest blocks that have been executed so far, the latest last.
structure Loop (σ : Type) where
  translator : Translator
  machine : σ
  pc : U64
  stats : DispatchStats
  seenPcs : List U64
  returnStack : List U64
  step : Nat
  iteration : Nat
  executed : List U64

namespace Dispatcher

def returnStackSlots : Nat :=
  32

def haltSentinel : U64 :=
  0

section Execute

variable {σ : Type} (guest : Guest σ)

-- Runs the code at the entry and whatever the patched exits lead to. More blocks than there are in
-- the pool are a cycle, which does not return.
def runCode (pool : JitSlabPool) : Nat → U64 → σ → Option (List U64 × σ × U64)
  | 0, _, _ => none
  | rounds + 1, entry, machine => do
    let code ← pool.blocks.lookup entry
    let (machine, nextPc) := guest.body entry machine
    match code.branchOffset with
    | none => return ([code.guestPc], machine, nextPc)
    | some offset =>
      let dest ← code.destination entry
      if dest = entry + BitVec.ofNat 64 (offset + 4) then
        return ([code.guestPc], machine, nextPc)
      else
        let (pcs, machine, nextPc) ← runCode pool rounds dest machine
        return (code.guestPc :: pcs, machine, nextPc)

def executeBlock (pool : JitSlabPool) (block : TranslatedBlock) (machine : σ) :
    Option (List U64 × σ × U64) :=
  runCode guest pool (pool.blocks.size + 1) block.codeEntry machine

end Execute

def directThreadCandidate (block : TranslatedBlock) (nextPc : U64) : Bool :=
  match block.exit.kind with
  | .jumpRel | .callRel => nextPc = block.exit.targetGuestPc
  | .condJumpRel | .repStos | .repMovs =>
    nextPc = block.exit.targetGuestPc || nextPc = block.exit.fallthroughGuestPc
  | _ => false

variable {σ : Type}

-- The stack of predicted return addresses, the top first.
def accountReturn (block : TranslatedBlock) (observedNextPc : U64) (loop : Loop σ) : Loop σ :=
  let stats := loop.stats
  match block.exit.kind with
  | .callRel | .callReg =>
    if loop.returnStack.length = returnStackSlots then
      { loop with
        stats := { stats with
          rasPushes := stats.rasPushes + 1
          rasOverflows := stats.rasOverflows + 1 }
        returnStack := block.exit.returnGuestPc :: loop.returnStack.tail }
    else
      { loop with
        stats := { stats with rasPushes := stats.rasPushes + 1 }
        returnStack := block.exit.returnGuestPc :: loop.returnStack }
  | .retAdjusted =>
    match loop.returnStack with
    | [] =>
      { loop with
        stats := { stats with
          rasPops := stats.rasPops + 1
          rasUnderflows := stats.rasUnderflows + 1 } }
    | predicted :: rest =>
      { loop with
        stats :=
          if predicted = observedNextPc then
            { stats with rasPops := stats.rasPops + 1, rasHits := stats.rasHits + 1 }
          else
            { stats with rasPops := stats.rasPops + 1, rasMisses := stats.rasMisses + 1 }
        returnStack := rest }
  | _ => loop

def accountExecuted (executedPc : U64) (block : TranslatedBlock) (observedNextPc : U64)
    (loop : Loop σ) : Loop σ :=
  let loop := accountReturn block observedNextPc loop
  { loop with
    stats := { loop.stats with
      blocksExecuted := loop.stats.blocksExecuted + 1
      stepsTaken := loop.stats.stepsTaken + 1 }
    seenPcs := if executedPc ∈ loop.seenPcs then loop.seenPcs else executedPc :: loop.seenPcs
    step := loop.step + 1 }

def result (exit : DispatchExit) (message : String) (loop : Loop σ) : DispatchResult where
  exit := exit
  finalPc := loop.pc
  stats := { loop.stats with uniquePcsSeen := loop.seenPcs.length }
  message := message

-- How a part of the loop ends: the run returns, the inner loop is left, or it goes on with a block.
inductive Next (σ : Type)
  | done (result : DispatchResult) (loop : Loop σ)
  | outer (loop : Loop σ)
  | inner (block : TranslatedBlock) (loop : Loop σ)

def fetchFailed (loop : Loop σ) : Next σ :=
  .done (result .fetchFailed "guest memory reader returned no bytes at the current PC" loop) loop

def translationFailed (loop : Loop σ) : Next σ :=
  .done (result .translationFailed "translator rejected the guest region" loop) loop

variable (compile : Compiler) (guest : Guest σ) (around : Surroundings) (haltPcs : List U64)
  (maxSteps : Nat)

section Inner

-- The target of the patched exit, if the loop may execute through it.
def verifiedTarget (targetPc : U64) (target : TranslatedBlock) (loop : Loop σ) :
    Option TranslatedBlock :=
  if maxSteps - loop.step ≥ 2 ∧ targetPc ∉ haltPcs then
    let targetBytes := guest.reader loop.machine targetPc
    if targetBytes.isEmpty then none
    else (loop.translator.lookupCached targetPc targetBytes).filter
      (·.codeEntry = target.codeEntry)
  else none

-- Decides whether the block is executed together with its patched target.
def settlePatch (block : TranslatedBlock) (loop : Loop σ) :
    Except (DispatchResult × Loop σ) (Option (U64 × TranslatedBlock) × Loop σ) :=
  match loop.translator.activeDirectPatchTarget loop.pc with
  | none => .ok (none, loop)
  | some target =>
    let targetPc := block.directPatch.targetGuestPc
    match verifiedTarget guest haltPcs maxSteps targetPc target loop with
    | some verified => .ok (some (targetPc, verified), loop)
    | none =>
      match loop.translator.unpatchDirectExit loop.pc with
      | (.ok, translator) =>
        .ok (none,
          { loop with
            translator := translator
            stats := { loop.stats with
              directJitPatchUnpatches := loop.stats.directJitPatchUnpatches + 1 } })
      | (_, translator) =>
        let loop := { loop with translator := translator }
        .error (result .translationFailed "failed to unpatch a direct JIT branch" loop, loop)

-- Accounts for the block and the patched target. The block that the loop may thread from is last.
def account (sourcePc : U64) (block : TranslatedBlock) (patched : Option (U64 × TranslatedBlock))
    (nextPc : U64) (loop : Loop σ) : (U64 × TranslatedBlock) × Loop σ :=
  match patched with
  | none => ((sourcePc, block), accountExecuted sourcePc block nextPc loop)
  | some (targetPc, target) =>
    let loop :=
      { loop with
        stats := { loop.stats with
          directJitPatchExecutes := loop.stats.directJitPatchExecutes + 1 } }
    ((targetPc, target),
      accountExecuted targetPc target nextPc (accountExecuted sourcePc block targetPc loop))

def tryPatchDirectExit (sourcePc targetPc : U64) (loop : Loop σ) : Loop σ :=
  let wasPatched := loop.translator.directExitIsPatched sourcePc
  let (result, translator) := loop.translator.patchDirectExit sourcePc targetPc
  let stats :=
    { loop.stats with directJitPatchAttempts := loop.stats.directJitPatchAttempts + 1 }
  { loop with
    translator := translator
    stats :=
      if result = .ok then
        if !wasPatched && translator.directExitIsPatched sourcePc then
          { stats with directJitPatchApplied := stats.directJitPatchApplied + 1 }
        else stats
      else { stats with directJitPatchRejected := stats.directJitPatchRejected + 1 } }

def linkThreaded (threadingPc : U64) (threading : TranslatedBlock) (loop : Loop σ) : Loop σ :=
  if threading.directPatch.available ∧ threading.directPatch.autoPatchSafe ∧
      threading.directPatch.targetGuestPc = loop.pc ∧ loop.pc ∉ haltPcs then
    tryPatchDirectExit threadingPc loop.pc loop
  else loop

-- Goes on with the successor without leaving the inner loop, if its address is known.
def thread (threadingPc : U64) (threading : TranslatedBlock) (loop : Loop σ) : Next σ :=
  if loop.step ≥ maxSteps ∨ ¬directThreadCandidate threading loop.pc ∨ loop.pc ∈ haltPcs then
    .outer loop
  else
    let nextBytes := guest.reader loop.machine loop.pc
    if nextBytes.isEmpty then fetchFailed loop
    else
      match loop.translator.lookupCached loop.pc nextBytes with
      | none =>
        let stats :=
          { loop.stats with directThreadMisses := loop.stats.directThreadMisses + 1 }
        let (installed, translator) := loop.translator.translate compile loop.pc nextBytes
          (around.threadPlace loop.iteration)
        let loop := { loop with translator := translator, stats := stats }
        match installed with
        | .error _ => translationFailed loop
        | .ok successor =>
          let stats :=
            if successor.fromCache then
              { loop.stats with directThreadHits := loop.stats.directThreadHits + 1 }
            else
              { loop.stats with directThreadInstalls := loop.stats.directThreadInstalls + 1 }
          .inner successor (linkThreaded haltPcs threadingPc threading { loop with stats := stats })
      | some cached =>
        let stats := { loop.stats with directThreadHits := loop.stats.directThreadHits + 1 }
        .inner cached (linkThreaded haltPcs threadingPc threading { loop with stats := stats })

-- An iteration of the inner loop. It does not return if the code does not.
def inner (block : TranslatedBlock) (loop : Loop σ) : Option (Next σ) :=
  let loop :=
    { loop with
      translator := (around.patches loop.iteration).foldl Translator.stepPatch loop.translator }
  match settlePatch guest haltPcs maxSteps block loop with
  | .error (result, loop) => some (.done result loop)
  | .ok (patched, loop) =>
    (executeBlock guest loop.translator.pool block loop.machine).map
      fun (pcs, machine, nextPc) =>
        let loop := { loop with executed := loop.executed ++ pcs }
        let ((threadingPc, threading), loop) := account loop.pc block patched nextPc loop
        thread compile guest around haltPcs maxSteps threadingPc threading
          { loop with
            pc := nextPc
            machine := guest.setGuestPc nextPc machine
            iteration := loop.iteration + 1 }

end Inner

-- The head of the outer loop.
def outer (loop : Loop σ) : Next σ :=
  if loop.step < maxSteps then
    let loop :=
      { loop with
        translator := (around.drain loop.iteration).foldl (Translator.step compile)
          loop.translator }
    if loop.pc ∈ haltPcs then .done (result .halted "" loop) loop
    else
      let bytes := guest.reader loop.machine loop.pc
      if bytes.isEmpty then fetchFailed loop
      else
        match loop.translator.translate compile loop.pc bytes (around.place loop.iteration) with
        | (.error _, translator) => translationFailed { loop with translator := translator }
        | (.ok block, translator) => .inner block { loop with translator := translator }
  else if loop.pc ∈ haltPcs then .done (result .halted "" loop) loop
  else .done (result .stepLimit "" loop) loop

-- The loops go on for the given number of rounds at most.
def go : Nat → Next σ → Option (DispatchResult × Loop σ)
  | _, .done result loop => some (result, loop)
  | 0, _ => none
  | rounds + 1, .outer loop => go rounds (outer compile guest around haltPcs maxSteps loop)
  | rounds + 1, .inner block loop =>
    (inner compile guest around haltPcs maxSteps block loop).bind (go rounds)

def start (entryPc : U64) (translator : Translator) (machine : σ) : Loop σ where
  translator := translator
  machine := guest.setGuestPc entryPc machine
  pc := entryPc
  stats := ⟨0, 0, 0, 0, 0, 0, 0, 0, 0, 0, 0, 0, 0, 0, 0, 0, 0⟩
  seenPcs := []
  returnStack := []
  step := 0
  iteration := 0
  executed := []

-- Every iteration of the inner loop executes a block, so that the rounds suffice.
def run (entryPc : U64) (translator : Translator) (machine : σ) :
    Option (DispatchResult × Loop σ) :=
  go compile guest around (haltSentinel :: haltPcs) maxSteps (2 * maxSteps + 2)
    (.outer (start guest entryPc translator machine))

end Dispatcher

end Prisma.Core
