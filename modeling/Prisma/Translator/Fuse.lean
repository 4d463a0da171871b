import Prisma.Decoder.Dispatch

namespace Prisma.Translator

open Decoder

-- Whether `op` transfers control and therefore ends a basic block.
def isTerminator : Op → Bool
  | .ret | .jump _ | .jumpReg _ | .jumpRel _ | .condJump .. | .condJumpRel .. | .condJumpFlags ..
  | .callRel .. | .callReg .. | .retAdjusted _ | .trap _ | .syscall => true
  | _ => false

def staticSuccessors : Op → List U64
  | .jumpRel targetGuestPc => [targetGuestPc]
  | .condJumpRel _ targetGuestPc fallthroughGuestPc => [targetGuestPc, fallthroughGuestPc]
  | .callRel targetGuestPc returnGuestPc => [targetGuestPc, returnGuestPc]
  | _ => []

section Renumber

-- `u32::MAX`
def maxRef : Ref := 2 ^ 32 - 1

-- Every ref of the statements, which is what `map_refs` visits.
def refsOf (stmts : List Stmt) : List Ref :=
  stmts.flatMap fun stmt => stmt.defs ++ stmt.op.operandRefs

-- Shifts the refs of an instruction by `base`. There is no result if a ref leaves the `u32`.
def renumber (base : Ref) (stmts : List Stmt) : Option (List Stmt) :=
  if ∀ r ∈ refsOf stmts, r + base ≤ maxRef then some (stmts.map (·.mapRefs (· + base))) else none

-- The largest ref of the instruction after the shift, and at least `base`.
def localMax (base : Ref) (stmts : List Stmt) : Ref :=
  (refsOf stmts).foldl (fun m r => max m (r + base)) base

-- `local_max.saturating_add(1)`
def nextBase (base : Ref) (stmts : List Stmt) : Ref :=
  min (localMax base stmts + 1) maxRef

-- The statements of consecutive instructions in one block.
def fuse (base : Ref) : List (List Stmt) → Option (List Stmt)
  | [] => some []
  | insn :: insns => do
    let renumbered ← renumber base insn
    let rest ← fuse (nextBase base insn) insns
    return renumbered ++ rest

-- The refs of every instruction but the last are below the next base, so that the instructions take
-- disjoint ranges. Only a block that uses `u32::MAX` itself fails this.
def DisjointRanges (base : Ref) : List (List Stmt) → Prop
  | [] => True
  | insn :: insns =>
    (insns ≠ [] → localMax base insn < maxRef) ∧ DisjointRanges (nextBase base insn) insns

instance DisjointRanges.decidable :
    (base : Ref) → (insns : List (List Stmt)) → Decidable (DisjointRanges base insns)
  | _, [] => isTrue trivial
  | base, insn :: insns =>
    have := DisjointRanges.decidable (nextBase base insn) insns
    inferInstanceAs (Decidable (_ ∧ _))

end Renumber

section Loop

inductive TranslateError
  | decode (e : DecodeError)
  | truncated (offset consumed remaining : Nat)
  deriving DecidableEq, Repr

-- The block that `optimize_fused_block` has built so far.
structure FusedBlock where
  stmts : List Stmt := []
  -- the guest bytes consumed
  offset : Nat := 0
  pc : U64
  instructionCount : Nat := 0
  endedAtTerminator : Bool := false
  successors : List U64 := []
  -- the next free ref
  base : Ref := 0

def FusedBlock.extend (b : FusedBlock) (decoded : Decoded) (renumbered : List Stmt) : FusedBlock :=
  let terminator := decoded.stmts.find? fun stmt => isTerminator stmt.op
  { stmts := b.stmts ++ renumbered
    offset := b.offset + decoded.bytesConsumed
    pc := b.pc + BitVec.ofNat 64 decoded.bytesConsumed
    instructionCount := b.instructionCount + 1
    endedAtTerminator := terminator.isSome
    successors := terminator.elim [] fun stmt => staticSuccessors stmt.op
    base := nextBase b.base decoded.stmts }

-- One round of the loop, which ends the block when there is no result. Only the first instruction
-- can make the translation fail.
def fuseNext (bytes : List U8) (b : FusedBlock) : Except TranslateError (Option FusedBlock) :=
  match decodeOneAt bytes b.offset b.pc with
  | .error e => if b.instructionCount = 0 then .error (.decode e) else .ok none
  | .ok decoded =>
    if bytes.length < b.offset + decoded.bytesConsumed then
      if b.instructionCount = 0 then
        .error (.truncated b.offset decoded.bytesConsumed (bytes.length - b.offset))
      else .ok none
    else .ok ((renumber b.base decoded.stmts).map (b.extend decoded))

-- The loop with `maxInsns - instructionCount` as its bound.
def fuseLoop (bytes : List U8) : Nat → FusedBlock → Except TranslateError FusedBlock
  | 0, b => .ok b
  | n + 1, b =>
    if b.offset < bytes.length && !b.endedAtTerminator then
      match fuseNext bytes b with
      | .error e => .error e
      | .ok none => .ok b
      | .ok (some b') => fuseLoop bytes n b'
    else .ok b

-- `optimize_fused_block` without the optimizations that follow.
def fuseBlock (guestAddr : U64) (bytes : List U8) (maxInsns : Nat) :
    Except TranslateError FusedBlock := do
  let b ← fuseLoop bytes maxInsns { pc := guestAddr }
  return if !b.endedAtTerminator && b.instructionCount > 0 then { b with successors := [b.pc] } else b

end Loop

end Prisma.Translator
