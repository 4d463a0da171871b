import Prisma.IR.Basic

-- The labels of the assembler. A panic is `none`.

namespace Prisma

abbrev Label := Nat

inductive BranchFixupKind
  | b
  | bCond (cond : CondCode)
  | cbzX (rt : U8)
  | cbnzX (rt : U8)
deriving DecidableEq, Repr

structure BranchFixup where
  label : Label
  instructionIndex : Nat
  kind : BranchFixupKind
deriving DecidableEq, Repr

structure Arm64Assembler where
  instructions : List U32
  labels : List (Option Nat)
  branchFixups : List BranchFixup

namespace Arm64Assembler

section Encoding

def armCondition : CondCode → U8
  | .eq => 0x0
  | .ne => 0x1
  | .uge | .nc => 0x2
  | .ult | .cc => 0x3
  | .mi => 0x4
  | .pl => 0x5
  | .ov => 0x6
  | .noOv => 0x7
  | .ugt => 0x8
  | .ule => 0x9
  | .sge => 0xa
  | .slt => 0xb
  | .sgt => 0xc
  | .sle => 0xd

def b (offsetBytes : Int) : Option U32 :=
  if offsetBytes % 4 ≠ 0 then none
  else
    let imm26 := BitVec.ofInt 32 (offsetBytes >>> (2 : Nat)) &&& 0x03FFFFFF
    some (0x14000000 ||| imm26)

-- The condition and the register stand in the low bits.
def encodeImm19 (base low : U32) (offsetBytes : Int) : Option U32 :=
  if offsetBytes % 4 ≠ 0 then none
  else
    let imm19 := offsetBytes >>> (2 : Nat)
    if imm19 < -2 ^ 18 ∨ 2 ^ 18 ≤ imm19 then none
    else some (base ||| (BitVec.ofInt 32 imm19 &&& 0x7FFFF) <<< 5 ||| low)

def bCond (cond : CondCode) (offsetBytes : Int) : Option U32 :=
  encodeImm19 0x54000000 ((armCondition cond).setWidth 32) offsetBytes

def encodeCompareBranchX (base : U32) (rt : U8) (offsetBytes : Int) : Option U32 :=
  if 32 ≤ rt.toNat then none else encodeImm19 base (rt.setWidth 32) offsetBytes

def cbzX (rt : U8) (offsetBytes : Int) : Option U32 :=
  encodeCompareBranchX 0xB4000000 rt offsetBytes

def cbnzX (rt : U8) (offsetBytes : Int) : Option U32 :=
  encodeCompareBranchX 0xB5000000 rt offsetBytes

def encode : BranchFixupKind → Int → Option U32
  | .b, offsetBytes => b offsetBytes
  | .bCond cond, offsetBytes => bCond cond offsetBytes
  | .cbzX rt, offsetBytes => cbzX rt offsetBytes
  | .cbnzX rt, offsetBytes => cbnzX rt offsetBytes

end Encoding

def new : Arm64Assembler where
  instructions := []
  labels := []
  branchFixups := []

variable (asm : Arm64Assembler)

-- All other instructions are emitted as words.
def emitWord (word : U32) : Arm64Assembler :=
  { asm with instructions := asm.instructions ++ [word] }

def cursorOffset : Nat :=
  asm.instructions.length * 4

section Labels

def createLabel : Label × Arm64Assembler :=
  (asm.labels.length, { asm with labels := asm.labels ++ [none] })

def bindLabel (label : Label) : Option Arm64Assembler :=
  match asm.labels[label]? with
  | some none => some { asm with labels := asm.labels.set label (some asm.cursorOffset) }
  | _ => none

def branchLabel (kind : BranchFixupKind) (label : Label) : Option Arm64Assembler := do
  let instructionIndex := asm.instructions.length
  let asm := asm.emitWord (← encode kind 0)
  return { asm with branchFixups := asm.branchFixups ++ [{ label, instructionIndex, kind }] }

def bLabel (label : Label) : Option Arm64Assembler :=
  asm.branchLabel .b label

def bCondLabel (cond : CondCode) (label : Label) : Option Arm64Assembler :=
  asm.branchLabel (.bCond cond) label

def cbzXLabel (rt : U8) (label : Label) : Option Arm64Assembler :=
  asm.branchLabel (.cbzX rt) label

def cbnzXLabel (rt : U8) (label : Label) : Option Arm64Assembler :=
  asm.branchLabel (.cbnzX rt) label

end Labels

section Fixups

-- `i32::try_from`
def tryI32 (n : Int) : Option Int :=
  if -2 ^ 31 ≤ n ∧ n < 2 ^ 31 then some n else none

def resolveFixup (labels : List (Option Nat)) (instructions : List U32) (fixup : BranchFixup) :
    Option (List U32) := do
  let targetOffset ← labels[fixup.label]?.join
  let branchOffset := fixup.instructionIndex * 4
  let relative ← tryI32 ((← tryI32 targetOffset) - (← tryI32 branchOffset))
  let word ← encode fixup.kind relative
  if fixup.instructionIndex < instructions.length then
    return instructions.set fixup.instructionIndex word
  else none

def resolveBranchFixups : Option Arm64Assembler := do
  let instructions ← asm.branchFixups.foldlM (resolveFixup asm.labels) asm.instructions
  return { asm with instructions, branchFixups := [] }

def finish : Option (List U32) :=
  asm.resolveBranchFixups.map (·.instructions)

end Fixups

end Arm64Assembler

end Prisma
