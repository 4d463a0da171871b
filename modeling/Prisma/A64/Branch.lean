import Prisma.IR.Basic

-- The direct branches of A64.

namespace Prisma.A64

inductive Branch
  | b (imm26 : BitVec 26)
  | bCond (cond : BitVec 4) (imm19 : BitVec 19)
  | cbz (rt : BitVec 5) (imm19 : BitVec 19)
  | cbnz (rt : BitVec 5) (imm19 : BitVec 19)
deriving DecidableEq, Repr

namespace Branch

def decode (word : U32) : Option Branch :=
  if word.extractLsb' 26 6 = 0b000101 then some (.b (word.extractLsb' 0 26))
  else if word.extractLsb' 24 8 = 0b01010100 ∧ word.extractLsb' 4 1 = 0 then
    some (.bCond (word.extractLsb' 0 4) (word.extractLsb' 5 19))
  else if word.extractLsb' 24 8 = 0b10110100 then
    some (.cbz (word.extractLsb' 0 5) (word.extractLsb' 5 19))
  else if word.extractLsb' 24 8 = 0b10110101 then
    some (.cbnz (word.extractLsb' 0 5) (word.extractLsb' 5 19))
  else none

-- The distance from the branch to its target in bytes.
def offset : Branch → Int
  | .b imm26 => 4 * imm26.toInt
  | .bCond _ imm19 | .cbz _ imm19 | .cbnz _ imm19 => 4 * imm19.toInt

end Branch

end Prisma.A64
