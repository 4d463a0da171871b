import Prisma.A64.Branch
import Prisma.Lib.Table

-- The pool of executable memory of the C++ core, at the granularity of blocks.

namespace Prisma.Core

open A64

structure JitBlock where
  entry : U64
  sizeBytes : Nat
deriving DecidableEq, Repr

-- The words of a block. What they are a translation of and where their patchable tail branch is, is
-- known to the translator only.
structure JitCode where
  guestPc : U64
  words : List U32
  branchOffset : Option Nat
deriving DecidableEq, Repr

namespace JitCode

def sizeBytes (code : JitCode) : Nat :=
  4 * code.words.length

-- Where the tail branch of a block at `entry` leads to.
def destination (entry : U64) (code : JitCode) : Option U64 := do
  let offset ← code.branchOffset
  let word ← code.words[offset / 4]?
  let branch ← Branch.decode word
  return entry + BitVec.ofNat 64 offset + BitVec.ofInt 64 branch.offset

end JitCode

inductive JitPatchResult
  | patched
  | siteNotOwned
  | unaligned
  | outOfRange
deriving DecidableEq, Repr

-- Blocks are never released.
structure JitSlabPool where
  blocks : AList fun _ : U64 => JitCode

namespace JitSlabPool

def new : JitSlabPool :=
  ⟨∅⟩

-- Addresses that a slab has free: aligned and apart from the blocks that are there already.
def Free (pool : JitSlabPool) (entry : U64) (size : Nat) : Prop :=
  entry ≠ 0 ∧ entry.toNat % 16 = 0 ∧ entry.toNat + size ≤ 2 ^ 64 ∧
    ∀ block ∈ pool.blocks.entries, entry.toNat + size ≤ block.1.toNat ∨
      block.1.toNat + block.2.sizeBytes ≤ entry.toNat

instance {pool : JitSlabPool} {entry : U64} {size : Nat} : Decidable (pool.Free entry size) :=
  inferInstanceAs (Decidable (_ ∧ _ ∧ _ ∧ ∀ _ ∈ _, _))

-- The host places the code, or has no memory left.
def acquire (code : JitCode) (place : Option U64) (pool : JitSlabPool) :
    Option (JitBlock × JitSlabPool) :=
  match place with
  | none => none
  | some entry =>
    if pool.Free entry code.sizeBytes then
      some (⟨entry, code.sizeBytes⟩, ⟨pool.blocks.insert entry code⟩)
    else none

def signedByteDelta (source target : U64) : Option Int :=
  if source ≤ target then
    let delta := target - source
    if 2 ^ 63 - 1 < delta.toNat then none else some delta.toNat
  else
    let delta := source - target
    if 2 ^ 63 - 1 < delta.toNat then none else some (-delta.toNat)

def encodeBranch (wordDelta : Int) : U32 :=
  0x14000000 ||| (BitVec.ofInt 32 wordDelta &&& 0x03FFFFFF)

def patchAarch64Branch (block : JitBlock) (offset : Nat) (target : U64) (pool : JitSlabPool) :
    JitPatchResult × JitSlabPool :=
  if target = 0 ∨ block.sizeBytes < offset ∨ block.sizeBytes - offset < 4 then
    (.siteNotOwned, pool)
  else
    match pool.blocks.lookup block.entry with
    | none => (.siteNotOwned, pool)
    | some code =>
      if code.sizeBytes < block.sizeBytes then (.siteNotOwned, pool)
      else
        let site := block.entry + BitVec.ofNat 64 offset
        if site.toNat % 4 ≠ 0 ∨ target.toNat % 4 ≠ 0 then (.unaligned, pool)
        else
          match signedByteDelta site target with
          | none => (.outOfRange, pool)
          | some byteDelta =>
            let wordDelta := byteDelta / 4
            if byteDelta % 4 ≠ 0 ∨ wordDelta < -2 ^ 25 ∨ 2 ^ 25 - 1 < wordDelta then
              (.outOfRange, pool)
            else
              let code :=
                { code with words := code.words.set (offset / 4) (encodeBranch wordDelta) }
              (.patched, ⟨pool.blocks.insert block.entry code⟩)

end JitSlabPool

end Prisma.Core
