import Prisma.Backend.Theorems.Assembler
import Prisma.Core.JitPool

-- A patched branch leads to the address that it was patched to.

namespace Prisma.Core.JitSlabPool

open A64 Arm64Assembler

variable {pool pool' : JitSlabPool} {block : JitBlock} {code : JitCode} {offset : Nat}
  {site target : U64} {delta : Int}

theorem signedByteDelta_eq_some (h : signedByteDelta site target = some delta) :
    site + BitVec.ofInt 64 delta = target := by
  unfold signedByteDelta at h
  dsimp only at h
  split at h
  all_goals
    split at h
    · cases h
    cases h
  · rw [BitVec.ofInt_natCast, BitVec.ofNat_toNat, BitVec.setWidth_eq]
    bv_omega
  · rw [BitVec.ofInt_neg, BitVec.ofInt_natCast, BitVec.ofNat_toNat, BitVec.setWidth_eq]
    bv_omega

theorem decode_encodeBranch (hlo : -2 ^ 25 ≤ delta) (hhi : delta ≤ 2 ^ 25 - 1) :
    ∃ branch, Branch.decode (encodeBranch delta) = some branch ∧ branch.offset = 4 * delta := by
  have hs : (4 * delta) >>> (2 : Nat) = delta := by
    rw [Int.shiftRight_eq_div_pow]
    omega
  have henc : encode .b (4 * delta) = some (encodeBranch delta) := by
    rw [encode, b, if_neg (by omega), hs]
    rfl
  have ⟨hd, _⟩ := encode_eq_some henc
  refine ⟨_, hd, ?_⟩
  have hi := (@toInt_ofInt 25 delta).mpr ⟨hlo, by omega⟩
  rw [branch, hs, Branch.offset, hi]

-- The branch is rewritten to lead to the target, and nothing else changes.
structure Rewrites (block : JitBlock) (offset : Nat) (target : U64) (pool pool' : JitSlabPool) :
    Prop where
  rewritten : ∃ code word branch, pool.blocks.lookup block.entry = some code ∧
    pool' = ⟨pool.blocks.insert block.entry { code with words := code.words.set (offset / 4) word }⟩ ∧
    Branch.decode word = some branch ∧
    block.entry + BitVec.ofNat 64 offset + BitVec.ofInt 64 branch.offset = target

theorem patchAarch64Branch_cases (pool : JitSlabPool) (block : JitBlock) (offset : Nat)
    (target : U64) :
    (∃ result, result ≠ .patched ∧ pool.patchAarch64Branch block offset target = (result, pool)) ∨
      ∃ pool', pool.patchAarch64Branch block offset target = (.patched, pool') ∧
        Rewrites block offset target pool pool' := by
  unfold patchAarch64Branch
  split
  · exact .inl ⟨.siteNotOwned, nofun, rfl⟩
  split
  · exact .inl ⟨.siteNotOwned, nofun, rfl⟩
  case h_2 code hcode =>
    split
    · exact .inl ⟨.siteNotOwned, nofun, rfl⟩
    dsimp only
    split
    · exact .inl ⟨.unaligned, nofun, rfl⟩
    split
    · exact .inl ⟨.outOfRange, nofun, rfl⟩
    case h_2 byteDelta hdelta =>
      split
      · exact .inl ⟨.outOfRange, nofun, rfl⟩
      case isFalse hrange =>
        have ⟨branch, hd, ho⟩ := @decode_encodeBranch (byteDelta / 4) (by omega) (by omega)
        refine .inr ⟨_, rfl, ⟨code, _, branch, hcode, rfl, hd, ?_⟩⟩
        rw [ho, show 4 * (byteDelta / 4) = byteDelta by omega]
        exact signedByteDelta_eq_some hdelta

theorem patchAarch64Branch_next (hb : pool.blocks.lookup block.entry = some code)
    (hs : block.sizeBytes = code.sizeBytes) (he : block.entry.toNat % 4 = 0) (ho : offset % 4 = 0)
    (hin : offset + 8 ≤ code.sizeBytes) (hfit : block.entry.toNat + code.sizeBytes ≤ 2 ^ 64) :
    ∃ pool', pool.patchAarch64Branch block offset (block.entry + BitVec.ofNat 64 (offset + 4)) =
      (.patched, pool') := by
  have hsite : (block.entry + BitVec.ofNat 64 offset).toNat = block.entry.toNat + offset := by
    rw [BitVec.toNat_add, BitVec.toNat_ofNat]
    omega
  have htarget : (block.entry + BitVec.ofNat 64 (offset + 4)).toNat =
      block.entry.toNat + offset + 4 := by
    rw [BitVec.toNat_add, BitVec.toNat_ofNat]
    omega
  have hdelta : signedByteDelta (block.entry + BitVec.ofNat 64 offset)
      (block.entry + BitVec.ofNat 64 (offset + 4)) = some 4 := by
    have hle : block.entry + BitVec.ofNat 64 offset ≤ block.entry + BitVec.ofNat 64 (offset + 4) := by
      rw [BitVec.le_def]
      omega
    have hsub : (block.entry + BitVec.ofNat 64 (offset + 4) -
        (block.entry + BitVec.ofNat 64 offset)).toNat = 4 := by
      rw [BitVec.toNat_sub_of_le hle]
      omega
    unfold signedByteDelta
    dsimp only
    rw [if_pos hle, hsub]
    rfl
  have hne : block.entry + BitVec.ofNat 64 (offset + 4) ≠ 0 := by
    intro h
    rw [h] at htarget
    cases htarget
  suffices h : (pool.patchAarch64Branch block offset
      (block.entry + BitVec.ofNat 64 (offset + 4))).1 = .patched from ⟨_, Prod.ext h rfl⟩
  unfold patchAarch64Branch
  rw [if_neg (by rintro (h | h | h) <;> [exact hne h; omega; omega]), hb]
  dsimp only
  rw [if_neg (by omega), if_neg (by omega), hdelta]
  rfl

end Prisma.Core.JitSlabPool
