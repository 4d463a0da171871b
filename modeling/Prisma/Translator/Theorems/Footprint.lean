import Prisma.Decoder.Theorems.Layout
import Prisma.Translator.Theorems.Fuse

-- The guest bytes that a block depends on.

namespace Prisma.Translator

open Decoder

variable {bytes bytes' : List U8} {b₀ b b' : FusedBlock} {n : Nat}

theorem fuseNext_congr (h : fuseNext bytes b = .ok (some b')) :
    b.offset < b'.offset ∧ b'.instructionCount = b.instructionCount + 1 ∧
      ∀ bytes', (∀ i < b'.offset, bytes'[i]? = bytes[i]?) →
        b.offset < bytes'.length ∧ fuseNext bytes' b = .ok (some b') := by
  obtain ⟨decoded, renumbered, hd, hle, hr, rfl⟩ := fuseNext_eq_some h
  obtain ⟨hpos, hlocal⟩ := decodeOneAt_reads hd
  refine ⟨Nat.lt_add_of_pos_right hpos, rfl, fun bytes' ha => ?_⟩
  have ha : ∀ i < b.offset + decoded.bytesConsumed, bytes'[i]? = bytes[i]? := ha
  have hlast := ha (b.offset + decoded.bytesConsumed - 1) (by omega)
  rw [List.getElem?_eq_getElem (l := bytes) (by omega), List.getElem?_eq_some_iff] at hlast
  obtain ⟨hlt, _⟩ := hlast
  refine ⟨by omega, ?_⟩
  rw [fuseNext, hlocal bytes' fun i hi => (ha _ (by omega)).symm]
  simp only [if_neg (show ¬bytes'.length < b.offset + decoded.bytesConsumed by omega), hr,
    Option.map_some]

-- The rounds of the loop look only at the bytes that they consume.
theorem fuseLoop_congr (h : fuseLoop bytes n b₀ = .ok b)
    (he : b.endedAtTerminator ∨ b.instructionCount = b₀.instructionCount + n) :
    b₀.offset ≤ b.offset ∧
      ∀ bytes', (∀ i < b.offset, bytes'[i]? = bytes[i]?) → fuseLoop bytes' n b₀ = .ok b := by
  induction n generalizing b₀ with
  | zero => exact ⟨by cases h; rfl, fun _ _ => h⟩
  | succ n ih =>
    unfold fuseLoop at h
    split at h
    case isFalse =>
      cases h
      have he : b.endedAtTerminator := he.resolve_right (by omega)
      exact ⟨le_refl _, fun _ _ => by simp [fuseLoop, he]⟩
    case isTrue hc =>
      obtain ⟨_, ht⟩ := Bool.and_eq_true_iff.mp hc
      split at h
      case h_1 => cases h
      case h_2 =>
        cases h
        simp_all
      case h_3 b₁ hn =>
        obtain ⟨hoff, hcount, hnext⟩ := fuseNext_congr hn
        obtain ⟨hle, hloop⟩ := ih h (he.imp_right fun he => by omega)
        refine ⟨by omega, fun bytes' ha => ?_⟩
        obtain ⟨hlt, hn'⟩ := hnext bytes' fun i hi => ha i (by omega)
        rw [fuseLoop, if_pos (by rw [ht, decide_eq_true hlt, Bool.and_true]), hn']
        exact hloop bytes' ha

-- A block that ends at a terminator or at the instruction cap is the same in every buffer that starts
-- with the bytes it was made from. Otherwise it depends on the bytes behind.
theorem fuseBlock_congr (h : fuseBlock guestAddr bytes maxInsns = .ok b)
    (he : b.endedAtTerminator ∨ b.instructionCount = maxInsns)
    (ha : bytes'.take b.offset = bytes.take b.offset) :
    fuseBlock guestAddr bytes' maxInsns = .ok b := by
  simp only [fuseBlock, bind, Except.bind, pure, Except.pure] at h ⊢
  split at h
  case h_1 => cases h
  case h_2 b₁ hl =>
    have hb := Except.ok.inj h
    have hoff : b.offset = b₁.offset := by rw [← hb]; split <;> rfl
    have he : b₁.endedAtTerminator ∨ b₁.instructionCount = 0 + maxInsns := by
      rw [← hb] at he
      split at he <;> simpa using he
    rw [(fuseLoop_congr hl he).right bytes' fun i hi => ?_]
    · exact h
    · simpa [List.getElem?_take, hoff, hi] using congrArg (·[i]?) ha

-- NOP and RET before different bytes.
theorem fuseBlock_congr_ret : ∃ b, fuseBlock 0 [0x90, 0xC3] 8 = .ok b ∧
    fuseBlock 0 [0x90, 0xC3, 0x06, 0xFF] 8 = .ok b :=
  ⟨_, rfl, @fuseBlock_congr [0x90, 0xC3] _ _ _ _ rfl (.inl rfl) rfl⟩

end Prisma.Translator
