import Prisma.Decoder.Encoding
import Prisma.Decoder.Theorems.Bytes
import Prisma.Lib.Locality

-- Which bytes the parsers of operands and immediates look at.

namespace Prisma.Decoder

open Emission

-- From `start` on, the two buffers have the same byte at `i`.
def sameByte (start i : Nat) (bytes bytes' : List U8) : Prop :=
  start ≤ i → bytes[i]? = bytes'[i]?

variable {start : Nat} (prefixes : PrefixSet) (cursor offset : Nat) (ripAfter : U64) (modrm : ModRm)
  (size : OpSize)

section Parse

instance :
    ReadsSpec (sameByte start) (fun bytes => (liftM (byteAt bytes offset) : Emit U8))
      (start ≤ offset) (fun _ => offset + 1) fun bytes b => bytes[offset]? = some b := by
  refine .lift fun hs bytes b h => ⟨byteAt_eq_ok.mp h, fun bytes' ha => ?_⟩
  have heq := ha offset (Nat.lt_succ_self _) hs
  exact byteAt_eq_ok.mpr (heq ▸ byteAt_eq_ok.mp h)

theorem bytesAt_congr {bytes bytes' : List U8} (hn : 0 < n)
    (h : ∀ i < n, bytes[offset + i]? = bytes'[offset + i]?) :
    bytesAt bytes offset n = bytesAt bytes' offset n := by
  have hlen : offset + n ≤ bytes.length ↔ offset + n ≤ bytes'.length := by
    have : bytes[offset + (n - 1)]? = none ↔ bytes'[offset + (n - 1)]? = none := by
      rw [h (n - 1) (by omega)]
    simp only [List.getElem?_eq_none_iff] at this
    omega
  have htake : (bytes.drop offset).take n = (bytes'.drop offset).take n := by
    refine List.ext_getElem? fun i => ?_
    simp only [List.getElem?_take, List.getElem?_drop]
    split
    case isTrue hi => exact h i hi
    case isFalse => rfl
  simp only [bytesAt, hlen, htake]

theorem agree_window (hs : start ≤ offset) (ha : Agree (sameByte start) (offset + n) bytes bytes') :
    ∀ i < n, bytes[offset + i]? = bytes'[offset + i]? :=
  fun i hi => ha (offset + i) (by omega) (by omega)

theorem readsSpec_of_window {α : Type} {e : List U8 → Parse α} {n : Nat} {pre : Prop}
    (hpre : pre → start ≤ offset)
    (he : pre → ∀ bytes bytes', (∀ i < n, bytes[offset + i]? = bytes'[offset + i]?) →
      e bytes = e bytes') :
    ReadsSpec (sameByte start) (fun bytes => (liftM (e bytes) : Emit α)) pre
      (fun _ => offset + n) fun _ _ => True := by
  refine .lift fun hp bytes a h => ⟨trivial, fun bytes' ha => ?_⟩
  rw [← h, he hp bytes bytes' (agree_window offset (hpre hp) ha)]

theorem readImm_congr {bytes bytes' : List U8} {n : Nat} (hn : 0 < n)
    (h : ∀ i < n, bytes[offset + i]? = bytes'[offset + i]?) :
    readImm bytes offset n = readImm bytes' offset n := by
  rw [readImm, readImm, bytesAt_congr offset hn h]

instance :
    ReadsSpec (sameByte start) (fun bytes => (liftM (readImm bytes offset n) : Emit U64))
      (start ≤ offset ∧ 0 < n) (fun _ => offset + n) fun _ _ => True :=
  readsSpec_of_window offset And.left fun h _ _ => readImm_congr offset h.right

instance :
    ReadsSpec (sameByte start) (fun bytes => (liftM (parseModrm bytes offset) : Emit ModRm))
      (start ≤ offset) (fun _ => offset + 1)
      fun bytes modrm => modrmAt bytes offset = some modrm := by
  refine .lift fun hs bytes modrm h => ?_
  have ⟨b, hb, hm⟩ := parseModrm_eq_ok.mp h
  refine ⟨by simp [modrmAt, hb, hm], fun bytes' ha => ?_⟩
  have heq := ha offset (Nat.lt_succ_self _) hs
  exact parseModrm_eq_ok.mpr ⟨b, heq ▸ hb, hm⟩

theorem readDisp32_congr {bytes bytes' : List U8}
    (h : ∀ i < 4, bytes[offset + i]? = bytes'[offset + i]?) :
    readDisp32 bytes offset = readDisp32 bytes' offset := by
  rw [readDisp32, readDisp32, bytesAt_congr offset (by omega) h]

theorem byteAt_congr {bytes bytes' : List U8} (h : bytes[offset]? = bytes'[offset]?) :
    byteAt bytes offset = byteAt bytes' offset := by
  simp only [byteAt, h]

end Parse

section Operands

-- One byte too many, for a register operand with rm = 4.
def registerSib (modrm : ModRm) : Nat :=
  if modrm.mod = 3 ∧ modrm.rm = 4 then 1 else 0

theorem bytesForModrm_eq_ok (h : bytesForModrm modrm bytes cursor = .ok n) :
    n = rmLength modrm bytes cursor + registerSib modrm := by
  unfold bytesForModrm at h
  split at h
  case isTrue hrm =>
    cases hb : bytes[cursor + 1]? with
    | none => simp [byteAt, hb, Bind.bind, Except.bind] at h
    | some b =>
      simp [byteAt, hb, Bind.bind, Except.bind, Pure.pure, Except.pure] at h
      simp only [rmLength, sibLength, dispLength, registerSib, hrm, hb, ← h, Option.map_some,
        Option.some.injEq, Sib.ofByte]
      grind
  case isFalse hrm =>
    split at h
    case isTrue h' =>
      cases h
      simp [rmLength, sibLength, dispLength, registerSib, h'.left, h'.right]
    case isFalse h' =>
      cases h
      simp only [rmLength, sibLength, dispLength, registerSib, hrm]
      grind

instance :
    ReadsSpec (sameByte start) (fun bytes => (liftM (bytesForModrm modrm bytes cursor) : Emit Nat))
      (start ≤ cursor) (fun n => cursor + n)
      fun bytes n => n = rmLength modrm bytes cursor + registerSib modrm ∧ 1 ≤ n := by
  refine .lift fun hs bytes n h => ?_
  have hn := bytesForModrm_eq_ok _ _ h
  refine ⟨⟨hn, by rw [hn, rmLength]; omega⟩, fun bytes' ha => ?_⟩
  rw [← h]
  unfold bytesForModrm at h ⊢
  by_cases hrm : modrm.rm = 4
  · have hlen : 2 ≤ n := by
      simp only [rmLength, sibLength, registerSib, hrm] at hn
      split at hn <;> split at hn <;> grind
    have heq : bytes[cursor + 1]? = bytes'[cursor + 1]? := ha (cursor + 1) (by omega) (by omega)
    simp only [if_pos hrm, byteAt_congr _ heq]
  · simp only [if_neg hrm]

instance :
    ReadsSpec (sameByte start)
      (fun bytes => (liftM (parseOptionalSib modrm bytes offset) : Emit (Option Sib)))
      (start ≤ offset) (fun _ => offset + sibLength modrm)
      fun bytes sib => sib.isSome.toNat = sibLength modrm ∧
        (modrm.mod ≠ 3 → modrm.rm = 4 → sib = bytes[offset]?.map Sib.ofByte) := by
  refine .lift fun hs bytes sib h => ?_
  unfold parseOptionalSib at h ⊢
  by_cases hm : modrm.mod ≠ 3 ∧ modrm.rm = 4
  case pos =>
    simp only [if_pos hm] at h ⊢
    cases hb : bytes[offset]? with
    | none => simp [parseSib, byteAt, hb, Bind.bind, Except.bind, Functor.map, Except.map] at h
    | some b =>
      have hsib : sib = some (.ofByte b) := by
        simpa [parseSib, byteAt, hb, Bind.bind, Except.bind, Functor.map, Except.map, Pure.pure,
          Except.pure, eq_comm] using h
      refine ⟨⟨by simp only [hsib, sibLength, if_pos hm]; rfl, fun _ _ => hsib⟩, fun bytes' ha => ?_⟩
      have heq : bytes[offset]? = bytes'[offset]? :=
        ha offset (by simp only [sibLength, if_pos hm]; omega) hs
      rw [← h, parseSib, parseSib, byteAt_congr _ heq]
  case neg =>
    simp only [if_neg hm] at h ⊢
    cases h
    refine ⟨⟨by simp only [sibLength, if_neg hm]; rfl, fun h₁ h₂ => ?_⟩, fun _ _ => rfl⟩
    exact absurd ⟨h₁, h₂⟩ hm

theorem dispLength_of_ne {modrm : ModRm} (h0 : modrm.mod ≠ 0) (h1 : modrm.mod ≠ 1)
    (h3 : modrm.mod ≠ 3) : dispLength modrm base = 4 := by
  have h2 : modrm.mod = 2 := by
    generalize modrm.mod = mod at *
    revert mod
    decide
  simp [dispLength, h2]

instance :
    ReadsSpec (sameByte start)
      (fun bytes => (liftM (decodeAddr modrm sib prefixes bytes offset) : Emit AddrMode))
      (start ≤ offset) (fun _ => offset + dispLength modrm (sib.map Sib.base))
      fun _ _ => modrm.mod ≠ 3 := by
  refine .lift fun hs bytes addr h => ?_
  have hmod : modrm.mod ≠ 3 := by
    intro hmod
    simp [decodeAddr, hmod] at h
  refine ⟨hmod, fun bytes' ha => ?_⟩
  rw [← h]
  have h1 (hd : dispLength modrm (sib.map Sib.base) = 1) :
      readDisp8 bytes' offset = readDisp8 bytes offset :=
    byteAt_congr _ (ha offset (by omega) hs).symm
  have h4 (hd : dispLength modrm (sib.map Sib.base) = 4) :
      readDisp32 bytes' offset = readDisp32 bytes offset :=
    readDisp32_congr _ fun i hi => (ha (offset + i) (by omega) (by omega)).symm
  simp only [decodeAddr, if_neg hmod]
  by_cases hrm : modrm.rm = 4
  case pos =>
    by_cases h0 : modrm.mod = 0
    case pos =>
      simp only [if_pos hrm, if_pos h0]
      cases sib with
      | none => rfl
      | some sib =>
        by_cases hb : sib.base = 5
        case pos => simp only [if_pos hb, h4 (by simp [dispLength, hrm, h0, hb])]
        case neg => simp only [if_neg hb]
    case neg =>
      simp only [if_pos hrm, if_neg h0]
      by_cases hm1 : modrm.mod = 1
      case pos => simp only [if_pos hm1, h1 (by simp [dispLength, hm1])]
      case neg => simp only [if_neg hm1, h4 (dispLength_of_ne h0 hm1 hmod)]
  case neg =>
    by_cases h0 : modrm.mod = 0
    case pos =>
      simp only [if_neg hrm, if_pos h0]
      by_cases h5 : modrm.rm = 5
      case pos => simp only [if_pos h5, h4 (by simp [dispLength, h0, h5])]
      case neg => simp only [if_neg h5]
    case neg =>
      simp only [if_neg hrm, if_neg h0]
      by_cases hm1 : modrm.mod = 1
      case pos => simp only [if_pos hm1, h1 (by simp [dispLength, hm1])]
      case neg => simp only [if_neg hm1, h4 (dispLength_of_ne h0 hm1 hmod)]

instance emitAddrWithSizeAt_reads :
    ReadsSpec (sameByte start)
      (fun bytes => emitAddrWithSizeAt modrm prefixes bytes cursor ripAfter) (start ≤ cursor)
      (fun p => cursor + p.2)
      fun bytes p => p.2 = rmLength modrm bytes cursor ∧ 1 ≤ p.2 ∧ modrm.mod ≠ 3 where
  reads hs := by
    unfold emitAddrWithSizeAt
    refine .bind hs fun n => .bind (by omega) fun sib => ?_
    refine .bind (by omega) fun addr => .bind trivial fun r => .pure fun bytes h => ?_
    obtain ⟨⟨⟨⟨_, hn, h1⟩, hsib, hbase⟩, hmod⟩, _⟩ := h
    have hreg : registerSib modrm = 0 := if_neg fun h => hmod h.left
    have hdisp : dispLength modrm (sib.map Sib.base) =
        dispLength modrm (bytes[cursor + 1]?.map fun b => (Sib.ofByte b).base) := by
      by_cases hrm : modrm.rm = 4
      case pos => rw [hbase hmod hrm]; simp [Function.comp_def]
      case neg => simp only [dispLength, hrm, false_and, or_false]
    rw [rmLength] at hn ⊢
    refine ⟨?_, by omega, h1, hmod⟩
    rw [hsib, hdisp]
    omega

instance :
    ReadsSpec (sameByte start) (fun bytes => emitAddrWithSize modrm prefixes bytes cursor)
      (start ≤ cursor) (fun p => cursor + p.2)
      fun bytes p => p.2 = rmLength modrm bytes cursor ∧ 1 ≤ p.2 ∧ modrm.mod ≠ 3 :=
  emitAddrWithSizeAt_reads prefixes cursor 0 modrm

instance rmOperandAt_reads :
    ReadsSpec (sameByte start) (fun bytes => rmOperandAt modrm prefixes bytes cursor ripAfter)
      (start ≤ cursor) (fun p => cursor + p.2)
      fun bytes p => p.2 = rmLength modrm bytes cursor ∧ 1 ≤ p.2 where
  reads hs := by
    unfold rmOperandAt
    split
    case isTrue hmod =>
      exact .pure fun _ _ => by simp [rmLength, sibLength, dispLength, hmod]
    case isFalse =>
      refine .bind hs fun p => .pure fun _ h => ?_
      exact ⟨by omega, h.right.left, h.right.right.left⟩

instance rmOperand_reads :
    ReadsSpec (sameByte start) (fun bytes => rmOperand modrm prefixes bytes cursor)
      (start ≤ cursor) (fun p => cursor + p.2)
      fun bytes p => p.2 = rmLength modrm bytes cursor ∧ 1 ≤ p.2 :=
  rmOperandAt_reads prefixes cursor 0 modrm

instance :
    ReadsSpec (sameByte start) (fun bytes => loadRm modrm prefixes bytes cursor size)
      (start ≤ cursor) (fun p => cursor + p.2)
      fun bytes p => p.2 = rmLength modrm bytes cursor ∧ 1 ≤ p.2 := .derive

end Operands

end Prisma.Decoder
