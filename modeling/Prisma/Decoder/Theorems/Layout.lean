import Prisma.Decoder.Theorems.Encoding
import Prisma.Decoder.Theorems.Prefixes

-- The prefixes that the decoder collects are those of the instruction format.

namespace Prisma.Decoder

section Prefixes

theorem isOpcodeByte_of_format (b : U8) :
    (oneByteFormat b).isSome ∨ b = 0x0F → isOpcodeByte b := by
  revert b
  decide +kernel

theorem le_parseFrom (rest : List U8) (q : PrefixSet) (cursor : Nat) :
    cursor ≤ (q.parseFrom cursor rest).2 := by
  induction rest generalizing q cursor with
  | nil => exact Nat.le_refl _
  | cons b rest ih =>
    unfold PrefixSet.parseFrom
    split
    case isTrue => split <;> dsimp only <;> omega
    case isFalse =>
    split
    case isTrue => split <;> dsimp only <;> omega
    case isFalse =>
      split
      case h_1 q' _ => have := ih q' (cursor + 1); omega
      case h_2 => exact Nat.le_refl _

theorem parseFrom_congr {rest' : List U8} {q : PrefixSet}
    (h : q.parseFrom cursor rest = (q', cursor + k)) (hb : rest[k]? = some b)
    (ha : ∀ i ≤ k, rest[i]? = rest'[i]?) : q.parseFrom cursor rest' = (q', cursor + k) := by
  induction rest generalizing q cursor k rest' with
  | nil => cases hb
  | cons c rest ih =>
    have h0 := ha 0 (Nat.zero_le _)
    cases rest' with
    | nil => cases h0
    | cons c' rest' =>
      cases h0
      have ha' : ∀ i < k, rest[i]? = rest'[i]? := fun i hi => by simpa using ha (i + 1) hi
      unfold PrefixSet.parseFrom at h ⊢
      by_cases h5 : c = 0xC5
      case pos =>
        simp only [if_pos h5] at h ⊢
        cases rest with
        | nil =>
          obtain ⟨-, rfl⟩ : q = q' ∧ 1 = k := by simpa using h
          cases hb
        | cons b2 rest =>
          obtain ⟨-, rfl⟩ : _ ∧ 2 = k := by simpa using h
          cases rest' with
          | nil => cases ha' 0 (by omega)
          | cons => cases ha' 0 (by omega); exact h
      case neg =>
      by_cases h4 : c = 0xC4
      case pos =>
        simp only [if_neg h5, if_pos h4] at h ⊢
        rcases rest with _ | ⟨_, _ | ⟨_, rest⟩⟩
        · obtain ⟨-, rfl⟩ : q = q' ∧ 1 = k := by simpa using h
          cases hb
        · obtain ⟨-, rfl⟩ : q = q' ∧ 2 = k := by simpa using h
          cases hb
        · obtain ⟨-, rfl⟩ : _ ∧ 3 = k := by simpa using h
          rcases rest' with _ | ⟨_, _ | _⟩
          · cases ha' 0 (by omega)
          · cases ha' 1 (by omega)
          · cases ha' 0 (by omega)
            cases ha' 1 (by omega)
            exact h
      case neg =>
        simp only [if_neg h5, if_neg h4] at h ⊢
        cases hq : q.withByte c with
        | none => simpa only [hq] using h
        | some q₁ =>
          simp only [hq] at h ⊢
          have hle := le_parseFrom rest q₁ (cursor + 1)
          rw [h] at hle
          obtain ⟨k, rfl⟩ : ∃ k', k = k' + 1 := ⟨k - 1, by dsimp only at hle; omega⟩
          rw [Nat.add_comm k, ← Nat.add_assoc] at h ⊢
          exact ih h (by simpa using hb) fun i hi => ha' i (by omega)

end Prefixes

section Footprint

variable {bytes : List U8} {offset : Nat} {pc : U64} {d : Decoded}

-- The decoder consumes at least the opcode, and looks at no byte behind those it consumes.
theorem decodeOneAt_reads (h : decodeOneAt bytes offset pc = .ok d) :
    1 ≤ d.bytesConsumed ∧
      ∀ bytes', (∀ i < d.bytesConsumed, bytes[offset + i]? = bytes'[offset + i]?) →
        decodeOneAt bytes' offset pc = .ok d := by
  have ⟨opcode, n, hop, hrun, hd⟩ := decodeOneAt_eq_ok h
  obtain ⟨k, hk⟩ : ∃ k, (parsePrefixes bytes offset).2 = offset + k :=
    Nat.exists_eq_add_of_le (le_parseFrom ..)
  generalize hp : parsePrefixes bytes offset = p at hop hrun hd hk
  obtain ⟨q, cursor⟩ := p
  have hk : cursor = offset + k := hk
  subst hk
  have hw : q.rex.w → q.rex.present := by
    intro hw
    by_contra hn
    have hrex : q.rex = {} := by
      have h := @parsePrefixes_rex bytes offset (by rw [hp]; simpa using hn)
      rwa [hp] at h
    rw [hrex] at hw
    cases hw
  have ⟨_, hn, hlocal⟩ := (decodeOpcode_reads q opcode (offset + k) _ hw).reads
    (Nat.le_add_right offset k) bytes trivial [] n d.stmts hrun
  have hpos : 1 ≤ n := by
    split at hn
    case isTrue => exact hn.pos
    case isFalse => exact hn.pos
  simp only [Nat.add_sub_cancel_left] at hrun hd
  refine ⟨by omega, fun bytes' ha => ?_⟩
  have hp' : parsePrefixes bytes' offset = (q, offset + k) :=
    parseFrom_congr hp (by simpa using hop) fun i hi => by simpa using ha i (by omega)
  have hop' : bytes'[offset + k]? = some opcode := (ha k (by omega)).symm.trans hop
  have hrun' := hlocal bytes' fun i hi hs => by
    have hi : i < offset + k + n := hi
    have := ha (i - offset) (by omega)
    rwa [Nat.add_sub_cancel' hs] at this
  rw [decodeOneAt_of_decodeOpcode hp' hop' hrun', Nat.add_sub_cancel_left, ← hd]

-- The translation of the consumed bytes is the same in every buffer that has them there.
theorem decodeOneAt_consumed_congr (h : decodeOneAt bytes offset pc = .ok d) {bytes' : List U8}
    (ha : (bytes'.drop offset).take d.bytesConsumed = (bytes.drop offset).take d.bytesConsumed) :
    decodeOneAt bytes' offset pc = .ok d ∧ 1 ≤ d.bytesConsumed := by
  have ⟨hpos, hlocal⟩ := decodeOneAt_reads h
  refine ⟨hlocal bytes' fun i hi => ?_, hpos⟩
  have hi' := congrArg (·[i]?) ha
  simpa [List.getElem?_take, hi] using hi'.symm

-- `add word [r8 + rcx * 4 + 0x10], 0x1234`
def addWord : List U8 :=
  [0x66, 0x41, 0x81, 0x84, 0x88, 0x10, 0x00, 0x00, 0x00, 0x34, 0x12]

theorem decodeOneAt_consumed_congr_addWord :
    ∃ d, d.bytesConsumed = 11 ∧ decodeOneAt (0xCC :: addWord) 1 0 = .ok d ∧
      decodeOneAt (0x00 :: addWord ++ [0xFF]) 1 0 = .ok d := by
  have hlen : (decodeOneAt (0xCC :: addWord) 1 0).toOption.map Decoded.bytesConsumed = some 11 := by
    decide +kernel
  cases hd : decodeOneAt (0xCC :: addWord) 1 0 with
  | error => rw [hd] at hlen; cases hlen
  | ok d =>
    rw [hd] at hlen
    have hlen : d.bytesConsumed = 11 := Option.some.inj hlen
    have ⟨hd', _⟩ := @decodeOneAt_consumed_congr _ _ _ _ hd (0x00 :: addWord ++ [0xFF])
      (by rw [hlen]; rfl)
    exact ⟨d, hlen, rfl, hd'⟩

end Footprint

section Layout

variable {bytes : List U8} {offset : Nat}

-- A ModR/M byte with mod = 3 and rm = 4.
def isRegister4 (bytes : List U8) (offset : Nat) : Bool :=
  (modrmAt bytes offset).any fun modrm => modrm.mod = 3 && modrm.rm = 4

-- A register operand with rm = 4 (RSP or R12) in one of the forms that take the operand's length from
-- `bytes_for_modrm`.
def countsRegisterSib (bytes : List U8) (offset : Nat) : Bool :=
  let p := prefixesAt bytes offset
  let cursor := offset + p.count
  match p.vexMap, bytes[cursor]? with
  | none, some opcode =>
    if opcode = 0x0F then
      match bytes[cursor + 1]? with
      | some op2 =>
        (classifyTwoByte op2).countsSib (regAt bytes (cursor + 2)) &&
          isRegister4 bytes (cursor + 2)
      | none => false
    else
      (classifyOneByte opcode).countsSib p.operandSize (regAt bytes (cursor + 1)) &&
        isRegister4 bytes (cursor + 1)
  | _, _ => false

-- The bytes that the decoder counts beyond the instruction.
def countedSib (bytes : List U8) (offset : Nat) : Nat :=
  (countsRegisterSib bytes offset).toNat

theorem registerSibAt_eq (bytes : List U8) (offset : Nat) :
    registerSibAt bytes offset = (isRegister4 bytes offset).toNat := by
  unfold registerSibAt isRegister4
  cases modrmAt bytes offset with
  | none => rfl
  | some modrm =>
    simp only [registerSib, Option.any_some, ← Bool.decide_and]
    by_cases h : modrm.mod = 3 ∧ modrm.rm = 4
    case pos => rw [if_pos h, decide_eq_true h, Bool.toNat_true]
    case neg => rw [if_neg h, decide_eq_false h, Bool.toNat_false]

theorem toNat_and (c b : Bool) : (c && b).toNat = if c then b.toNat else 0 := by
  cases c <;> rfl

theorem opcodeFormat_eq_some (h : opcodeFormat vexMap bytes cursor = some (k, format)) :
    ∃ opcode, bytes[cursor]? = some opcode ∧
      (vexMap = some 2 ∧ k = 1 ∧ vexFormat opcode = some format ∨
      vexMap = none ∧ opcode = 0x0F ∧ bytes[cursor + 1]? = some 0x38 ∧ k = 3 ∧
        format = ⟨true, .none⟩ ∨
      (∃ op2, vexMap = none ∧ opcode = 0x0F ∧ bytes[cursor + 1]? = some op2 ∧ k = 2 ∧
        twoByteFormat op2 = some format) ∨
      vexMap = none ∧ opcode ≠ 0x0F ∧ k = 1 ∧ oneByteFormat opcode = some format) := by
  unfold opcodeFormat at h
  simp only [Option.bind_eq_bind, Option.bind_eq_some_iff] at h
  have ⟨opcode, hop, h⟩ := h
  refine ⟨opcode, hop, ?_⟩
  split at h
  case h_1 map =>
    split at h
    case isTrue hm =>
      simp only [Option.map_eq_map, Option.map_eq_some_iff, Prod.mk.injEq] at h
      obtain ⟨_, hf, rfl, rfl⟩ := h
      exact .inl ⟨by rw [hm], rfl, hf⟩
    case isFalse => cases h
  case h_2 =>
    split at h
    case isTrue h0F =>
      simp only [Option.bind_eq_some_iff] at h
      have ⟨op2, hop2, h⟩ := h
      split at h
      case isTrue h38 =>
        simp only [Option.bind_eq_some_iff, Option.map_eq_map, Option.map_eq_some_iff,
          Prod.mk.injEq] at h
        obtain ⟨_, _, format, hf, rfl, rfl⟩ := h
        unfold threeByteFormat at hf
        split at hf
        case isTrue =>
          cases hf
          exact .inr (.inl ⟨rfl, h0F, by rw [hop2, h38], rfl, rfl⟩)
        case isFalse => cases hf
      case isFalse =>
        simp only [Option.map_eq_map, Option.map_eq_some_iff, Prod.mk.injEq] at h
        obtain ⟨_, hf, rfl, rfl⟩ := h
        exact .inr (.inr (.inl ⟨op2, rfl, h0F, hop2, rfl, hf⟩))
    case isFalse h0F =>
      simp only [Option.map_eq_map, Option.map_eq_some_iff, Prod.mk.injEq] at h
      obtain ⟨_, hf, rfl, rfl⟩ := h
      exact .inr (.inr (.inr ⟨rfl, h0F, rfl, hf⟩))

theorem layout_eq_some (h : layout bytes offset = some l) :
    ∃ k format, opcodeFormat (prefixesAt bytes offset).vexMap bytes
        (offset + (prefixesAt bytes offset).count) = some (k, format) ∧
      l.immOffset = (prefixesAt bytes offset).count + k +
        rmBytes format bytes (offset + (prefixesAt bytes offset).count + k) ∧
      ∀ q, (prefixesAt bytes offset).Matches q →
        l.imm = immLength q format bytes (offset + (prefixesAt bytes offset).count + k) := by
  simp only [layout, Option.bind_eq_bind, Option.bind_eq_some_iff] at h
  have ⟨⟨k, format⟩, hf, h⟩ := h
  refine ⟨k, format, hf, ?_⟩
  dsimp only at h
  split at h
  case isTrue hm =>
    simp only [Option.bind_eq_some_iff] at h
    have ⟨modrm, hmodrm, h⟩ := h
    cases h
    refine ⟨?_, fun q hq => ?_⟩
    · simp only [rmBytes, if_pos hm, rmLengthAt, hmodrm, Layout.immOffset, rmLength]
      omega
    · simp only [immLength, if_pos hm, regAt, hmodrm, Option.map_some, Option.getD_some,
        hq.operandSize, hq.addressSize, hq.rex]
  case isFalse hm =>
    cases h
    refine ⟨?_, fun q hq => ?_⟩
    · simp only [rmBytes, if_neg hm, Layout.immOffset]
    · simp only [immLength, if_neg hm, hq.operandSize, hq.addressSize, hq.rex]

theorem consumed_of_format (hq : (prefixesAt bytes offset).Matches q)
    (hop : bytes[offset + (prefixesAt bytes offset).count]? = some opcode)
    (hf : opcodeFormat (prefixesAt bytes offset).vexMap bytes
      (offset + (prefixesAt bytes offset).count) = some (k, format))
    (hn : if q.vex.isSome then VexLength q opcode (offset + (prefixesAt bytes offset).count) bytes n
      else OneByteLength q opcode (offset + (prefixesAt bytes offset).count) bytes n) :
    n = k + operandLength q format bytes (offset + (prefixesAt bytes offset).count + k) +
      countedSib bytes offset := by
  have ⟨opcode', hop', hc⟩ := opcodeFormat_eq_some hf
  cases hop.symm.trans hop'
  obtain ⟨hv, rfl, hvf⟩ | ⟨hv, h0F, h38, rfl, rfl⟩ | ⟨op2, hv, h0F, hop2, rfl, htf⟩ |
    ⟨hv, h0F, rfl, hof⟩ := hc
  · have hvex : q.vex.map VexPrefix.mmmm = some 2 := hq.vexMap.trans hv
    have hsome : q.vex.isSome := by cases h : q.vex <;> simp [h] at hvex ⊢
    rw [if_pos hsome] at hn
    simp only [countedSib, countsRegisterSib, hv, Bool.toNat_false, Nat.add_zero]
    exact hn.format format hvex hvf
  all_goals
    have hvex : q.vex.map VexPrefix.mmmm = none := hq.vexMap.trans hv
    have hnone : ¬q.vex.isSome := by cases h : q.vex <;> simp [h] at hvex ⊢
    rw [if_neg hnone] at hn
  · have ⟨op2, m, hop2, hm, hnm⟩ := hn.twoByte h0F
    cases hop2.symm.trans h38
    have hm := hm.threeByte rfl
    have hc : (classifyTwoByte 0x38).countsSib (regAt bytes
        (offset + (prefixesAt bytes offset).count + 2)) = false := rfl
    simp only [countedSib, countsRegisterSib, hv, hop, h0F, h38, if_true, operandLength_rm,
      Immediate.length, hc, Bool.false_and, Bool.toNat_false, hnm, hm]
    omega
  · have ⟨op2', m, hop2', hm, hnm⟩ := hn.twoByte h0F
    cases hop2.symm.trans hop2'
    have hm := hm.format format htf
    simp only [countedSib, countsRegisterSib, hv, hop, h0F, hop2, if_true, toNat_and,
      ← registerSibAt_eq]
    omega
  · simp only [countedSib, countsRegisterSib, hv, hop, if_neg h0F, ← hq.operandSize, toNat_and,
      ← registerSibAt_eq]
    exact hn.format format hof

theorem decodeOneAt_run (h : decodeOneAt bytes offset pc = .ok d)
    (hl : layout bytes offset = some l) :
    ∃ q opcode n, parsePrefixes bytes offset = (q, offset + (prefixesAt bytes offset).count) ∧
      (prefixesAt bytes offset).Matches q ∧
      bytes[offset + (prefixesAt bytes offset).count]? = some opcode ∧
      decodeOpcode q opcode bytes (offset + (prefixesAt bytes offset).count)
        (pc + BitVec.ofNat 64 (prefixesAt bytes offset).count) [] = .ok (n, d.stmts) ∧
      d.bytesConsumed = (prefixesAt bytes offset).count + n := by
  have ⟨k, format, hf, _⟩ := layout_eq_some hl
  have ⟨opcode, hop, hc⟩ := opcodeFormat_eq_some hf
  have hbyte : (prefixesAt bytes offset).vexMap = none → isOpcodeByte opcode := by
    intro hv
    rw [hv] at hc
    refine isOpcodeByte_of_format opcode ?_
    obtain ⟨h, _⟩ | ⟨_, h, _⟩ | ⟨_, _, h, _⟩ | ⟨_, _, _, h⟩ := hc
    · cases h
    · exact .inr h
    · exact .inr h
    · exact .inl (by rw [h]; rfl)
  have ⟨q, hp, hq⟩ := parsePrefixes_of_scan hop hbyte
  have ⟨opcode', n, hop', hrun, hd⟩ := decodeOneAt_eq_ok h
  simp only [hp, Nat.add_sub_cancel_left] at hop' hrun hd
  cases hop.symm.trans hop'
  exact ⟨q, opcode, n, hp, hq, hop, hrun, hd⟩

theorem decodeOneAt_layout (h : decodeOneAt bytes offset pc = .ok d)
    (hl : layout bytes offset = some l) : d.bytesConsumed = l.length + countedSib bytes offset := by
  have ⟨k, format, hf, hoff, himm⟩ := layout_eq_some hl
  have ⟨q, opcode, n, hp, hq, hop, hrun, hd⟩ := decodeOneAt_run h hl
  have ⟨_, hn, _⟩ := (decodeOpcode_reads q opcode
    (offset + (prefixesAt bytes offset).count) _ hq.present).reads
      (Nat.le_add_right offset _) bytes trivial [] n d.stmts hrun
  have hn := consumed_of_format hq hop hf hn
  have himm := himm q hq
  have hlen : l.length = l.immOffset + l.imm := rfl
  rw [operandLength] at hn
  omega

end Layout

end Prisma.Decoder
