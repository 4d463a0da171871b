import Prisma.Decoder.Dispatch

namespace Prisma.Decoder

variable {bytes : List U8} {offset : Nat}

theorem byteAt_eq_ok : byteAt bytes offset = .ok b ↔ bytes[offset]? = some b := by
  unfold byteAt
  split <;> simp_all

theorem readImm_of_byteAt (h : byteAt bytes offset = .ok b) :
    readImm bytes offset 1 = .ok (b.setWidth 64) := by
  have hb := byteAt_eq_ok.mp h
  have ⟨hlt, heq⟩ := List.getElem?_eq_some_iff.mp hb
  have htake : (bytes.drop offset).take 1 = [b] := by
    rw [List.drop_eq_getElem_cons hlt, heq]
    rfl
  simp [readImm, bytesAt, Nat.succ_le_of_lt hlt, htake, leValue, Bind.bind, Except.bind, Pure.pure,
    Except.pure]

theorem parseModrm_eq_ok :
    parseModrm bytes offset = .ok modrm ↔ ∃ b, bytes[offset]? = some b ∧ modrm = .ofByte b := by
  cases h : bytes[offset]? with
  | none => simp [parseModrm, byteAt, h, Bind.bind, Except.bind]
  | some b => simp [parseModrm, byteAt, h, Bind.bind, Except.bind, Pure.pure, Except.pure, eq_comm]

theorem addSignedDisp_eq (base disp : U64) : addSignedDisp base disp = base + disp := by
  unfold addSignedDisp
  split
  case isTrue => rfl
  case isFalse => rw [BitVec.sub_eq_add_neg, BitVec.neg_neg]

theorem parseFrom_rex (rest : List U8) {q : PrefixSet} (cursor : Nat)
    (h : q.rex.present = false → q.rex = {}) (hp : (q.parseFrom cursor rest).1.rex.present = false) :
    (q.parseFrom cursor rest).1.rex = {} := by
  induction rest generalizing q cursor with
  | nil => exact h hp
  | cons b rest ih =>
    unfold PrefixSet.parseFrom at hp ⊢
    split at hp
    case isTrue hb => rw [if_pos hb]; cases rest <;> exact h hp
    case isFalse hb =>
    rw [if_neg hb]
    split at hp
    case isTrue hb =>
      rw [if_pos hb]
      split at hp <;> exact h hp
    case isFalse hb =>
      rw [if_neg hb]
      cases hq : q.withByte b with
      | none => rw [hq] at hp; exact h hp
      | some q' =>
        rw [hq] at hp
        refine ih (cursor + 1) ?_ hp
        unfold PrefixSet.withByte at hq
        split at hq
        case isTrue => cases hq; nofun
        case isFalse => split at hq <;> cases hq <;> exact h

theorem parsePrefixes_rex (h : (parsePrefixes bytes offset).1.rex.present = false) :
    (parsePrefixes bytes offset).1.rex = {} :=
  parseFrom_rex _ _ (fun _ => rfl) h

theorem decodeOneAt_eq_ok (h : decodeOneAt bytes offset pc = .ok d) :
    ∃ opcode consumed, bytes[(parsePrefixes bytes offset).2]? = some opcode ∧
      decodeOpcode (parsePrefixes bytes offset).1 opcode bytes (parsePrefixes bytes offset).2
        (pc + BitVec.ofNat 64 ((parsePrefixes bytes offset).2 - offset)) [] =
          .ok (consumed, d.stmts) ∧
      d.bytesConsumed = (parsePrefixes bytes offset).2 - offset + consumed := by
  simp only [decodeOneAt, Bind.bind, Except.bind] at h
  split at h
  case h_1 => cases h
  case h_2 opcode hop =>
    split at h
    case h_1 => cases h
    case h_2 r hr =>
      cases h
      exact ⟨opcode, r.1, byteAt_eq_ok.mp hop, hr, rfl⟩

theorem decodeOneAt_of_decodeOpcode (hp : parsePrefixes bytes offset = (prefixes, cursor))
    (hop : bytes[cursor]? = some opcode)
    (h : decodeOpcode prefixes opcode bytes cursor (pc + BitVec.ofNat 64 (cursor - offset)) [] =
      .ok (consumed, stmts)) :
    decodeOneAt bytes offset pc = .ok { stmts, bytesConsumed := cursor - offset + consumed } := by
  have h : (decodeOpcode prefixes opcode bytes cursor
      (pc + BitVec.ofNat 64 (cursor - offset))).run [] = .ok (consumed, stmts) := h
  simp only [decodeOneAt, hp, byteAt_eq_ok.mpr hop, h, Bind.bind, Except.bind]
  rfl

section Tables

-- The opcodes of the classes that are treated apart from the others.
structure ClassOpcodes (op : U8) : Prop where
  group5 : classifyOneByte op = .group5 → op = 0xFF
  twoByte : classifyOneByte op = .twoBytePrefix → op = 0x0F
  aluRmImm : classifyOneByte op = .aluRmImm ∨ classifyOneByte op = .aluRmImm8 ↔
    op ∈ [0x80, 0x81, 0x83]

theorem classifyOneByte_inj (op : U8) : ClassOpcodes op := by
  have h : ∀ op : U8, (classifyOneByte op = .group5 → op = 0xFF) ∧
      (classifyOneByte op = .twoBytePrefix → op = 0x0F) ∧
      (classifyOneByte op = .aluRmImm ∨ classifyOneByte op = .aluRmImm8 ↔
        op ∈ [0x80, 0x81, 0x83]) := by
    decide +kernel
  exact ⟨(h op).left, (h op).right.left, (h op).right.right⟩

theorem classifyTwoByte_inj (op2 : U8) : classifyTwoByte op2 = .cmpxchg8b16b → op2 = 0xC7 := by
  revert op2
  decide +kernel

theorem numbers (n : BitVec 3) : n = 0 ∨ n = 1 ∨ n = 2 ∨ n = 3 ∨ n = 4 ∨ n = 5 ∨ n = 6 ∨ n = 7 := by
  revert n
  decide

end Tables

end Prisma.Decoder
