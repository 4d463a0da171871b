import Prisma.X86.Forms
import Prisma.Decoder.Theorems.Bytes

-- The prefixes that the decoder collects are those of the instruction format.

namespace Prisma.Decoder

section Prefixes

-- The prefix state of the decoder that corresponds to a scanned prefix.
structure Prefixes.Matches (p : Prefixes) (q : PrefixSet) : Prop where
  operandSize : q.operandOverride = p.operandSize
  addressSize : q.addrOverride = p.addressSize
  lock : q.lock = p.lock
  rep : q.rep = p.rep
  segment : q.segment = p.segment
  rex : q.rex = p.rex
  present : q.rex.w → q.rex.present
  vexMap : q.vex.map VexPrefix.mmmm = p.vexMap

theorem withByte_of_legacy {p : Prefixes} (h : isLegacyPrefix b) (hm : p.Matches q) :
    ∃ q', q.withByte b = some q' ∧
      Prefixes.Matches { p with
        count := p.count + 1
        operandSize := p.operandSize || b = 0x66
        addressSize := p.addressSize || b = 0x67
        lock := p.lock || b = 0xF0
        rep := if b = 0xF2 ∨ b = 0xF3 then some b else p.rep
        segment := (segmentOf b).or p.segment } q' := by
  have ⟨h₁, h₂, h₃, h₄, h₅, h₆, h₇, h₈⟩ := hm
  simp only [isLegacyPrefix, List.mem_cons, List.not_mem_nil, or_false, decide_eq_true_eq] at h
  obtain h | h | h | h | h | h | h | h | h | h | h := h
  all_goals
    subst h
    exact ⟨_, rfl, by simp [h₁], by simp [h₂], by simp [h₃], by simp [h₄], by simp [h₅, segmentOf],
      h₆, h₇, h₈⟩

theorem withByte_eq_none {q : PrefixSet} (h : ¬isLegacyPrefix b) (hr : b.extractLsb' 4 4 ≠ 4) :
    q.withByte b = none := by
  unfold PrefixSet.withByte
  rw [if_neg hr]
  split
  case h_12 => rfl
  all_goals exact absurd rfl h

theorem parseFrom_opcode {q : PrefixSet} (h : isOpcodeByte b) :
    q.parseFrom cursor (b :: rest) = (q, cursor) := by
  simp only [isOpcodeByte, Bool.and_eq_true, Bool.not_eq_true', decide_eq_true_eq] at h
  have ⟨⟨⟨h₁, h₂⟩, h₃⟩, h₄⟩ := h
  simp only [PrefixSet.parseFrom, h₃, h₄, if_false, withByte_eq_none (by simp [h₁]) h₂]

theorem parseFrom_of_scan (rest : List U8) (cursor : Nat) {p : Prefixes} (hm : p.Matches q)
    (hv : p.vexMap = none) :
    ∃ k, (p.scan rest).count = p.count + k ∧
      ∀ b, rest[k]? = some b → ((p.scan rest).vexMap = none → isOpcodeByte b) →
        ∃ q', q.parseFrom cursor rest = (q', cursor + k) ∧ (p.scan rest).Matches q' := by
  induction rest generalizing p q cursor with
  | nil => exact ⟨0, rfl, nofun⟩
  | cons b rest ih =>
    unfold Prefixes.scan
    split
    case isTrue hl =>
      have ⟨q', hq, hm'⟩ := withByte_of_legacy hl hm
      have ⟨k, hk, h⟩ := ih (cursor + 1) hm' hv
      have hb : b ≠ 0xC5 ∧ b ≠ 0xC4 := by
        constructor <;> (rintro rfl; exact absurd hl (by decide))
      refine ⟨k + 1, by rw [hk, Nat.add_assoc, Nat.add_comm 1], fun opcode hop hv' => ?_⟩
      have ⟨q'', hp, hm''⟩ := h opcode (by simpa using hop) hv'
      refine ⟨q'', ?_, hm''⟩
      simp only [PrefixSet.parseFrom, if_neg hb.left, if_neg hb.right, hq, hp, Nat.add_assoc,
        Nat.add_comm 1]
    case isFalse hl =>
    split
    case isTrue hr =>
      have hb : b ≠ 0xC5 ∧ b ≠ 0xC4 := by
        constructor <;> (rintro rfl; exact absurd hr (by decide))
      refine ⟨1, rfl, fun opcode hop hv' => ⟨{ q with rex := .ofByte b }, ?_, ?_⟩⟩
      · have hq : q.withByte b = some { q with rex := .ofByte b } := if_pos hr
        cases rest with
        | nil => cases hop
        | cons b' rest =>
          cases hop
          simp only [PrefixSet.parseFrom.eq_def q, if_neg hb.left, if_neg hb.right, hq,
            parseFrom_opcode (hv' hv)]
      · exact { hm with rex := rfl, present := fun _ => rfl }
    case isFalse hr =>
    split
    case isTrue h5 =>
      refine ⟨2, rfl, fun opcode hop _ => ?_⟩
      cases rest with
      | nil => cases hop
      | cons b2 rest =>
        refine ⟨{ q with vex := some (.ofByte b2) }, by simp [PrefixSet.parseFrom, h5], ?_⟩
        exact { hm with vexMap := rfl }
    case isFalse h5 =>
    split
    case isTrue h4 =>
      split
      case h_1 b2 b3 rest =>
        refine ⟨3, rfl, fun opcode hop _ => ⟨{ q with vex := some (.ofBytes b2 b3) }, ?_, ?_⟩⟩
        · simp [PrefixSet.parseFrom, h4]
        · exact { hm with vexMap := rfl }
      case h_2 =>
        refine ⟨0, rfl, fun opcode hop hv' => ?_⟩
        cases hop
        exact absurd (hv' hv) (by rw [h4]; decide)
    case isFalse h4 =>
      refine ⟨0, rfl, fun opcode hop hv' => ⟨q, ?_, hm⟩⟩
      cases hop
      exact parseFrom_opcode (hv' hv)

theorem parsePrefixes_of_scan {bytes : List U8}
    (hb : bytes[offset + (prefixesAt bytes offset).count]? = some b)
    (h : (prefixesAt bytes offset).vexMap = none → isOpcodeByte b) :
    ∃ q, parsePrefixes bytes offset = (q, offset + (prefixesAt bytes offset).count) ∧
      (prefixesAt bytes offset).Matches q := by
  have hm : Prefixes.Matches {} {} := ⟨rfl, rfl, rfl, rfl, rfl, rfl, nofun, rfl⟩
  have ⟨k, hk, hp⟩ := parseFrom_of_scan (bytes.drop offset) offset hm rfl
  rw [hk, Nat.zero_add] at hb ⊢
  exact hp b (by simpa using hb) h

theorem Prefixes.Matches.eq_set {p : Prefixes} (hm : p.Matches q) (hv : p.vexMap = none) :
    q = p.set := by
  have hvex : q.vex = none := Option.map_eq_none_iff.mp (hm.vexMap.trans hv)
  rw [Prefixes.set, ← hm.rep, ← hm.operandSize, ← hm.addressSize, ← hm.lock, ← hm.segment, ← hm.rex,
    ← hvex]

theorem instructionAt_eq_some (h : X86.instructionAt bytes offset = some insn) :
    parsePrefixes bytes offset = (insn.prefixes, insn.cursor) ∧
      bytes[insn.cursor]? = some insn.opcode ∧ insn.prefixes.vex = none := by
  simp only [X86.instructionAt, Option.bind_eq_bind, Option.bind_eq_some_iff] at h
  have ⟨opcode, ho, h⟩ := h
  split at h
  case isFalse => cases h
  case isTrue hv =>
    cases h
    have ⟨q, hp, hm⟩ := parsePrefixes_of_scan ho fun _ => hv.right
    rw [hm.eq_set hv.left] at hp
    exact ⟨hp, ho, rfl⟩

theorem wordSize_eq (prefixes : PrefixSet) : X86.wordSize prefixes = operandSize prefixes := by
  unfold X86.wordSize operandSize
  cases prefixes.rex.w <;> cases prefixes.operandOverride <;> rfl

end Prefixes

end Prisma.Decoder
