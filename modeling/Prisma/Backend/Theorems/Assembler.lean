import Mathlib.Tactic.IntervalCases
import Prisma.A64.Branch
import Prisma.Backend.Assembler

-- Where the branches to labels jump.

namespace Prisma

open BitVec Option List

namespace A64.Branch

section Fields

variable (hi : BitVec 8) (imm19 : BitVec 19) (low : BitVec 5)

theorem extract_opcode : ((hi ++ imm19) ++ low : U32).extractLsb' 24 8 = hi := by
  refine eq_of_getLsbD_eq fun i hi => ?_
  simp only [getLsbD_extractLsb', getLsbD_append]
  grind

theorem extract_imm19 : ((hi ++ imm19) ++ low : U32).extractLsb' 5 19 = imm19 := by
  refine eq_of_getLsbD_eq fun i hi => ?_
  simp only [getLsbD_extractLsb', getLsbD_append]
  grind

theorem extract_low (i n : Nat) (h : i + n ≤ 5) :
    ((hi ++ imm19) ++ low : U32).extractLsb' i n = low.extractLsb' i n := by
  refine eq_of_getLsbD_eq fun i hi => ?_
  simp only [getLsbD_extractLsb', getLsbD_append]
  grind

theorem extract_high : ((hi ++ imm19) ++ low : U32).extractLsb' 26 6 = hi.extractLsb' 2 6 := by
  refine eq_of_getLsbD_eq fun i hi => ?_
  simp only [getLsbD_extractLsb', getLsbD_append]
  grind

end Fields

theorem decode_b (imm26 : BitVec 26) :
    decode ((0b000101 : BitVec 6) ++ imm26) = some (.b imm26) := by
  have hh : ((0b000101 : BitVec 6) ++ imm26 : U32).extractLsb' 26 6 = 0b000101 := by
    refine eq_of_getLsbD_eq fun i hi => ?_
    simp only [getLsbD_extractLsb', getLsbD_append]
    grind
  have hi : ((0b000101 : BitVec 6) ++ imm26 : U32).extractLsb' 0 26 = imm26 := by
    refine eq_of_getLsbD_eq fun i hi => ?_
    simp only [getLsbD_extractLsb', getLsbD_append]
    grind
  rw [decode, if_pos hh, hi]

theorem decode_bCond (cond : BitVec 4) (imm19 : BitVec 19) :
    decode (((0b01010100 : BitVec 8) ++ imm19) ++ cond.setWidth 5) = some (.bCond cond imm19) := by
  have hc : (cond.setWidth 5).extractLsb' 0 4 = cond := by
    revert cond
    decide
  have hz : (cond.setWidth 5).extractLsb' 4 1 = 0 := by
    revert cond
    decide
  rw [decode, extract_high, if_neg (by decide), extract_opcode, extract_low _ _ _ 4 1 (by decide),
    if_pos ⟨rfl, hz⟩, extract_imm19, extract_low _ _ _ 0 4 (by decide), hc]

theorem decode_cbz (rt : BitVec 5) (imm19 : BitVec 19) :
    decode (((0b10110100 : BitVec 8) ++ imm19) ++ rt) = some (.cbz rt imm19) := by
  rw [decode, extract_high, if_neg (by decide), extract_opcode,
    if_neg fun h => absurd h.1 (by decide), if_pos rfl, extract_imm19, extract_low _ _ _ 0 5 (by decide), BitVec.extractLsb'_eq_self]

theorem decode_cbnz (rt : BitVec 5) (imm19 : BitVec 19) :
    decode (((0b10110101 : BitVec 8) ++ imm19) ++ rt) = some (.cbnz rt imm19) := by
  rw [decode, extract_high, if_neg (by decide), extract_opcode,
    if_neg fun h => absurd h.1 (by decide), if_neg (by decide), if_pos rfl, extract_imm19, extract_low _ _ _ 0 5 (by decide),
    BitVec.extractLsb'_eq_self]

end A64.Branch

namespace Arm64Assembler

open A64

section Encoding

theorem and_mask (x : U32) (hk : k ≤ 32) :
    x &&& BitVec.ofNat 32 (2 ^ k - 1) = (x.setWidth k).setWidth 32 := by
  have hle : 2 ^ k ≤ 2 ^ 32 := Nat.pow_le_pow_right (by decide) hk
  have hpos := Nat.two_pow_pos k
  have hlt := Nat.mod_lt x.toNat hpos
  apply eq_of_toNat_eq
  rw [toNat_and, toNat_ofNat, Nat.mod_eq_of_lt (by omega),
    Nat.and_two_pow_sub_one_eq_mod, toNat_setWidth, toNat_setWidth,
    Nat.mod_eq_of_lt (a := x.toNat % 2 ^ k) (by omega)]

theorem or_imm26 (hi : BitVec 6) (imm26 : BitVec 26) :
    hi.setWidth 32 <<< 26 ||| imm26.setWidth 32 = (hi ++ imm26 : U32) := by
  refine eq_of_getLsbD_eq fun i hi => ?_
  simp only [getLsbD_append, getLsbD_or, getLsbD_shiftLeft,
    getLsbD_setWidth]
  grind

theorem or_imm19 (hi : BitVec 8) (imm19 : BitVec 19) (low : BitVec 5) :
    hi.setWidth 32 <<< 24 ||| imm19.setWidth 32 <<< 5 ||| low.setWidth 32 =
      ((hi ++ imm19) ++ low : U32) := by
  refine eq_of_getLsbD_eq fun i hi => ?_
  simp only [getLsbD_append, getLsbD_or, getLsbD_shiftLeft,
    getLsbD_setWidth]
  interval_cases i <;> simp

-- The branch that a label branch stands for.
def branch (kind : BranchFixupKind) (offset : Int) : Branch :=
  match kind with
  | .b => .b (BitVec.ofInt 26 (offset >>> (2 : Nat)))
  | .bCond cond => .bCond ((armCondition cond).setWidth 4) (BitVec.ofInt 19 (offset >>> (2 : Nat)))
  | .cbzX rt => .cbz (rt.setWidth 5) (BitVec.ofInt 19 (offset >>> (2 : Nat)))
  | .cbnzX rt => .cbnz (rt.setWidth 5) (BitVec.ofInt 19 (offset >>> (2 : Nat)))

theorem setWidth_ofInt (q : Int) (hk : k ≤ 32) :
    (BitVec.ofInt 32 q).setWidth k = BitVec.ofInt k q := by
  have hd : ((2 ^ k : Nat) : Int) ∣ ((2 ^ 32 : Nat) : Int) :=
    Int.natCast_dvd_natCast.mpr (Nat.pow_dvd_pow 2 hk)
  apply eq_of_toNat_eq
  rw [toNat_setWidth, toNat_ofInt, toNat_ofInt]
  apply Int.ofNat_inj.mp
  rw [Int.natCast_emod, Int.toNat_of_nonneg (Int.emod_nonneg _ (by decide)),
    Int.toNat_of_nonneg (Int.emod_nonneg _ (by exact_mod_cast (Nat.two_pow_pos k).ne')),
    Int.emod_emod_of_dvd _ hd]

theorem encodeImm19_eq_some (hi : BitVec 8) {low : BitVec 5} (hb : base = hi.setWidth 32 <<< 24)
    (h : encodeImm19 base (low.setWidth 32) offset = some word) :
    word = ((hi ++ BitVec.ofInt 19 (offset >>> (2 : Nat))) ++ low : U32) ∧ offset % 4 = 0 ∧
      -2 ^ 18 ≤ offset >>> (2 : Nat) ∧ offset >>> (2 : Nat) < 2 ^ 18 := by
  unfold encodeImm19 at h
  split at h
  case isTrue => cases h
  case isFalse ha =>
    dsimp only at h
    split at h
    case isTrue => cases h
    case isFalse hr =>
      have hm : BitVec.ofInt 32 (offset >>> (2 : Nat)) &&& 0x7FFFF = _ :=
        and_mask (BitVec.ofInt 32 (offset >>> (2 : Nat))) (k := 19) (by decide)
      rw [setWidth_ofInt _ (by decide)] at hm
      rw [hm, hb, or_imm19] at h
      exact ⟨(Option.some.inj h).symm, not_not.mp ha, by omega, by omega⟩

theorem setWidth_rt {rt : U8} (h : rt.toNat < 32) : rt.setWidth 32 = (rt.setWidth 5).setWidth 32 := by
  apply eq_of_toNat_eq
  simp only [toNat_setWidth]
  omega

-- A word that the encoders return is the branch that it is meant to be, and the short branches are
-- checked to reach their target.
theorem encode_eq_some (h : encode kind offset = some word) :
    Branch.decode word = some (branch kind offset) ∧ offset % 4 = 0 ∧
      (kind ≠ .b → -2 ^ 18 ≤ offset >>> (2 : Nat) ∧ offset >>> (2 : Nat) < 2 ^ 18) := by
  cases kind with
  | b =>
    have hm : BitVec.ofInt 32 (offset >>> (2 : Nat)) &&& 0x03FFFFFF = _ :=
      and_mask (BitVec.ofInt 32 (offset >>> (2 : Nat))) (k := 26) (by decide)
    have hi := or_imm26 0b000101 (BitVec.ofInt 26 (offset >>> (2 : Nat)))
    rw [setWidth_ofInt _ (by decide)] at hm
    have ⟨ha, hw⟩ := ite_none_left_eq_some.mp h
    rw [hm] at hw
    refine ⟨?_, not_not.mp ha, fun hb => absurd rfl hb⟩
    rw [← Option.some.inj hw]
    exact (congrArg Branch.decode hi).trans (Branch.decode_b _)
  | bCond cond =>
    have hc : (armCondition cond).setWidth 32 =
        (((armCondition cond).setWidth 4).setWidth 5).setWidth 32 := by
      cases cond <;> decide
    change encodeImm19 0x54000000 ((armCondition cond).setWidth 32) offset = some word at h
    rw [hc] at h
    have ⟨hw, ha, hr⟩ := encodeImm19_eq_some 0b01010100 (by decide) h
    rw [hw, Branch.decode_bCond]
    exact ⟨rfl, ha, fun _ => hr⟩
  | cbzX rt =>
    have ⟨hrt, h⟩ := ite_none_left_eq_some.mp h
    rw [setWidth_rt (by omega)] at h
    have ⟨hw, ha, hr⟩ := encodeImm19_eq_some 0b10110100 (by decide) h
    rw [hw, Branch.decode_cbz]
    exact ⟨rfl, ha, fun _ => hr⟩
  | cbnzX rt =>
    have ⟨hrt, h⟩ := ite_none_left_eq_some.mp h
    rw [setWidth_rt (by omega)] at h
    have ⟨hw, ha, hr⟩ := encodeImm19_eq_some 0b10110101 (by decide) h
    rw [hw, Branch.decode_cbnz]
    exact ⟨rfl, ha, fun _ => hr⟩

theorem toInt_ofInt {w : Nat} {q : Int} :
    (BitVec.ofInt (w + 1) q).toInt = q ↔ -2 ^ w ≤ q ∧ q < 2 ^ w := by
  rw [BitVec.toInt_ofInt]
  constructor
  case mp =>
    intro h
    have hpos : 0 < 2 ^ (w + 1) := Nat.two_pow_pos _
    have hle := @Int.le_bmod q (2 ^ (w + 1)) hpos
    have hlt := @Int.bmod_lt q (2 ^ (w + 1)) hpos
    rw [h] at hle hlt
    push_cast [pow_succ] at hle hlt
    omega
  case mpr =>
    rintro ⟨hle, hlt⟩
    apply Int.bmod_eq_of_le <;> push_cast [pow_succ] <;> omega

theorem branch_offset_eq_iff (h : encode kind offset = some word) :
    (branch kind offset).offset = offset ↔ (kind = .b → -2 ^ 27 ≤ offset ∧ offset < 2 ^ 27) := by
  have ⟨_, ha, hr⟩ := encode_eq_some h
  have hs : offset >>> (2 : Nat) = offset / 4 := Int.shiftRight_eq_div_pow offset 2
  rw [hs] at hr
  have hshort : kind ≠ .b → 4 * (BitVec.ofInt 19 (offset >>> (2 : Nat))).toInt = offset := by
    intro hk
    rw [hs, (@toInt_ofInt 18 (offset / 4)).mpr (hr hk)]
    omega
  cases kind with
  | b =>
    have hi : (BitVec.ofInt 26 (offset / 4)).toInt = offset / 4 ↔
        -2 ^ 25 ≤ offset / 4 ∧ offset / 4 < 2 ^ 25 := toInt_ofInt
    change 4 * (BitVec.ofInt 26 (offset >>> (2 : Nat))).toInt = offset ↔ _
    rw [hs]
    constructor
    case mp =>
      intro h _
      have hq := hi.mp (by omega)
      omega
    case mpr =>
      intro h
      have hq := h rfl
      rw [hi.mpr (by omega)]
      omega
  | bCond | cbzX | cbnzX => exact ⟨fun _ => nofun, fun _ => hshort nofun⟩

end Encoding

section Fixups

variable {asm asm' : Arm64Assembler} {labels : List (Option Nat)} {fixup : BranchFixup}
  {fixups : List BranchFixup} {instructions words : List U32}

-- The branch at the place of a fixup is the one to the position of its label.
def Resolved (labels : List (Option Nat)) (words : List U32) (fixup : BranchFixup) : Prop :=
  ∃ (target : Nat) (word : U32), labels[fixup.label]? = some (some target) ∧
    words[fixup.instructionIndex]? = some word ∧
    encode fixup.kind (target - (fixup.instructionIndex * 4 : Nat)) = some word

theorem tryI32_eq_some (h : tryI32 n = some m) : m = n :=
  (Option.some.inj (ite_none_right_eq_some.mp h).2).symm

theorem resolveFixup_eq_some (h : resolveFixup labels instructions fixup = some words) :
    Resolved labels words fixup ∧
      ∀ i, i ≠ fixup.instructionIndex → words[i]? = instructions[i]? := by
  unfold resolveFixup at h
  simp only [bind_eq_bind, bind_eq_some_iff, join_eq_some_iff] at h
  obtain ⟨target, hl, t, ht, b, hb, relative, hr, word, hw, h⟩ := h
  have ⟨hlt, h⟩ := ite_none_right_eq_some.mp h
  cases tryI32_eq_some ht
  cases tryI32_eq_some hb
  cases tryI32_eq_some hr
  cases h
  refine ⟨⟨target, word, hl, List.getElem?_set_self hlt, hw⟩, fun i hne => ?_⟩
  exact List.getElem?_set_ne hne.symm

theorem foldlM_resolveFixup (hd : fixups.Pairwise (·.instructionIndex ≠ ·.instructionIndex))
    (h : fixups.foldlM (resolveFixup labels) instructions = some words) :
    (∀ fixup ∈ fixups, Resolved labels words fixup) ∧
      ∀ i, (∀ fixup ∈ fixups, i ≠ fixup.instructionIndex) → words[i]? = instructions[i]? := by
  induction fixups generalizing instructions with
  | nil => cases h; exact ⟨nofun, fun _ _ => rfl⟩
  | cons fixup fixups hi =>
    have ⟨hf, hd⟩ := pairwise_cons.mp hd
    rw [foldlM_cons, bind_eq_bind, bind_eq_some_iff] at h
    have ⟨next, hn, h⟩ := h
    have ⟨hr, hs⟩ := resolveFixup_eq_some hn
    have ⟨ha, hw⟩ := hi hd h
    refine ⟨fun f hm => ?_, fun i hne => ?_⟩
    case refine_1 =>
      cases hm with
      | head =>
        obtain ⟨target, word, hl, hi, he⟩ := hr
        exact ⟨target, word, hl, (hw _ hf).trans hi, he⟩
      | tail _ hm => exact ha f hm
    case refine_2 =>
      have ⟨hne, hn⟩ := forall_mem_cons.mp hne
      exact (hw i hn).trans (hs i hne)

end Fixups

section Run

-- A branch to a label, with the position at which it was emitted.
structure LabelBranch where
  position : Nat
  label : Label
  kind : BranchFixupKind

-- Calls of the assembler, together with the branches to labels and the positions of the labels.
inductive Assembled : Arm64Assembler → List LabelBranch → List (Label × Nat) → Prop
  | new : Assembled .new [] []
  | emitWord {asm branches bound} (h : Assembled asm branches bound) (word : U32) :
    Assembled (asm.emitWord word) branches bound
  | createLabel {asm branches bound} (h : Assembled asm branches bound) :
    Assembled asm.createLabel.2 branches bound
  | bindLabel {asm asm' branches bound label} (h : Assembled asm branches bound)
    (hb : asm.bindLabel label = some asm') :
    Assembled asm' branches ((label, asm.cursorOffset) :: bound)
  | branchLabel {asm asm' branches bound kind label} (h : Assembled asm branches bound)
    (hb : asm.branchLabel kind label = some asm') :
    Assembled asm' (⟨asm.cursorOffset, label, kind⟩ :: branches) bound

-- The tables of the assembler hold the branches and the positions of the labels.
structure Records (asm : Arm64Assembler) (branches : List LabelBranch)
    (bound : List (Label × Nat)) : Prop where
  fixups : ∀ br ∈ branches, ∃ fixup ∈ asm.branchFixups, fixup.label = br.label ∧
    fixup.kind = br.kind ∧ br.position = fixup.instructionIndex * 4
  distinct : asm.branchFixups.Pairwise (·.instructionIndex ≠ ·.instructionIndex)
  inside : ∀ fixup ∈ asm.branchFixups, fixup.instructionIndex < asm.instructions.length
  labels : ∀ {label position},
    (label, position) ∈ bound ↔ asm.labels[label]? = some (some position)

variable {asm asm' : Arm64Assembler} {branches : List LabelBranch} {bound : List (Label × Nat)}
  {label : Label} {kind : BranchFixupKind} {br : LabelBranch} {words : List U32}

namespace Records

theorem new : Records .new [] [] where
  fixups := nofun
  distinct := .nil
  inside := nofun
  labels := by simp [Arm64Assembler.new]

variable (h : Records asm branches bound)

include h

theorem emitWord (word : U32) :
    Records (asm.emitWord word) branches bound where
  fixups := h.fixups
  distinct := h.distinct
  inside fixup hm := by
    have hi := h.inside fixup hm
    simp only [Arm64Assembler.emitWord, length_append]
    omega
  labels := h.labels

theorem createLabel :
    Records asm.createLabel.2 branches bound where
  fixups := h.fixups
  distinct := h.distinct
  inside := h.inside
  labels {label position} := by
    rw [h.labels, Arm64Assembler.createLabel]
    grind

theorem bindLabel (hb : asm.bindLabel label = some asm') :
    Records asm' branches ((label, asm.cursorOffset) :: bound) := by
  unfold Arm64Assembler.bindLabel at hb
  split at hb
  case h_2 => cases hb
  case h_1 hl =>
    cases hb
    refine ⟨h.fixups, h.distinct, h.inside, fun {l p} => ?_⟩
    rw [mem_cons, h.labels]
    grind

theorem branchLabel (hb : asm.branchLabel kind label = some asm') :
    Records asm' (⟨asm.cursorOffset, label, kind⟩ :: branches) bound := by
  have ⟨word, _, hb⟩ := bind_eq_some_iff.mp hb
  cases hb
  constructor
  case fixups =>
    intro br hm
    cases hm with
    | head => exact ⟨_, mem_append_right _ mem_cons_self, rfl, rfl, rfl⟩
    | tail _ hm =>
      have ⟨fixup, hf, hbr⟩ := h.fixups br hm
      exact ⟨fixup, mem_append_left _ hf, hbr⟩
  case distinct =>
    refine pairwise_append.mpr ⟨h.distinct, pairwise_singleton _ _, fun f hf g hg => ?_⟩
    cases mem_singleton.mp hg
    exact Nat.ne_of_lt (h.inside f hf)
  case inside =>
    intro fixup hm
    simp only [Arm64Assembler.emitWord, length_append, length_singleton]
    cases mem_append.mp hm with
    | inl hm => exact Nat.lt_succ_of_lt (h.inside fixup hm)
    | inr hm =>
      cases mem_singleton.mp hm
      exact Nat.lt_succ_self _
  case labels => exact h.labels

end Records

theorem Assembled.records (h : Assembled asm branches bound) : Records asm branches bound := by
  induction h with
  | new => exact .new
  | emitWord _ word hi => exact hi.emitWord word
  | createLabel _ hi => exact hi.createLabel
  | bindLabel _ hb hi => exact hi.bindLabel hb
  | branchLabel _ hb hi => exact hi.branchLabel hb

-- The word at the place of the branch is a branch of the same kind to the position.
def JumpsTo (words : List U32) (br : LabelBranch) (position : Nat) : Prop :=
  ∃ word b, words[br.position / 4]? = some word ∧ Branch.decode word = some b ∧
    (∃ offset, b = branch br.kind offset) ∧ br.position + b.offset = position

theorem jumpsTo_iff {word : U32} {position : Nat} (hw : words[br.position / 4]? = some word)
    (he : encode br.kind (position - br.position) = some word) :
    JumpsTo words br position ↔ (br.kind = .b → -2 ^ 27 ≤ (position - br.position : Int) ∧
      (position - br.position : Int) < 2 ^ 27) := by
  have ⟨hd, _⟩ := encode_eq_some he
  rw [← branch_offset_eq_iff he]
  constructor
  case mp =>
    rintro ⟨word', b, hw', hd', _, ho⟩
    cases hw.symm.trans hw'
    cases hd.symm.trans hd'
    omega
  case mpr =>
    intro ho
    exact ⟨word, _, hw, hd, ⟨_, rfl⟩, by omega⟩

theorem finish_resolved (h : Assembled asm branches bound) (hf : asm.finish = some words)
    (hb : br ∈ branches) : ∃ position word, (br.label, position) ∈ bound ∧
      words[br.position / 4]? = some word ∧
      encode br.kind (position - br.position) = some word := by
  have hr := h.records
  have ⟨done, hd, hw⟩ := map_eq_some_iff.mp hf
  have ⟨instructions, hi, hd⟩ := bind_eq_some_iff.mp hd
  cases hd
  cases hw
  have ⟨fixup, hm, hlabel, hkind, hposition⟩ := hr.fixups br hb
  have ⟨target, word, hl, hw, he⟩ := (foldlM_resolveFixup hr.distinct hi).1 fixup hm
  rw [← hlabel, ← hkind, hposition, Nat.mul_div_cancel _ (by decide)]
  exact ⟨target, word, hr.labels.mpr hl, hw, he⟩

-- Every branch to a label jumps to the label, except that an unconditional one may be too far away.
theorem finish_jumpsTo_iff (h : Assembled asm branches bound) (hf : asm.finish = some words)
    (hb : br ∈ branches) : (∃ position, (br.label, position) ∈ bound) ∧
      ∀ position, (br.label, position) ∈ bound → (JumpsTo words br position ↔
        (br.kind = .b → -2 ^ 27 ≤ (position - br.position : Int) ∧
          (position - br.position : Int) < 2 ^ 27)) := by
  have ⟨target, word, ht, hw, he⟩ := finish_resolved h hf hb
  refine ⟨⟨target, ht⟩, fun position hp => ?_⟩
  -- a label is bound once
  cases (h.records.labels.mp ht).symm.trans (h.records.labels.mp hp)
  exact jumpsTo_iff hw he

-- An endless loop
theorem finish_jumpsTo_iff_loop : JumpsTo [0x14000000] ⟨0, 0, .b⟩ 0 := by
  have h₁ : Assembled ⟨[], [some 0], []⟩ [] [(0, 0)] := .bindLabel (.createLabel .new) rfl
  have h₂ : Assembled ⟨[0x14000000], [some 0], [⟨0, 0, .b⟩]⟩ [⟨0, 0, .b⟩] [(0, 0)] :=
    .branchLabel h₁ rfl
  have hj := (finish_jumpsTo_iff h₂ rfl mem_cons_self).2 0 mem_cons_self
  exact hj.mpr fun _ => by decide

theorem Assembled.emitWords (h : Assembled asm branches bound) (word : U32) (n : Nat) :
    Assembled { asm with instructions := asm.instructions ++ List.replicate n word } branches
      bound := by
  induction n with
  | zero => rwa [List.replicate_zero, List.append_nil]
  | succ n hi =>
    rw [List.replicate_succ', ← List.append_assoc]
    exact hi.emitWord word

-- A branch over some instructions
def skip (n : Nat) : Arm64Assembler where
  instructions := [0x14000000] ++ List.replicate n 0xD503201F
  labels := [some ((n + 1) * 4)]
  branchFixups := [⟨0, 0, .b⟩]

theorem skip_assembled (n : Nat) : Assembled (skip n) [⟨0, 0, .b⟩] [(0, (n + 1) * 4)] := by
  have h₁ : Assembled ⟨[0x14000000], [none], [⟨0, 0, .b⟩]⟩ [⟨0, 0, .b⟩] [] :=
    .branchLabel (.createLabel .new) rfl
  have hc : cursorOffset ⟨[0x14000000] ++ List.replicate n 0xD503201F, [none], [⟨0, 0, .b⟩]⟩ =
      (n + 1) * 4 := by
    simp [cursorOffset]
  rw [← hc, skip, ← hc]
  exact .bindLabel (h₁.emitWords 0xD503201F n) rfl

theorem tryI32_natCast {n : Nat} (h : n < 2 ^ 31) : tryI32 n = some (n : Int) := by
  rw [tryI32, if_pos]
  omega

theorem resolveFixup_first {first word : U32} {rest : List U32} {target : Nat}
    (ht : target < 2 ^ 31) (hw : encode .b (target - (0 * 4 : Nat)) = some word) :
    resolveFixup [some target] (first :: rest) ⟨0, 0, .b⟩ = some (word :: rest) := by
  have hr : tryI32 (target - (0 * 4 : Nat)) = some ((target : Int) - (0 * 4 : Nat)) := by
    rw [Nat.zero_mul, Int.natCast_zero, Int.sub_zero]
    exact tryI32_natCast ht
  simp only [resolveFixup, bind_eq_bind, bind_eq_some_iff, join_eq_some_iff]
  exact ⟨target, rfl, _, tryI32_natCast ht, _, tryI32_natCast (by decide), _, hr, word, hw,
    if_pos (Nat.succ_pos _)⟩

theorem skip_finish {n : Nat} (hn : (n + 1) * 4 < 2 ^ 31) {word : U32}
    (hw : encode .b (((n + 1) * 4 : Nat) - (0 * 4 : Nat)) = some word) :
    (skip n).finish = some ([word] ++ List.replicate n 0xD503201F) := by
  simp only [finish, resolveBranchFixups, skip, singleton_append, foldlM_cons,
    foldlM_nil, resolveFixup_first hn hw]
  rfl

-- The label is 128 MiB behind the branch.
theorem finish_not_jumpsTo : ¬∀ (asm : Arm64Assembler) (branches : List LabelBranch)
    (bound : List (Label × Nat)) (words : List U32) (br : LabelBranch) (position : Nat),
    Assembled asm branches bound → asm.finish = some words → br ∈ branches →
      (br.label, position) ∈ bound → JumpsTo words br position := by
  intro h
  have he : encode .b (((2 ^ 25 - 1 + 1) * 4 : Nat) - (0 * 4 : Nat)) = some 0x16000000 := by decide
  have hj := h _ _ _ _ ⟨0, 0, .b⟩ _ (skip_assembled (2 ^ 25 - 1)) (skip_finish (by decide) he)
    mem_cons_self mem_cons_self
  have hr := (@jumpsTo_iff ⟨0, 0, .b⟩ _ 0x16000000 ((2 ^ 25 - 1 + 1) * 4) rfl he).mp hj rfl
  exact absurd hr.2 (by decide)

end Run

end Arm64Assembler

end Prisma
