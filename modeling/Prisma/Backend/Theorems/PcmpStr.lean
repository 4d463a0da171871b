import Prisma.Interp.Vector
import Prisma.Backend.PcmpStr

-- Generated code compares strings as the interpreter does.

namespace Prisma.Backend

variable {lhs rhs : U128}

theorem getD_toLeBytes (value : U128) (i : Nat) : (toLeBytes value).getD i 0 = leByte value i := by
  rw [toLeBytes, List.getD_eq_getElem?_getD, List.getElem?_map]
  by_cases hi : i < 16
  case pos =>
    rw [List.getElem?_range hi]
    refine BitVec.eq_of_getLsbD_eq fun k hk => ?_
    simp [leByte, hk]
  case neg =>
    rw [List.getElem?_eq_none (by simpa using hi)]
    refine BitVec.eq_of_getLsbD_eq fun k hk => ?_
    have : 128 ≤ 8 * i + k := by omega
    simp [leByte, this]

theorem pcmpLaneUnsigned_eq (value : U128) :
    pcmpLaneUnsigned (toLeBytes value) = laneUnsigned value := by
  funext lane laneBytes
  simp only [pcmpLaneUnsigned, laneUnsigned, getD_toLeBytes]

theorem pcmpLaneSigned_eq (value : U128) : pcmpLaneSigned (toLeBytes value) = laneSigned value := by
  funext lane laneBytes
  simp only [pcmpLaneSigned, laneSigned, getD_toLeBytes]

theorem pcmpEffectiveLen_eq (value : U128) :
    pcmpEffectiveLen (toLeBytes value) = Prisma.pcmpEffectiveLen value := by
  funext laneBytes explicit
  simp only [pcmpEffectiveLen, pcmpLaneUnsigned_eq]
  rfl

theorem pcmpLanesEqual_eq :
    pcmpLanesEqual (toLeBytes lhs) (toLeBytes rhs) = lanesEqual lhs rhs := by
  funext laneBytes signed i j
  simp only [pcmpLanesEqual, lanesEqual, pcmpLaneUnsigned_eq, pcmpLaneSigned_eq]

theorem pcmpLaneInRange_eq :
    pcmpLaneInRange (toLeBytes lhs) (toLeBytes rhs) = laneInRange lhs rhs := by
  funext laneBytes signed i j
  simp only [pcmpLaneInRange, laneInRange, pcmpLaneUnsigned_eq, pcmpLaneSigned_eq]

theorem pcmpMatched_eq :
    pcmpMatched (toLeBytes lhs) (toLeBytes rhs) = aggregate lhs rhs := by
  funext laneBytes signed aggregation lhsLen rhsLen i
  have hpairs : ∀ p : Nat → Bool,
      ((List.range' 0 ((rhsLen + 1) / 2) 2).any fun j => if rhsLen ≤ j + 1 then false else p j) =
        (List.range rhsLen).any fun j => j % 2 == 0 && j + 1 < rhsLen && p j := by
    intro p
    rw [Bool.eq_iff_iff]
    simp only [List.any_eq_true, List.mem_range', List.mem_range]
    constructor
    · rintro ⟨_, ⟨k, hk, rfl⟩, h⟩
      rw [Nat.zero_add] at h
      split at h
      · nomatch h
      · refine ⟨2 * k, by omega, ?_⟩
        simp [h]
        omega
    · rintro ⟨j, hj, h⟩
      simp only [Bool.and_eq_true, beq_iff_eq, decide_eq_true_eq] at h
      refine ⟨j, ⟨j / 2, by omega, by omega⟩, ?_⟩
      rw [if_neg (by omega)]
      exact h.right
  simp only [pcmpMatched, aggregate, pcmpLanesEqual_eq, pcmpLaneInRange_eq, hpairs]

theorem joinHalves_eq (value : U128) :
    joinHalves (value.setWidth 64) ((value >>> 64).setWidth 64) = value := by
  refine BitVec.eq_of_getLsbD_eq fun k hk => ?_
  by_cases h : k < 64
  case pos => simp [joinHalves, h, hk]
  case neg =>
    have hle : 64 ≤ k := by omega
    have hlt : k - 64 < 64 := by omega
    simp [joinHalves, h, hk, hle, hlt]

def ofEval (eval : PcmpStrEval) : BackendPcmpStrEval :=
  ⟨eval.intres, eval.maxLanes, eval.laneBytes, eval.lhsLen, eval.rhsLen⟩

theorem explicit_eq (lhsLen rhsLen : Option U64) (lenMode : U64)
    (h : lenMode = (if lhsLen.isSome then 1 else 0) ||| (if rhsLen.isSome then 2 else 0)) :
    (if lenMode &&& 1 ≠ 0 then some (lhsLen.getD 0) else none) = lhsLen ∧
      (if lenMode &&& 2 ≠ 0 then some (rhsLen.getD 0) else none) = rhsLen := by
  subst h
  cases lhsLen <;> cases rhsLen <;> simp

theorem callHelper_eq (finish : BackendPcmpStrEval → U8 → U64) (lhs rhs : U128)
    (lhsLen rhsLen : Option U64) (imm8 : U8) :
    callHelper (pcmpstrHelper finish) lhs rhs lhsLen rhsLen imm8 =
      finish (ofEval (evalPcmpStr lhs rhs lhsLen rhsLen imm8)) imm8 := by
  have himm : (imm8.setWidth 64).setWidth 8 = imm8 := by simp
  have ⟨hl, hr⟩ := explicit_eq lhsLen rhsLen _ rfl
  simp only [callHelper, pcmpstrHelper, evalBackendPcmpStr, joinHalves_eq, pcmpEffectiveLen_eq,
    pcmpMatched_eq, himm, hl, hr]
  rfl

theorem callHelper_agrees (lhs rhs : U128) (lhsLen rhsLen : Option U64) (imm8 : U8) :
    callHelper pcmpstrIndexHelper lhs rhs lhsLen rhsLen imm8 =
      pcmpStrIndex (evalPcmpStr lhs rhs lhsLen rhsLen imm8) imm8 ∧
    joinHalves (callHelper pcmpstrMaskLoHelper lhs rhs lhsLen rhsLen imm8)
      (callHelper pcmpstrMaskHiHelper lhs rhs lhsLen rhsLen imm8) =
      pcmpStrMask (evalPcmpStr lhs rhs lhsLen rhsLen imm8) imm8 ∧
    callHelper pcmpstrFlagsHelper lhs rhs lhsLen rhsLen imm8 =
      pcmpStrFlags (evalPcmpStr lhs rhs lhsLen rhsLen imm8) := by
  simp only [pcmpstrIndexHelper, pcmpstrMaskLoHelper, pcmpstrMaskHiHelper, pcmpstrFlagsHelper,
    callHelper_eq, joinHalves_eq]
  refine ⟨?_, rfl, ?_⟩
  · simp only [backendPcmpStrIndex, pcmpStrIndex, ofEval]
    split <;> rfl
  · have hbit : ∀ b : Bool, (BitVec.ofBool b).setWidth 64 = if b then 1 else 0 := by decide
    simp only [backendPcmpStrFlags, ofEval, hbit]
    rfl

end Prisma.Backend
