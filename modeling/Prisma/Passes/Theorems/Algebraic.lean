import Prisma.Passes.Algebraic
import Prisma.Passes.Theorems.Consts
import Prisma.Interp.Theorems.Identities

namespace Prisma.Algebraic

open Machine

variable {op : BinOpKind} {lhs rhs : Ref} {size : OpSize} {simp : Op} {a b rv lv : U64}
  {consts : Consts} {stmt : Stmt} {stmts : List Stmt} {s s' : State} {defined : List Ref}

theorem mask_zero : mask 0 size = 0 := by
  cases size <;> rfl

theorem mask_allOnes : mask (allOnes size) size = allOnes size := by
  cases size <;> rfl

-- The operation is a constant of its size.
def Folds (value : U64) (size : OpSize) (simp : Op) : Prop :=
  simp = .constant value size ∧ mask value size = value

theorem folds_zero : Folds 0 size (zero size) :=
  ⟨rfl, mask_zero⟩

theorem folds_allOnes : Folds (allOnes size) size (.constant (allOnes size) size) :=
  ⟨rfl, mask_allOnes⟩

theorem simplifyRhs_eq_some (h : simplifyRhs op rv size = some simp) :
    ∃ value, Folds value size simp ∧ evalBinop op a rv size = some value := by
  unfold simplifyRhs at h
  split at h
  case isTrue hop =>
    cases h
    rw [hop.right]
    exact ⟨0, folds_zero, evalBinop_zero_right (hop.left.imp_right .inl)⟩
  split at h
  case isTrue hop =>
    cases h
    rw [hop.left, hop.right]
    exact ⟨_, folds_allOnes, evalBinop_or_mask_right⟩
  split at h
  case isTrue hop =>
    cases h
    rw [hop.right]
    exact ⟨0, folds_zero, evalBinop_zero_right (.inr (.inr hop.left))⟩
  split at h
  case isTrue hop =>
    cases h
    rw [hop.right]
    exact ⟨0, folds_zero, evalBinop_one_right (.inl hop.left)⟩
  split at h
  case isTrue hop =>
    cases h
    rw [hop.right]
    exact ⟨0, folds_zero, evalBinop_one_right (.inr hop.left)⟩
  case isFalse => contradiction

theorem simplifyLhs_eq_some (h : simplifyLhs op lv size = some simp) :
    ∃ value, Folds value size simp ∧ ∀ r, evalBinop op lv b size = some r → r = value := by
  unfold simplifyLhs at h
  split at h
  case isTrue hop =>
    cases h
    rw [hop.right]
    exact ⟨0, folds_zero, fun r => evalBinop_zero_left (hop.left.imp_right .inl)⟩
  split at h
  case isTrue hop =>
    cases h
    rw [hop.left, hop.right]
    refine ⟨_, folds_allOnes, fun r hr => ?_⟩
    rw [allOnes, evalBinop_or_mask_left] at hr
    exact (Option.some.inj hr).symm
  split at h
  case isTrue hop =>
    cases h
    rw [hop.right]
    exact ⟨0, folds_zero, fun r => evalBinop_zero_left (.inr (.inr hop.left))⟩
  case isFalse => contradiction

-- A simplified operation is the constant that it computes. A division of zero by zero is simplified
-- as well, but it has no value.
theorem trySimplify_eq_some (hc : consts.Sound defined s.env)
    (h : trySimplify op lhs rhs size consts = some simp) :
    ∃ value, Folds value size simp ∧
      ∀ r, evalBinop op (s.env.vals lhs) (s.env.vals rhs) size = some r → r = value := by
  unfold trySimplify at h
  split at h
  case isTrue hop =>
    cases h
    rw [hop.left]
    refine ⟨0, folds_zero, fun r hr => ?_⟩
    rw [evalBinop_self_of_cancel hop.right] at hr
    exact (Option.some.inj hr).symm
  split at h
  case h_1 simp' hrhs =>
    cases h
    have ⟨rv, hrv, hsimp⟩ := Option.bind_eq_some_iff.mp hrhs
    have ⟨value, hfolds, heval⟩ := simplifyRhs_eq_some (a := s.env.vals lhs) hsimp
    refine ⟨value, hfolds, fun r hr => ?_⟩
    rw [(hc rhs rv hrv).right, heval] at hr
    exact (Option.some.inj hr).symm
  case h_2 =>
    have ⟨lv, hlv, hsimp⟩ := Option.bind_eq_some_iff.mp h
    have ⟨value, hfolds, heval⟩ := simplifyLhs_eq_some (b := s.env.vals rhs) hsimp
    refine ⟨value, hfolds, fun r hr => heval r ?_⟩
    rw [← (hc lhs lv hlv).right, hr]

theorem simplifyStmt_cases (stmt : Stmt) (hc : consts.Sound defined s.env) :
    (simplifyStmt consts stmt).2 = stmt ∨ ∃ op lhs rhs size value,
      stmt.op = .binOp op lhs rhs size ∧ mask value size = value ∧
      (simplifyStmt consts stmt).2 = { stmt with op := .constant value size } ∧
      ∀ r, evalBinop op (s.env.vals lhs) (s.env.vals rhs) size = some r → r = value := by
  unfold simplifyStmt
  split
  · exact .inl rfl
  split
  · exact .inl rfl
  case h_2 result hresult _ op lhs rhs size hop =>
    split
    case h_1 simp hsimp =>
      have ⟨value, ⟨hconst, hmask⟩, heval⟩ := trySimplify_eq_some hc hsimp
      subst hconst
      exact .inr ⟨op, lhs, rhs, size, value, hop, hmask, rfl, heval⟩
    case h_2 => exact .inl rfl
  · exact .inl rfl

theorem step_simplifyStmt (stmt : Stmt) (hc : consts.Sound defined s.env) :
    step (simplifyStmt consts stmt).2 s = step stmt s ∨
      ∃ o, step stmt s = .halt o ∧ ¬o.1.supported := by
  rcases simplifyStmt_cases stmt hc with
    hsame | ⟨op, lhs, rhs, size, value, hop, hmask, hconst, heval⟩
  · exact .inl (by rw [hsame])
  cases hr : evalBinop op (s.env.vals lhs) (s.env.vals rhs) size with
  | none =>
    refine .inr ⟨_, step_of_evalOp_halt (o := (.unsupported "binop kind", s.cpu.regs)) ?_, nofun⟩
    simp [hop, evalOp, hr]
  | some r =>
    refine .inl ?_
    rw [hconst]
    simp [step, hop, evalOp, hr, hmask, heval r hr]

theorem simplifyStmt_learns (stmt : Stmt) (hc : consts.Sound defined s.env) :
    (simplifyStmt consts stmt).1 = consts ∨ ∃ d value size, stmt.result = some d ∧
      (simplifyStmt consts stmt).2 = { stmt with op := .constant value size } ∧
      (simplifyStmt consts stmt).1 = Function.update consts d (some (value &&& size.mask)) := by
  unfold simplifyStmt
  split
  · exact .inl rfl
  case h_2 d hresult =>
    split
    case h_1 value size hop =>
      refine .inr ⟨d, value, size, hresult, ?_, rfl⟩
      rw [← hop]
    case h_2 op lhs rhs size hop =>
      split
      case h_1 simp hsimp =>
        have ⟨value, ⟨hconst, _⟩, _⟩ := trySimplify_eq_some hc hsimp
        subst hconst
        exact .inr ⟨d, value, size, hresult, rfl, rfl⟩
      case h_2 => exact .inl rfl
    case h_3 => exact .inl rfl

theorem sound_simplifyStmt (hc : consts.Sound defined s.env) (hs : SsaFrom defined (stmt :: stmts))
    (ht : step stmt s = .next s') :
    (simplifyStmt consts stmt).1.Sound (stmt.defs ++ defined) s'.env := by
  have hkept := hc.step hs ht
  rcases simplifyStmt_learns stmt hc with hsame | ⟨d, value, size, hd, hconst, hlearnt⟩
  · rwa [hsame]
  rw [hlearnt]
  refine hkept.update (List.mem_append_left _ (Stmt.mem_defs_of_result hd)) ?_
  rcases step_simplifyStmt stmt hc with hsame | ⟨o, hhalt, _⟩
  · rw [hconst, ht, hd] at hsame
    simp only [step, evalOp, Step.bind_next, Step.next.injEq] at hsame
    rw [← hsame, Env.define_scalar_vals, mask_eq_and]
  · rw [ht] at hhalt
    contradiction

-- The simplified block has the same outcome and final registers.
theorem algebraicSimplify_preserves {regs : GuestRegs} {o : BlockOutcome × GuestRegs}
    (hs : Ssa stmts) (ho : interpretBlock stmts regs = some o) (hg : o.1.supported) :
    interpretBlock (algebraicSimplify (.single stmts)).stmts regs = some o := by
  rw [algebraicSimplify, Function.stmts_mapBlocks_single]
  refine run_rewrite_same (G := (·.1.supported))
    (I := fun consts stmts s => ∃ defined, SsaFrom defined stmts ∧ consts.Sound defined s.env)
    ?same ?inv ⟨_, hs, .noConsts⟩ ho hg
  case same =>
    intro consts stmt stmts s ⟨defined, _, hc⟩
    exact step_simplifyStmt _ hc
  case inv =>
    intro consts stmt stmts s s' ⟨defined, hs, hc⟩ ht
    exact ⟨_, hs.tail, sound_simplifyStmt hc hs ht⟩

-- Stores the product of a register and zero.
def mulZero : List Stmt :=
  [⟨some 0, .constant 0 .i64⟩, ⟨some 1, .loadReg .rbx .i64⟩, ⟨some 2, .binOp .mul 1 0 .i32⟩,
    ⟨none, .storeReg .rax 2 .i64⟩]

theorem algebraicSimplify_preserves_mulZero :
    (algebraicSimplify (.single mulZero)).stmts[2]? = some ⟨some 2, .constant 0 .i32⟩ ∧
    interpretBlock (algebraicSimplify (.single mulZero)).stmts .default =
      some (.fallthrough, storeReg .default .rax 0 .i64) :=
  ⟨rfl, algebraicSimplify_preserves (by decide) rfl rfl⟩

end Prisma.Algebraic
