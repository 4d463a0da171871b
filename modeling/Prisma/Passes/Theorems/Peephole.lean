import Prisma.Passes.Peephole
import Prisma.Interp.Theorems.Reads
import Prisma.Interp.Theorems.Identities

namespace Prisma.Peephole

open Machine

variable {before : Before} {stmt : Stmt} {stmts : List Stmt} {op : Op} {s s' : State}
  {r : Ref} {value : U64} {env : Env}

-- The statement after a round.
def rewriteStmt (before : Before) (stmt : Stmt) : Stmt :=
  match matchRule before stmt with
  | some op => ⟨stmt.result, op⟩
  | none => stmt

theorem runOnce_cons :
    (runOnce before (stmt :: stmts)).1 =
      rewriteStmt before stmt :: (runOnce (stmt :: before) stmts).1 := by
  simp only [runOnce, rewriteStmt]
  cases matchRule before stmt <;> simp

theorem runOnce_eq_rewrite : (runOnce before stmts).1 =
    rewrite (fun before stmt => (stmt :: before, rewriteStmt before stmt).map id some) before
      stmts := by
  induction stmts generalizing before
  case nil => rfl
  case cons stmt stmts hi =>
    rw [runOnce_cons, hi]
    rfl

-- Whatever is found to be the constant zero or one has this value.
def Knows (const : Ref → Option U64) (env : Env) : Prop :=
  ∀ r v, const r = some v → ∃ size, env.vals r = mask v size

theorem Knows.zero {const : Ref → Option U64} (h : Knows const env) (hr : const r = some 0) :
    env.vals r = 0 := by
  have ⟨size, hv⟩ := h r 0 hr
  rw [hv]
  cases size <;> rfl

theorem Knows.one (h : Knows const env) (hr : const r = some 1) : env.vals r = 1 := by
  have ⟨size, hv⟩ := h r 1 hr
  rw [hv]
  cases size <;> rfl

theorem matchBinop_eq_some (hc : Knows const env) (h : matchBinop const kind lhs rhs size = some op) :
    (op = .constant 0 size ∧ evalBinop kind (env.vals lhs) (env.vals rhs) size = some 0) ∨
    ∃ keep ∈ [lhs, rhs], op = .truncate keep size ∧
      evalBinop kind (env.vals lhs) (env.vals rhs) size = some (mask (env.vals keep) size) := by
  cases kind
  case xor =>
    have ⟨hsame, hop⟩ := Option.ite_none_right_eq_some.mp h
    cases hop
    rw [hsame]
    exact .inl ⟨rfl, evalBinop_self_of_cancel (.inr rfl)⟩
  case or | and =>
    have ⟨hsame, hop⟩ := Option.ite_none_right_eq_some.mp h
    cases hop
    rw [hsame]
    exact .inr ⟨rhs, by simp, rfl, evalBinop_self_of_idem (by simp)⟩
  case add =>
    simp only [matchBinop] at h
    split at h
    case isTrue hl =>
      cases h
      rw [hc.zero hl]
      exact .inr ⟨rhs, by simp, rfl, evalBinop_neutral_left (.inl ⟨rfl, rfl⟩)⟩
    case isFalse =>
      have ⟨hr, hop⟩ := Option.ite_none_right_eq_some.mp h
      cases hop
      rw [hc.zero hr]
      exact .inr ⟨lhs, by simp, rfl, evalBinop_neutral_right (.inl ⟨.inl rfl, rfl⟩)⟩
  case sub =>
    have ⟨hr, hop⟩ := Option.ite_none_right_eq_some.mp h
    cases hop
    rw [hc.zero hr]
    exact .inr ⟨lhs, by simp, rfl, evalBinop_neutral_right (.inl ⟨.inr rfl, rfl⟩)⟩
  case mul =>
    simp only [matchBinop] at h
    split at h
    case isTrue hl =>
      cases h
      rw [hc.one hl]
      exact .inr ⟨rhs, by simp, rfl, evalBinop_neutral_left (.inr ⟨rfl, rfl⟩)⟩
    split at h
    case isTrue hr =>
      cases h
      rw [hc.one hr]
      exact .inr ⟨lhs, by simp, rfl, evalBinop_neutral_right (.inr ⟨rfl, rfl⟩)⟩
    have ⟨hzero, hop⟩ := Option.ite_none_right_eq_some.mp h
    cases hop
    refine .inl ⟨rfl, ?_⟩
    rcases hzero with hl | hr
    · rw [hc.zero hl]
      exact evalBinop_mul_zero_left
    · rw [hc.zero hr]
      exact evalBinop_zero_right (.inl rfl)
  all_goals contradiction

theorem evalOp_matchRule (hc : Knows (tryConst before) s.env) (h : matchRule before stmt = some op) :
    evalOp op stmt.result.isSome s.env s.cpu = evalOp stmt.op stmt.result.isSome s.env s.cpu := by
  unfold matchRule at h
  split at h
  · contradiction
  split at h
  case h_1 kind lhs rhs size hop =>
    rw [hop]
    rcases matchBinop_eq_some hc h with ⟨rfl, hv⟩ | ⟨keep, _, rfl, hv⟩
    · have hmask : mask 0 size = 0 := by cases size <;> rfl
      simp only [evalOp, hv, hmask]
    · simp only [evalOp, hv]
  case h_2 value fromSize toSize isSigned hop =>
    have ⟨hsize, hop'⟩ := Option.ite_none_right_eq_some.mp h
    subst hsize
    cases hop'
    rw [hop]
    cases isSigned
    case true =>
      have hsign : mask (signExtendToU64 (s.env.vals value) fromSize) fromSize =
          mask (s.env.vals value) fromSize := by
        rw [mask_eq_iff, setWidth_signExtendToU64 (le_refl _)]
      simp [evalOp, hsign]
    case false => simp [evalOp]
  case h_3 => contradiction

theorem step_rewriteStmt (hc : Knows (tryConst before) s.env) :
    step (rewriteStmt before stmt) s = step stmt s := by
  unfold rewriteStmt
  cases h : matchRule before stmt with
  | none => rfl
  | some op => simp only [step, evalOp_matchRule hc h]

theorem tryConst_cons_of_ne (h : stmt.result ≠ some r) :
    tryConst (stmt :: before) r = tryConst before r := by
  simp [tryConst, h]

theorem tryConst_cons_of_eq (h : stmt.result = some r) (hc : tryConst (stmt :: before) r = some value) :
    ∃ size, stmt.op = .constant value size := by
  have hfind : (stmt :: before).find? (·.result = some r) = some stmt := by simp [h]
  rw [tryConst, hfind] at hc
  split at hc
  case h_1 size heq =>
    cases hc
    cases heq
    exact ⟨size, rfl⟩
  case h_2 => contradiction

theorem Knows.step (h : Knows (tryConst before) s.env) (ht : Prisma.step stmt s = .next s') :
    Knows (tryConst (stmt :: before)) s'.env := by
  intro r v hr
  by_cases hd : stmt.result = some r
  case pos =>
    obtain ⟨size, hop⟩ := tryConst_cons_of_eq hd hr
    simp only [Prisma.step, hop, evalOp, Step.bind_next, Step.next.injEq, hd] at ht
    exact ⟨size, by rw [← ht, Env.define_scalar_vals]⟩
  case neg =>
    rw [tryConst_cons_of_ne hd] at hr
    obtain ⟨size, hv⟩ := h r v hr
    exact ⟨size, by rw [step_next_vals ht hd, hv]⟩

theorem interpretBlock_runOnce (stmts : List Stmt) (regs : GuestRegs) :
    interpretBlock (runOnce [] stmts).1 regs = interpretBlock stmts regs := by
  rw [runOnce_eq_rewrite]
  exact run_rewrite_eq (I := fun before _ s => Knows (tryConst before) s.env)
    step_rewriteStmt Knows.step nofun

theorem interpretBlock_rounds (n : Nat) (stmts : List Stmt) (regs : GuestRegs) :
    interpretBlock (rounds n stmts) regs = interpretBlock stmts regs := by
  induction n generalizing stmts
  case zero => rfl
  case succ n hi =>
    simp only [rounds]
    split
    · rw [hi, interpretBlock_runOnce]
    · exact interpretBlock_runOnce stmts regs

-- The block has the same outcome and final registers. It does not have to be in SSA form, since the
-- rules look at the latest definition of a ref.
theorem peepholeOptimiseDefault_preserves (stmts : List Stmt) (regs : GuestRegs) :
    interpretBlock (peepholeOptimiseDefault (.single stmts)).stmts regs =
      interpretBlock stmts regs := by
  rw [peepholeOptimiseDefault, Function.stmts_mapBlocks_single]
  exact interpretBlock_rounds maxIterations stmts regs

end Prisma.Peephole
