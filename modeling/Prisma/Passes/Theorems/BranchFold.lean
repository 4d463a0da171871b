import Prisma.Passes.BranchFold
import Prisma.Passes.Theorems.Consts
import Prisma.Interp.Theorems.Flags

namespace Prisma.BranchFold

open Machine

-- The conditions that look at a single flag. The pass cannot evaluate them.
def isFlagDirect : CondCode → Bool
  | .cc | .nc | .ov | .noOv | .mi | .pl => true
  | _ => false

-- The direction in which a branch after a comparison of `a` with `b` is folded: conditions on a
-- single flag count as not taken.
def direction (cc : CondCode) (a b : U64) (size : OpSize) : Bool :=
  !isFlagDirect cc && cc.compare (a.setWidth size.bitWidth) (b.setWidth size.bitWidth)

theorem sext_mask (v : U64) (size : OpSize) :
    sext size (mask v size) = (v.setWidth size.bitWidth).toInt := by
  by_cases h : size = .i64
  case pos =>
    subst h
    rfl
  case neg =>
    have hb : size.bitWidth ≠ 64 := by
      cases size <;> first | contradiction | decide
    rw [sext, if_neg hb, ← apply_ite BitVec.toInt, signExtendToU64_of_mask v h, signExtendToU64_eq,
      BitVec.toInt_signExtend_of_le size.bitWidth_le]

theorem evalCond_getD (cc : CondCode) (a b : U64) (size : OpSize) :
    (evalCond cc a b size).getD false = direction cc a b size := by
  simp only [evalCond, ← mask_eq_and, sext_mask, mask_beq, bne, mask_ult, mask_ule]
  cases cc
  case slt | sle | sgt | sge =>
    simp [direction, isFlagDirect, CondCode.compare, BitVec.slt_eq_decide, BitVec.sle_eq_decide]
  all_goals rfl

-- The condition under which the branch goes where it is folded to: its targets are the same, or the
-- flags decide the condition as the operands of the last comparison do.
def BranchExact (t : Tracked) (op : Op) (s : State) : Prop :=
  match op, t.lastCmp with
  | .condJumpRel cc targetGuestPc fallthroughGuestPc, some lc =>
    (t.consts lc.lhs).isSome → (t.consts lc.rhs).isSome →
      targetGuestPc = fallthroughGuestPc ∨
      evalCc cc s.cpu.restoreFlags.flags =
        direction cc (s.env.vals lc.lhs) (s.env.vals lc.rhs) lc.size
  | _, _ => True

instance BranchExact.decidable (t : Tracked) (op : Op) (s : State) :
    Decidable (BranchExact t op s) := by
  unfold BranchExact
  split <;> infer_instance

-- The branch that ends the run, if there is one, is folded in the right direction.
def FoldsExactly (stmts : List Stmt) (regs : GuestRegs) : Prop :=
  Along step (fun t stmt _ => (foldStmt t stmt).1) (fun t stmt s => BranchExact t stmt.op s)
    .none stmts (.entry regs)

-- The invariant of the run: the statements that remain are in SSA form, and the table of constants
-- is right.
def Inv (t : Tracked) (stmts : List Stmt) (s : State) : Prop :=
  ∃ defined, SsaFrom defined stmts ∧ t.consts.Sound defined s.env

theorem foldStmt_cases (t : Tracked) (stmt : Stmt) :
    (∃ cc target fallthrough, stmt.op = .condJumpRel cc target fallthrough) ∨
    ((foldStmt t stmt).2 = stmt ∧ (∀ s, BranchExact t stmt.op s) ∧
      ((foldStmt t stmt).1.consts = t.consts ∨
        ∃ d value size, stmt.result = some d ∧ stmt.op = .constant value size ∧
          (foldStmt t stmt).1.consts = Function.update t.consts d (some (mask value size)))) := by
  have ⟨result, op⟩ := stmt
  cases op
  case condJumpRel cc target fallthrough => exact .inl ⟨_, _, _, rfl⟩
  case constant value size =>
    refine .inr ?_
    cases result
    case none => exact ⟨rfl, fun _ => trivial, .inl rfl⟩
    case some d =>
      exact ⟨rfl, fun _ => trivial, .inr ⟨d, value, size, rfl, rfl, by simp [foldStmt, mask_eq_and]⟩⟩
  all_goals exact .inr ⟨rfl, fun _ => trivial, .inl rfl⟩

theorem step_condJumpRel {stmt : Stmt} (h : stmt.op = .condJumpRel cc target fallthrough)
    (s : State) :
    step stmt s = .halt (.branch (if evalCc cc s.cpu.restoreFlags.flags then target else fallthrough),
      s.cpu.regs) :=
  step_of_evalOp_halt (by rw [h]; rfl)

theorem Inv.next {t : Tracked} {stmt : Stmt} {stmts : List Stmt} {s s' : State}
    (h : Inv t (stmt :: stmts) s) (hn : step stmt s = .next s') :
    (foldStmt t stmt).2 = stmt ∧ BranchExact t stmt.op s ∧ Inv (foldStmt t stmt).1 stmts s' := by
  have ⟨defined, hs, hc⟩ := h
  obtain ⟨cc, target, fallthrough, ho⟩ | ⟨hf, he, ht⟩ := foldStmt_cases t stmt
  case inl =>
    rw [step_condJumpRel ho] at hn
    contradiction
  case inr =>
    refine ⟨hf, he s, _, hs.tail, ?_⟩
    obtain ht | ⟨d, value, size, hr, ho, ht⟩ := ht
    case inl =>
      rw [ht]
      exact hc.step hs hn
    case inr =>
      rw [ht]
      refine (hc.step hs hn).update (List.mem_append_left _ (Stmt.mem_defs_of_result hr)) ?_
      rw [step_of_evalOp_next (by rw [ho]; rfl), Step.next.injEq] at hn
      simp [← hn, hr]

theorem operands_eq_some {t : Tracked} (h : t.operands = some (a, b, size)) :
    ∃ lc, t.lastCmp = some lc ∧ t.consts lc.lhs = some a ∧ t.consts lc.rhs = some b ∧
      lc.size = size := by
  simp only [Tracked.operands, Option.bind_eq_bind, Option.bind_eq_some_iff, Option.pure_def,
    Option.some.injEq, Prod.mk.injEq] at h
  have ⟨lc, hl, _, ha, _, hb, rfl, rfl, hs⟩ := h
  exact ⟨lc, hl, ha, hb, hs⟩

theorem branchExact_of_operands_eq_none {t : Tracked} (h : t.operands = none) (op : Op) (s : State) :
    BranchExact t op s := by
  simp only [BranchExact]
  split
  case h_1 lc hl =>
    intro ha hb
    have ⟨a, ha⟩ := Option.isSome_iff_exists.mp ha
    have ⟨b, hb⟩ := Option.isSome_iff_exists.mp hb
    simp [Tracked.operands, hl, ha, hb] at h
  case h_2 => trivial

-- A folded branch ends the run as the original one does if and only if its direction is right.
theorem Inv.last (h : Inv t (stmt :: stmts) s) (hn : ∀ s', step stmt s ≠ .next s') :
    (∀ s', step (foldStmt t stmt).2 s ≠ .next s') ∧
    (step (foldStmt t stmt).2 s = step stmt s ↔ BranchExact t stmt.op s) := by
  have ⟨defined, hs, hc⟩ := h
  obtain ⟨cc, target, fallthrough, ho⟩ | ⟨hf, he, _⟩ := foldStmt_cases t stmt
  case inl =>
    cases hp : t.operands
    case none =>
      have hf : (foldStmt t stmt).2 = stmt := by simp only [foldStmt, ho, hp]
      rw [hf]
      exact ⟨hn, by simp [branchExact_of_operands_eq_none hp]⟩
    case some p =>
      have ⟨a, b, size⟩ := p
      have ⟨lc, hl, ha, hb, hz⟩ := operands_eq_some hp
      have hf : step (foldStmt t stmt).2 s =
          .halt (.branch (if direction cc a b size then target else fallthrough), s.cpu.regs) := by
        simp only [foldStmt, ho, hp, evalCond_getD]
        rfl
      have ⟨_, ha'⟩ := hc _ _ ha
      have ⟨_, hb'⟩ := hc _ _ hb
      rw [hf, step_condJumpRel ho]
      refine ⟨by simp, ?_⟩
      simp only [BranchExact, ho, hl, ha, hb, ha', hb', hz, Option.isSome_some, forall_const,
        Step.halt.injEq, Prod.mk.injEq, BlockOutcome.branch.injEq, and_true]
      cases direction cc a b size <;> cases evalCc cc s.cpu.restoreFlags.flags
      all_goals simp [eq_comm]
  case inr =>
    rw [hf]
    exact ⟨hn, by simp [he s]⟩

-- The block keeps its outcome and final registers if and only if the branch that ends its run is
-- folded in the right direction.
theorem branchFold_preserves_iff {stmts : List Stmt} {regs : GuestRegs} (hs : Ssa stmts) :
    interpretBlock (branchFold (.single stmts)).stmts regs = interpretBlock stmts regs ↔
      FoldsExactly stmts regs := by
  rw [branchFold, Function.stmts_mapBlocks_single]
  refine run_rewrite_iff_along (I := Inv) ?next ?last ⟨_, hs, .noConsts⟩
  case next =>
    intro t stmt stmts s s' h hn
    have ⟨hf, he, hi⟩ := h.next hn
    exact ⟨congrArg some hf, he, hi⟩
  case last =>
    intro t stmt stmts s h hn
    exact ⟨_, rfl, h.last hn⟩

def compareBranch (cc : CondCode) : List Stmt :=
  [⟨some 0, .constant 1 .i64⟩, ⟨none, .cmpFlags 0 0 .i64⟩, ⟨none, .condJumpRel cc 0x10 0x20⟩]

theorem branchFold_preserves_compareBranch :
    interpretBlock (branchFold (.single (compareBranch .sle))).stmts .default =
      interpretBlock (compareBranch .sle) .default :=
  (branchFold_preserves_iff (by decide)).mpr (by unfold FoldsExactly; decide)

-- There is no borrow when a value is compared with itself, but the branch is folded to not taken.
theorem branchFold_not_preserves :
    Ssa (compareBranch .nc) ∧
    ((interpretBlock (compareBranch .nc) .default).map (·.1)) = some (.branch 0x10) ∧
    ((interpretBlock (branchFold (.single (compareBranch .nc))).stmts .default).map (·.1)) =
      some (.branch 0x20) := by
  decide

end Prisma.BranchFold
