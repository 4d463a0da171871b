import Prisma.Passes.Cse
import Prisma.Interp.Theorems.Block
import Prisma.Interp.Theorems.Identities

namespace Prisma.Cse

open Machine

variable {seen : Seen} {defined : List Ref} {stmt : Stmt} {stmts : List Stmt} {s s' : State}

-- The recorded results are what the operations would compute again.
def Sound (seen : Seen) (defined : List Ref) (env : Env) : Prop :=
  ∀ op lhs rhs size prev, seen (op, lhs, rhs, size) = some prev →
    prev ∈ defined ∧ lhs ∈ defined ∧ rhs ∈ defined ∧
      evalBinop op (env.vals lhs) (env.vals rhs) size = some (env.vals prev)

namespace Sound

theorem noneSeen : Sound noneSeen defined env :=
  nofun

theorem step (h : Sound seen defined s.env) (hs : SsaFrom defined (stmt :: stmts))
    (ht : Prisma.step stmt s = .next s') : Sound seen (stmt.defs ++ defined) s'.env := by
  intro op lhs rhs size prev hseen
  have ⟨hp, hl, hr, heval⟩ := h op lhs rhs size prev hseen
  have hvals (r : Ref) (hr : r ∈ defined) : s'.env.vals r = s.env.vals r :=
    step_next_vals ht (result_ne_of_ssaFrom hs hr)
  refine ⟨List.mem_append_right _ hp, List.mem_append_right _ hl, List.mem_append_right _ hr, ?_⟩
  rw [hvals lhs hl, hvals rhs hr, hvals prev hp, heval]

theorem update (h : Sound seen defined env) (hd : d ∈ defined) (hl : lhs ∈ defined)
    (hr : rhs ∈ defined) (hv : evalBinop op (env.vals lhs) (env.vals rhs) size = some (env.vals d)) :
    Sound (Function.update seen (op, lhs, rhs, size) (some d)) defined env := by
  intro op' lhs' rhs' size' prev hseen
  by_cases hk : (op', lhs', rhs', size') = (op, lhs, rhs, size)
  case pos =>
    rw [hk, Function.update_self] at hseen
    cases hseen
    cases hk
    exact ⟨hd, hl, hr, hv⟩
  case neg =>
    rw [Function.update_of_ne hk] at hseen
    exact h op' lhs' rhs' size' prev hseen

end Sound

-- What one iteration does.
inductive Eliminates (seen : Seen) (stmt : Stmt) : Seen × Stmt → Prop
  | flush : Eliminates seen stmt (noneSeen, stmt)
  | keep : Eliminates seen stmt (seen, stmt)
  | copy {op lhs rhs size prev} (hop : stmt.op = .binOp op lhs rhs size)
    (hseen : seen (op, lhs, rhs, size) = some prev) :
    Eliminates seen stmt (seen, { stmt with op := .binOp .or prev prev size })
  | learn {d op lhs rhs size} (hd : stmt.result = some d) (hop : stmt.op = .binOp op lhs rhs size) :
    Eliminates seen stmt (Function.update seen (op, lhs, rhs, size) (some d), stmt)

theorem eliminates (seen : Seen) (stmt : Stmt) : Eliminates seen stmt (eliminateStmt seen stmt) := by
  unfold eliminateStmt
  split
  case isTrue => exact .flush
  case isFalse =>
    split
    case h_1 d op lhs rhs size hd hop =>
      split
      case h_1 prev hseen => exact .copy hop hseen
      case h_2 => exact .learn hd hop
    case h_2 => exact .keep

theorem step_copy (hop : stmt.op = .binOp op lhs rhs size)
    (heval : evalBinop op (s.env.vals lhs) (s.env.vals rhs) size = some (s.env.vals prev)) :
    step { stmt with op := .binOp .or prev prev size } s = step stmt s := by
  have hmask : mask (s.env.vals prev) size = s.env.vals prev := by
    rw [evalBinop_eq] at heval
    have ⟨z, _, hz⟩ := Option.map_eq_some_iff.mp heval
    rw [← hz, mask_eq_setWidth, BitVec.setWidth_setWidth_of_le _ size.bitWidth_le,
      BitVec.setWidth_eq]
  have hor : evalBinop .or (s.env.vals prev) (s.env.vals prev) size = some (s.env.vals prev) := by
    rw [evalBinop_self_of_idem (.inl rfl), hmask]
  simp only [step, hop, evalOp, heval, hor]

theorem step_eliminateStmt (h : Sound seen defined s.env) :
    step (eliminateStmt seen stmt).2 s = step stmt s := by
  generalize hr : eliminateStmt seen stmt = res
  cases hr ▸ eliminates seen stmt with
  | flush | keep | learn => rfl
  | copy hop hseen => exact step_copy hop (h _ _ _ _ _ hseen).right.right.right

theorem sound_eliminateStmt (h : Sound seen defined s.env) (hs : SsaFrom defined (stmt :: stmts))
    (ht : step stmt s = .next s') :
    Sound (eliminateStmt seen stmt).1 (stmt.defs ++ defined) s'.env := by
  generalize hr : eliminateStmt seen stmt = res
  cases hr ▸ eliminates seen stmt with
  | flush => exact .noneSeen
  | keep | copy => exact h.step hs ht
  | @learn d op lhs rhs size hd hop =>
    have hl : lhs ∈ defined := hs.operands_mem (by simp [hop, Op.operandRefs])
    have hr : rhs ∈ defined := hs.operands_mem (by simp [hop, Op.operandRefs])
    refine (h.step hs ht).update (List.mem_append_left _ (Stmt.mem_defs_of_result hd))
      (List.mem_append_right _ hl) (List.mem_append_right _ hr) ?_
    rw [step_next_vals ht (result_ne_of_ssaFrom hs hl), step_next_vals ht (result_ne_of_ssaFrom hs hr)]
    cases heval : evalBinop op (s.env.vals lhs) (s.env.vals rhs) size with
    | none => simp [step, hop, evalOp, heval] at ht
    | some v =>
      simp only [step, hop, hd, evalOp, heval, Step.bind_next, Step.next.injEq] at ht
      rw [← ht, Env.define_scalar_vals]

-- The block without repeated operations has the same outcome and final registers.
theorem commonSubexpressionEliminate_preserves (hs : Ssa stmts) (regs : GuestRegs) :
    interpretBlock (commonSubexpressionEliminate (.single stmts)).stmts regs =
      interpretBlock stmts regs := by
  rw [commonSubexpressionEliminate, Function.stmts_mapBlocks_single]
  refine run_rewrite_eq
    (I := fun seen stmts s => ∃ defined, SsaFrom defined stmts ∧ Sound seen defined s.env)
    (fun ⟨_, _, h⟩ => step_eliminateStmt h) ?inv ⟨_, hs, .noneSeen⟩
  case inv =>
    intro seen stmt stmts s s' ⟨defined, hs, h⟩ ht
    exact ⟨_, hs.tail, sound_eliminateStmt h hs ht⟩

-- Computes a product twice.
def twice : List Stmt :=
  [⟨some 0, .loadReg .rbx .i64⟩, ⟨some 1, .binOp .mul 0 0 .i32⟩, ⟨some 2, .binOp .mul 0 0 .i32⟩,
    ⟨none, .storeReg .rax 2 .i64⟩]

theorem commonSubexpressionEliminate_preserves_twice :
    (commonSubexpressionEliminate (.single twice)).stmts[2]? =
      some ⟨some 2, .binOp .or 1 1 .i32⟩ ∧
    interpretBlock (commonSubexpressionEliminate (.single twice)).stmts .default =
      some (.fallthrough, storeReg .default .rax 0 .i64) :=
  ⟨rfl, commonSubexpressionEliminate_preserves (by decide) _⟩

end Prisma.Cse
