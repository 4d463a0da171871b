import Prisma.Passes.CopyProp
import Prisma.Interp.Theorems.Reads

namespace Prisma.CopyProp

open Machine

-- A table in which no source of a copy is itself a copy, and all refs are defined.
structure Flat (defined : List Ref) (aliases : Aliases) : Prop where
  source : ∀ p ∈ aliases, aliases.lookup p.2 = none
  keys : ∀ p ∈ aliases, p.1 ∈ defined
  sources : ∀ p ∈ aliases, p.2 ∈ defined

theorem mem_of_lookup {aliases : Aliases} (h : aliases.lookup r = some q) : (r, q) ∈ aliases := by
  have ⟨l₁, l₂, he, _⟩ := List.lookup_eq_some_iff.mp h
  rw [he]
  simp

namespace Flat

variable {defined : List Ref} {aliases : Aliases} {stmt : Stmt} {stmts : List Stmt} {r : Ref}

section Flat

variable (h : Flat defined aliases)

include h

theorem resolveAlias_eq :
    resolveAlias r aliases = (aliases.lookup r).getD r := by
  have hgo : ∀ fuel cur, aliases.lookup cur = none → resolveAlias.go aliases fuel cur = cur := by
    intro fuel cur hl
    cases fuel
    case zero => rfl
    case succ => simp only [resolveAlias.go, hl]
  cases hl : aliases.lookup r
  case none => exact hgo _ _ hl
  case some q =>
    have hm := mem_of_lookup hl
    have ⟨n, hn⟩ : ∃ n, aliases.length = n + 1 :=
      Nat.exists_eq_succ_of_ne_zero (List.length_pos_of_mem hm).ne'
    simp only [resolveAlias, hn, resolveAlias.go, hl, hgo _ _ (h.source _ hm), Option.getD_some]
    split <;> simp_all

theorem lookup_resolveAlias :
    aliases.lookup (resolveAlias r aliases) = none := by
  rw [h.resolveAlias_eq]
  cases hl : aliases.lookup r
  case none => exact hl
  case some q => exact h.source _ (mem_of_lookup hl)

theorem resolveAlias_mem (hr : r ∈ defined) :
    resolveAlias r aliases ∈ defined := by
  rw [h.resolveAlias_eq]
  cases hl : aliases.lookup r
  case none => exact hr
  case some q => exact h.sources _ (mem_of_lookup hl)

theorem weaken (more : List Ref) : Flat (more ++ defined) aliases where
  source := h.source
  keys p hp := List.mem_append_right _ (h.keys p hp)
  sources p hp := List.mem_append_right _ (h.sources p hp)

theorem insert {more : List Ref} (hd : d ∉ defined) (hm : d ∈ more)
    (hsrc : src ∈ defined) (hn : aliases.lookup src = none) :
    Flat (more ++ defined) ((d, src) :: aliases) := by
  have hlookup (q : Ref) (hq : q ∈ defined) (hn : aliases.lookup q = none) :
      List.lookup q ((d, src) :: aliases) = none := by
    have hne : (q == d) = false := by
      rw [beq_eq_false_iff_ne]
      exact fun he => hd (he ▸ hq)
    simp only [List.lookup_cons, hne, hn]
  refine ⟨?source, ?keys, ?sources⟩
  all_goals simp only [List.mem_cons, forall_eq_or_imp]
  case source => exact ⟨hlookup _ hsrc hn, fun q hq => hlookup _ (h.sources q hq) (h.source q hq)⟩
  case keys => exact ⟨List.mem_append_left _ hm, (h.weaken _).keys⟩
  case sources => exact ⟨List.mem_append_right _ hsrc, (h.weaken _).sources⟩

end Flat

theorem copySource_eq_some {result : Option Ref} {op : Op} {d source : Ref}
    (h : copySource result op = some (d, source)) :
    result = some d ∧ ∃ size, op = .binOp .or source source size := by
  simp only [copySource] at h
  split at h
  case h_1 =>
    split at h
    case isTrue he =>
      simp only [Option.some.injEq, Prod.mk.injEq] at h
      have ⟨hd, hs⟩ := h
      exact ⟨by rw [hd], _, by rw [← he.left, hs]⟩
    case isFalse => contradiction
  case h_2 => contradiction

theorem rewrite_eq_binOp {op : Op} {kind : BinOpKind} {lhs rhs : Ref} {size : OpSize}
    (h : rewrite op aliases = .binOp kind lhs rhs size) :
    ∃ l r, op = .binOp kind l r size ∧ lhs = resolveAlias l aliases ∧ rhs = resolveAlias r aliases := by
  cases op
  case binOp =>
    simp only [rewrite, Op.binOp.injEq] at h
    have ⟨hk, hl, hr, hs⟩ := h
    exact ⟨_, _, by rw [hk, hs], hl.symm, hr.symm⟩
  all_goals simp [rewrite] at h

theorem copyStmt (h : Flat defined aliases) (hs : SsaFrom defined (stmt :: stmts)) :
    Flat (stmt.defs ++ defined) (copyStmt aliases stmt).1 := by
  cases hc : copySource stmt.result (rewrite stmt.op aliases)
  case none =>
    simp only [CopyProp.copyStmt, hc]
    exact h.weaken _
  case some p =>
    have ⟨d, source⟩ := p
    simp only [CopyProp.copyStmt, hc]
    have ⟨hr, size, ho⟩ := copySource_eq_some hc
    have ⟨l, _, hop, hl, _⟩ := rewrite_eq_binOp ho
    have hm : l ∈ defined := hs.operands_mem (by simp [hop, Op.operandRefs])
    have hd : d ∉ defined := hs.defs_not_mem (Stmt.mem_defs_of_result hr)
    have hsrc : source ∈ defined := hl ▸ h.resolveAlias_mem hm
    exact h.insert hd (Stmt.mem_defs_of_result hr) hsrc (hl ▸ h.lookup_resolveAlias)

end Flat

-- What each ref is a copy of, by the copy idioms of the statements so far.
abbrev Roots := Ref → Ref

def Roots.note (roots : Roots) (stmt : Stmt) : Roots :=
  match stmt.result, stmt.op with
  | some d, .binOp .or lhs rhs _ =>
    if roots lhs = roots rhs ∧ roots lhs ≠ d then Function.update roots d (roots lhs) else roots
  | _, _ => roots

-- The table of the pass resolves every ref to its root.
structure Resolves (defined : List Ref) (aliases : Aliases) (roots : Roots) : Prop where
  flat : Flat defined aliases
  eq : ∀ r, resolveAlias r aliases = roots r

namespace Resolves

variable {defined : List Ref} {aliases : Aliases} {roots : Roots} {stmt : Stmt} {stmts : List Stmt}

theorem nil : Resolves defined [] id where
  flat := ⟨by simp, by simp, by simp⟩
  eq _ := rfl

theorem copySource_eq (h : Resolves defined aliases roots) (stmt : Stmt) :
    (copySource stmt.result (rewrite stmt.op aliases) = none ∧ roots.note stmt = roots) ∨
    ∃ d l, copySource stmt.result (rewrite stmt.op aliases) = some (d, roots l) ∧
      roots.note stmt = Function.update roots d (roots l) := by
  have ⟨result, op⟩ := stmt
  cases result
  case none => exact .inl ⟨rfl, rfl⟩
  case some d =>
    cases op
    case binOp kind lhs rhs size =>
      cases kind
      case or =>
        simp only [rewrite, copySource, Roots.note, h.eq]
        split
        case isTrue => exact .inr ⟨d, lhs, rfl, rfl⟩
        case isFalse => exact .inl ⟨rfl, rfl⟩
      all_goals exact .inl ⟨rfl, rfl⟩
    all_goals exact .inl ⟨rfl, rfl⟩

theorem copyStmt (h : Resolves defined aliases roots) (hs : SsaFrom defined (stmt :: stmts)) :
    Resolves (stmt.defs ++ defined) (copyStmt aliases stmt).1 (roots.note stmt) where
  flat := h.flat.copyStmt hs
  eq r := by
    rw [(h.flat.copyStmt hs).resolveAlias_eq]
    have hr := h.eq r
    rw [h.flat.resolveAlias_eq] at hr
    obtain ⟨hc, hn⟩ | ⟨d, l, hc, hn⟩ := h.copySource_eq stmt
    case inl =>
      simp only [CopyProp.copyStmt, hc, hn]
      exact hr
    case inr =>
      simp only [CopyProp.copyStmt, hc, hn, Option.toList_some, List.singleton_append,
        List.lookup_cons, Function.update_apply]
      by_cases he : r = d
      case pos => simp [he]
      case neg =>
        simp only [beq_eq_false_iff_ne.mpr he, if_neg he]
        exact hr

end Resolves

-- Operands of these operations are read but not replaced.
def keepsOperands : Op → Bool
  | .storeCarry _ | .storeVecReg .. => true
  | _ => false

-- The condition under which the operands of an operation can be replaced by their roots: both agree
-- on the bits that the operation reads. A copy at a narrow size cuts the upper bits off, and a copy
-- of a vector is zero.
structure ReadsExact (roots : Roots) (op : Op) (s : State) : Prop where
  scalar : ∀ p ∈ op.scalarReads s.cpu, SameLow p.2 (s.env.vals p.1) (s.env.vals (roots p.1))
  vector : ∀ p ∈ op.vectorReads,
    SameBits p.2.1 p.2.2 (s.env.vecVals p.1) (s.env.vecVals (roots p.1))

instance ReadsExact.decidable (roots : Roots) (op : Op) (s : State) :
    Decidable (ReadsExact roots op s) :=
  decidable_of_iff (_ ∧ _) ⟨fun h => ⟨h.left, h.right⟩, fun h => ⟨h.scalar, h.vector⟩⟩

abbrev StepExact (roots : Roots) (stmt : Stmt) (s : State) : Prop :=
  keepsOperands stmt.op = false → ReadsExact roots stmt.op s

-- No statement of the run reads a bit of a copy in which the copy differs from its root.
def CopiesExact (stmts : List Stmt) (regs : GuestRegs) : Prop :=
  Along step (fun roots stmt _ => roots.note stmt) StepExact id stmts (.entry regs)

theorem evalOp_rewrite (hr : Resolves defined aliases roots)
    (h : keepsOperands op = false → ReadsExact roots op s) :
    evalOp (rewrite op aliases) hasResult s.env s.cpu = evalOp op hasResult s.env s.cpu := by
  obtain rfl : (resolveAlias · aliases) = roots := funext hr.eq
  cases op
  all_goals first
    | rfl
    | exact evalOp_mapRefs_of_reads (h rfl).scalar (h rfl).vector

-- The relation that copy propagation keeps: source and target are in the same state.
structure Related (aliases : Aliases) (stmts : List Stmt) (s t : State) : Prop where
  eq : s = t
  ssa : ∃ defined roots, SsaFrom defined stmts ∧ Resolves defined aliases roots ∧
    Along step (fun roots stmt _ => roots.note stmt) StepExact roots stmts s

theorem Related.step (h : Related aliases (stmt :: stmts) s t) :
    Matches Prisma.step (fun _ => True) (Related (copyStmt aliases stmt).1 stmts)
      (some (copyStmt aliases stmt).2) t (Prisma.step stmt s) := by
  obtain ⟨rfl, defined, roots, hs, hr, hx⟩ := h
  have he : Prisma.step (copyStmt aliases stmt).2 s = Prisma.step stmt s := by
    simp only [Prisma.step, copyStmt, evalOp_rewrite hr hx.head]
  rw [← he]
  refine .refl fun s' hn => ⟨rfl, _, _, hs.tail, hr.copyStmt hs, hx.tail (he ▸ hn)⟩

def storeCopy (v : U64) (copySize storeSize : OpSize) : List Stmt :=
  [⟨some 0, .constant v .i64⟩, ⟨some 1, .binOp .or 0 0 copySize⟩,
    ⟨none, .storeReg .rax 1 storeSize⟩]

theorem interpretBlock_storeCopy (v : U64) (copySize storeSize : OpSize) (regs : GuestRegs) :
    interpretBlock (storeCopy v copySize storeSize) regs =
      some (.fallthrough, storeReg regs .rax (mask v copySize) storeSize) := by
  simp [interpretBlock, run, storeCopy, Prisma.step, evalOp, evalBinop, Env.define, State.entry,
    Cpu.entry, State.fallthrough, Step.outcome]

theorem interpretBlock_storeCopy_replaced (v : U64) (copySize storeSize : OpSize)
    (regs : GuestRegs) :
    interpretBlock (copyPropagate (.single (storeCopy v copySize storeSize))).stmts regs =
      some (.fallthrough, storeReg regs .rax v storeSize) := by
  simp [interpretBlock, run, storeCopy, Prisma.step, evalOp, evalBinop, Env.define, State.entry,
    Cpu.entry, State.fallthrough, Step.outcome, copyPropagate, copyStmt, rewrite, copySource,
    resolveAlias, resolveAlias.go]

-- In every run in which no statement reads a bit of a copy that differs from its root, the block
-- keeps its outcome and final registers.
theorem copyPropagate_preserves {stmts : List Stmt} {regs : GuestRegs}
    {o : BlockOutcome × GuestRegs} (hs : Ssa stmts) (ho : interpretBlock stmts regs = some o)
    (he : CopiesExact stmts regs) :
    interpretBlock (copyPropagate (.single stmts)).stmts regs = some o := by
  rw [copyPropagate, Function.stmts_mapBlocks_single]
  refine run_rewrite (G := fun _ => True) (R := Related) ?nil ?cons
    ⟨rfl, _, _, hs, .nil, he⟩ ho trivial
  case nil =>
    intro aliases s t h
    rw [h.eq]
  case cons =>
    intro aliases stmt stmts s t h
    exact h.step

-- The condition cannot be weakened: storing a copy shows each value that violates it.
theorem storeCopy_preserved_iff (v : U64) (copySize storeSize : OpSize) (regs : GuestRegs) :
    interpretBlock (copyPropagate (.single (storeCopy v copySize storeSize))).stmts regs =
      interpretBlock (storeCopy v copySize storeSize) regs ↔
    SameLow storeSize.bitWidth v (mask v copySize) := by
  rw [interpretBlock_storeCopy, interpretBlock_storeCopy_replaced]
  simp only [Option.some.injEq, Prod.mk.injEq, true_and, storeReg_inj, mask_eq_iff]

theorem copyPropagate_preserves_storeCopy :
    CopiesExact (storeCopy 0x1ff .i16 .i64) .default ∧
    ((interpretBlock (copyPropagate (.single (storeCopy 0x1ff .i16 .i64))).stmts .default).map
      (·.2.gpr .rax)) = some 0x1ff := by
  have h : CopiesExact (storeCopy 0x1ff .i16 .i64) .default := by
    unfold CopiesExact
    decide
  refine ⟨h, ?_⟩
  rw [copyPropagate_preserves (by decide) (interpretBlock_storeCopy ..) h]
  decide

-- A copy at 8 bits cuts 0x1ff off, the store of its root does not.
theorem copyPropagate_not_preserves :
    Ssa (storeCopy 0x1ff .i8 .i64) ∧
    ((interpretBlock (storeCopy 0x1ff .i8 .i64) .default).map
      fun o => (o.1, o.2.gpr .rax)) = some (.fallthrough, 0xff) ∧
    ((interpretBlock (copyPropagate (.single (storeCopy 0x1ff .i8 .i64))).stmts .default).map
      fun o => (o.1, o.2.gpr .rax)) = some (.fallthrough, 0x1ff) := by
  decide

end Prisma.CopyProp
