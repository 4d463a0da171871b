import Prisma.Passes.Theorems.Consts
import Prisma.Passes.Theorems.ConstPropArith

namespace Prisma.ConstProp

open Machine

-- What an iteration of the pass leaves if it does not panic.
def foldedStmt (consts : Consts) (stmt : Stmt) : Consts × Stmt :=
  (foldStmt consts stmt).getD (consts, stmt)

-- The product of two known operands stays in the `i128`.
def ProductFits (consts : Consts) (stmt : Stmt) : Prop :=
  match stmt.result, stmt.op with
  | some _, .binOp .sMulHi lhs rhs _ =>
    ∀ a ∈ consts lhs, ∀ b ∈ consts rhs, a.toNat * b.toNat < 2 ^ 127
  | _, _ => True

instance ProductFits.decidable (consts : Consts) (stmt : Stmt) :
    Decidable (ProductFits consts stmt) := by
  unfold ProductFits
  split <;> infer_instance

-- The same for all statements, also for those behind the end of the run.
def ProductsFit (consts : Consts) : List Stmt → Prop
  | [] => True
  | stmt :: stmts => ProductFits consts stmt ∧ ProductsFit (foldedStmt consts stmt).1 stmts

instance ProductsFit.decidable :
    (consts : Consts) → (stmts : List Stmt) → Decidable (ProductsFit consts stmts)
  | _, [] => isTrue trivial
  | consts, stmt :: stmts =>
    have := ProductsFit.decidable (foldedStmt consts stmt).1 stmts
    inferInstanceAs (Decidable (_ ∧ _))

theorem foldStmt_isSome (consts : Consts) (stmt : Stmt) :
    (foldStmt consts stmt).isSome ↔ ProductFits consts stmt := by
  have ⟨result, op⟩ := stmt
  cases result
  case none => exact iff_of_true rfl trivial
  case some d =>
    cases op
    case binOp op lhs rhs size =>
      cases op
      case sMulHi =>
        simp only [foldStmt, ProductFits]
        cases consts lhs
        case none => simp
        case some a =>
        cases consts rhs
        case none => simp
        case some b =>
        simp only [evalBinop, true_and]
        split
        case isTrue h => exact iff_of_false nofun fun hf => Nat.not_lt.mpr h (hf a rfl b rfl)
        case isFalse h =>
          refine iff_of_true rfl ?_
          rintro _ ⟨⟩ _ ⟨⟩
          exact Nat.not_le.mp h
      all_goals
        refine iff_of_true ?_ trivial
        simp only [foldStmt]
        split <;> rfl
    all_goals
      refine iff_of_true ?_ trivial
      simp only [foldStmt]
      first | rfl | (split <;> first | rfl | (split <;> rfl))

theorem foldStmts_eq (h : ProductsFit consts stmts) : foldStmts consts stmts =
    some (rewrite (fun consts stmt => (foldedStmt consts stmt).map id some) consts stmts) := by
  induction stmts generalizing consts
  case nil => rfl
  case cons stmt stmts hi =>
    have ⟨r, hf⟩ := Option.isSome_iff_exists.mp ((foldStmt_isSome ..).mpr h.left)
    have hr : foldedStmt consts stmt = r := by rw [foldedStmt, hf]; rfl
    simp [foldStmts, hf, hr, hi (hr ▸ h.right)]

theorem productsFit_of_foldStmts (h : foldStmts consts stmts = some out) :
    ProductsFit consts stmts := by
  induction stmts generalizing consts out
  case nil => trivial
  case cons stmt stmts hi =>
    simp only [foldStmts, Option.bind_eq_bind, Option.bind_eq_some_iff] at h
    have ⟨r, hf, rest, hrest, _⟩ := h
    refine ⟨(foldStmt_isSome ..).mp (Option.isSome_of_mem hf), ?_⟩
    rw [foldedStmt, hf]
    exact hi hrest

-- The condition under which the statement is folded to the value it has: the operands of a folded
-- `BinOp` are values on which both arithmetics agree.
def StepExact (consts : Consts) (stmt : Stmt) (s : State) : Prop :=
  match stmt.result, stmt.op with
  | some _, .binOp op lhs rhs size =>
    (consts lhs).isSome → (consts rhs).isSome → FoldExact op (s.env.vals lhs) (s.env.vals rhs) size
  | _, _ => True

instance StepExact.decidable (consts : Consts) (stmt : Stmt) (s : State) :
    Decidable (StepExact consts stmt s) := by
  unfold StepExact
  split <;> infer_instance

-- Every step of the run of `stmts` is folded exactly.
def FoldsExactly (stmts : List Stmt) (regs : GuestRegs) : Prop :=
  Along step (fun consts stmt _ => (foldedStmt consts stmt).1) StepExact noConsts stmts
    (.entry regs)

-- What folding does to a statement with a result: nothing, or it becomes the constant it computes.
-- The interpreter has no value for the counting operations that are folded as well.
theorem foldedStmt_cases {consts : Consts} {s : State} (hs : consts.Sound defined s.env)
    (he : StepExact consts stmt s) (hd : stmt.result = some d) :
    foldedStmt consts stmt = (consts, stmt) ∨
    ∃ value size,
      foldedStmt consts stmt =
        (Function.update consts d (some value), { stmt with op := .constant value size }) ∧
      ((evalOp stmt.op true s.env s.cpu = .next (s.cpu, .scalar value) ∧ mask value size = value) ∨
        ∃ what, evalOp stmt.op true s.env s.cpu = .halt (.unsupported what, s.cpu.regs)) := by
  have ⟨result, op⟩ := stmt
  simp only at hd
  subst hd
  cases op
  case constant value size =>
    exact .inr ⟨_, _, rfl, .inl ⟨by simp [evalOp, mask_eq_and], by simp [← mask_eq_and]⟩⟩
  case binOp op lhs rhs size =>
    simp only [foldedStmt, foldStmt]
    split
    case h_1 a b ha hb =>
      rw [evalBinop]
      split
      case isTrue => exact .inl rfl
      case isFalse =>
      refine .inr ⟨_, _, rfl, ?_⟩
      have ⟨_, ha'⟩ := hs _ _ ha
      have ⟨_, hb'⟩ := hs _ _ hb
      simp only [StepExact, ha, hb, Option.isSome_some, forall_const] at he
      simp only [evalOp]
      cases hr : Prisma.evalBinop op (s.env.vals lhs) (s.env.vals rhs) size
      case none => exact .inr ⟨_, rfl⟩
      case some r =>
        rw [← fold_iff hr, ha', hb'] at he
        exact .inl ⟨by simp [he], by simp [← mask_eq_and]⟩
    case h_2 => exact .inl rfl
  case extend value fromSize toSize isSigned =>
    simp only [foldedStmt, foldStmt]
    split
    case h_1 v hv =>
      have ⟨_, hv'⟩ := hs _ _ hv
      cases isSigned
      case true => exact .inr ⟨_, _, rfl, .inl ⟨by simp [evalOp, signExtend_eq, hv'], by simp [signExtend_eq]⟩⟩
      case false => exact .inr ⟨_, _, rfl, .inl ⟨by simp [evalOp, ← mask_eq_and, hv'], by simp [← mask_eq_and]⟩⟩
    case h_2 => exact .inl rfl
  case truncate value toSize =>
    simp only [foldedStmt, foldStmt]
    split
    case h_1 v hv =>
      have ⟨_, hv'⟩ := hs _ _ hv
      exact .inr ⟨_, _, rfl, .inl ⟨by simp [evalOp, mask_eq_and, hv'], by simp [← mask_eq_and]⟩⟩
    case h_2 => exact .inl rfl
  case popcnt | lzcnt | tzcnt =>
    simp only [foldedStmt, foldStmt]
    split
    case h_1 => exact .inr ⟨_, _, rfl, .inr ⟨_, rfl⟩⟩
    case h_2 => exact .inl rfl
  all_goals exact .inl rfl

-- The relation that constant propagation keeps: source and target are in the same state, the table
-- of constants is right about it, and what is still to run is in SSA form and folded exactly.
structure Related (consts : Consts) (stmts : List Stmt) (s t : State) : Prop where
  eq : s = t
  ssa : ∃ defined, SsaFrom defined stmts ∧ consts.Sound defined s.env
  exact : Along step (fun consts stmt _ => (foldedStmt consts stmt).1) StepExact consts stmts s

theorem Related.step (h : Related consts (stmt :: stmts) s t) :
    Matches Prisma.step (·.1.supported) (Related (foldedStmt consts stmt).1 stmts)
      (some (foldedStmt consts stmt).2) t (Prisma.step stmt s) := by
  have ⟨defined, hs, hc⟩ := h.ssa
  obtain rfl := h.eq
  have hsame (hf : foldedStmt consts stmt = (consts, stmt)) :
      Matches Prisma.step (·.1.supported) (Related (foldedStmt consts stmt).1 stmts)
        (some (foldedStmt consts stmt).2) s (Prisma.step stmt s) := by
    have he : ∀ s', Prisma.step stmt s = .next s' → _ := fun s' hn => h.exact.tail hn
    simp only [hf] at he ⊢
    exact .refl fun s' hn => ⟨rfl, ⟨_, hs.tail, hc.step hs hn⟩, he s' hn⟩
  cases hr : stmt.result
  case none => exact hsame (by simp [foldedStmt, foldStmt, hr])
  case some d =>
    obtain hf | ⟨value, size, hf, ⟨hv, hm⟩ | ⟨what, hu⟩⟩ := foldedStmt_cases hc h.exact.head hr
    case inl => exact hsame hf
    case inr.inl =>
      have hn : Prisma.step stmt s =
          .next { env := s.env.define stmt.result (.scalar value), cpu := s.cpu } :=
        step_of_evalOp_next (by rw [hr]; exact hv)
      have hd : d ∈ stmt.defs ++ defined := List.mem_append_left _ (Stmt.mem_defs_of_result hr)
      have he := h.exact.tail hn
      rw [hf] at he ⊢
      rw [hn]
      refine ⟨_, ?_, rfl, ⟨_, hs.tail, (hc.step hs hn).update hd ?_⟩, he⟩
      case refine_1 =>
        rw [Option.toList_some, exec_singleton]
        exact step_of_evalOp_next (by simp [evalOp, hm])
      case refine_2 => simp [hr]
    case inr.inr =>
      rw [step_of_evalOp_halt (by rw [hr]; exact hu)]
      intro hg
      contradiction

def storeBinop (op : BinOpKind) (a b : U64) (size : OpSize) : List Stmt :=
  [⟨some 0, .constant a .i64⟩, ⟨some 1, .constant b .i64⟩, ⟨some 2, .binOp op 0 1 size⟩,
    ⟨none, .storeReg .rax 2 .i64⟩]

theorem interpretBlock_storeBinop (h : Prisma.evalBinop op a b size = some r) :
    interpretBlock (storeBinop op a b size) regs =
      some (.fallthrough, storeReg regs .rax r .i64) := by
  simp [interpretBlock, run, storeBinop, Prisma.step, evalOp, Env.define, State.entry, Cpu.entry,
    State.fallthrough, Step.outcome, h]

theorem constantPropagate_single : constantPropagate (.single stmts) =
    (foldStmts noConsts stmts).map Function.single := by
  cases h : foldStmts noConsts stmts <;> simp [constantPropagate, Function.single, h]

-- In every run whose steps are folded exactly, the block keeps its outcome and final registers.
theorem constantPropagate_preserves {stmts : List Stmt} {regs : GuestRegs}
    {o : BlockOutcome × GuestRegs} (hs : Ssa stmts) (ho : interpretBlock stmts regs = some o)
    (hg : o.1.supported) (hp : ProductsFit noConsts stmts) (he : FoldsExactly stmts regs) :
    ∃ func, constantPropagate (.single stmts) = some func ∧
      interpretBlock func.stmts regs = some o := by
  refine ⟨_, by rw [constantPropagate_single, foldStmts_eq hp]; rfl, ?_⟩
  rw [show (Function.single _).stmts = _ from List.flatMap_singleton ..]
  refine run_rewrite (G := (·.1.supported)) (R := Related) ?nil ?cons
    ⟨rfl, ⟨_, hs, .noConsts⟩, he⟩ ho hg
  case nil =>
    intro consts s t h
    rw [h.eq]
  case cons =>
    intro consts stmt stmts s t h
    exact h.step

-- The conditions cannot be weakened: the pass panics on every other block, and storing the result
-- of an operation on two constants shows each pair of operand values that violates the second one.
theorem constantPropagate_isSome_iff :
    (constantPropagate (.single stmts)).isSome ↔ ProductsFit noConsts stmts := by
  rw [constantPropagate_single, Option.isSome_map]
  constructor
  case mp =>
    intro h
    have ⟨_, hf⟩ := Option.isSome_iff_exists.mp h
    exact productsFit_of_foldStmts hf
  case mpr => exact fun h => by rw [foldStmts_eq h]; rfl

theorem storeBinop_preserved_iff {func : Function} (h : (Prisma.evalBinop op a b size).isSome)
    (hf : constantPropagate (.single (storeBinop op a b size)) = some func) :
    interpretBlock func.stmts regs = interpretBlock (storeBinop op a b size) regs ↔
      FoldExact op a b size := by
  have ⟨r, hr⟩ := Option.isSome_iff_exists.mp h
  have hall : constantPropagate (.single (storeBinop op a b size)) =
      (evalBinop op a b).map fun v => .single
        [⟨some 0, .constant a .i64⟩, ⟨some 1, .constant b .i64⟩,
        ⟨some 2, .constant (v &&& size.mask) size⟩, ⟨none, .storeReg .rax 2 .i64⟩] := by
    rw [constantPropagate_single]
    cases hv : evalBinop op a b <;> simp [storeBinop, foldStmts, foldStmt, ← mask_eq_and, hv]
  rw [hall] at hf
  obtain ⟨v, hv, rfl⟩ := Option.map_eq_some_iff.mp hf
  obtain ⟨_, hv⟩ := Option.ite_none_left_eq_some.mp hv
  cases hv
  rw [interpretBlock_storeBinop hr, ← fold_iff hr]
  simp [interpretBlock, run, Prisma.step, evalOp, Env.define, State.entry, Cpu.entry,
    State.fallthrough, Step.outcome, ← mask_eq_and, Function.single, Function.stmts, storeReg_inj]

-- Rotating a byte by one is exact if its top bit is clear.
theorem constantPropagate_preserves_rol :
    ProductsFit noConsts (storeBinop .rol 0x41 1 .i8) ∧
    FoldsExactly (storeBinop .rol 0x41 1 .i8) .default ∧
    ∃ func, constantPropagate (.single (storeBinop .rol 0x41 1 .i8)) = some func ∧
      (interpretBlock func.stmts .default).map (·.2.gpr .rax) = some 0x82 := by
  have h : FoldsExactly (storeBinop .rol 0x41 1 .i8) .default := by
    unfold FoldsExactly
    decide
  have hp : ProductsFit noConsts (storeBinop .rol 0x41 1 .i8) := by decide
  have ⟨func, hf, ho⟩ :=
    constantPropagate_preserves (by decide) (interpretBlock_storeBinop rfl) rfl hp h
  exact ⟨hp, h, func, hf, by rw [ho]; decide⟩

-- A rotate of the byte 0x81 carries the top bit around, the folder loses it.
theorem constantPropagate_not_preserves :
    Ssa (storeBinop .rol 0x81 1 .i8) ∧
    ((interpretBlock (storeBinop .rol 0x81 1 .i8) .default).map
      fun o => (o.1, o.2.gpr .rax)) = some (.fallthrough, 0x03) ∧
    ((constantPropagate (.single (storeBinop .rol 0x81 1 .i8))).bind fun func =>
      (interpretBlock func.stmts .default).map fun o => (o.1, o.2.gpr .rax)) =
      some (.fallthrough, 0x02) := by
  decide

end Prisma.ConstProp
