import Prisma.Interp.Memory
import Prisma.Interp.Theorems.Mask
import Prisma.Interp.Theorems.Block

namespace Prisma

open Machine ByteMemory

theorem OpSize.bytes_eq (size : OpSize) : 8 * size.bytes = size.bitWidth := by
  cases size <;> rfl

theorem OpSize.bytes_pos (size : OpSize) : 0 < size.bytes := by
  cases size <;> decide

theorem OpSize.bytes_le (size : OpSize) : 8 * size.bytes ≤ 64 := by
  rw [size.bytes_eq]
  exact size.bitWidth_le

@[simp]
theorem mask_loadScalar (mem : Memory) (addr : U64) (size : OpSize) :
    mask (loadScalar mem addr size) size = loadScalar mem addr size := by
  apply BitVec.eq_of_getLsbD_eq
  intro i _
  rw [getLsbD_mask]
  by_cases h : i < size.bitWidth
  case pos => simp [h]
  case neg =>
    have hl : (loadScalar mem addr size).getLsbD i = false :=
      getLsbD_load_of_le (by rw [size.bytes_eq]; omega)
    simp [hl]

theorem loadScalar_storeVector_of_apart {size : OpSize} (h : Apart a size.bytes addr 16) :
    loadScalar (storeVector mem addr value) a size = loadScalar mem a size := by
  rw [loadScalar, storeVector, load_store_of_apart h, loadScalar]

-- The operations that the extension by memory adds.
def Op.accessesMemory : Op → Bool
  | .loadMem .. | .loadMemTSO .. | .loadVec .. | .vecGather .. | .storeMem .. | .storeMemTSO ..
  | .storeVec .. | .atomicCmpxchg .. | .atomicCmpxchgPair .. | .fence .. | .repStos ..
  | .repMovs .. => true
  | _ => false

-- Those among them that can change memory and let the block go on.
def Op.writesMemory : Op → Bool
  | .storeMem .. | .storeMemTSO .. | .storeVec .. | .atomicCmpxchg .. | .atomicCmpxchgPair .. => true
  | _ => false

section Step

variable {sem : OpSemantics} {stmt : Stmt} {s s' : MemState}

theorem memStep_of_not_accessesMemory (h : stmt.op.accessesMemory = false) :
    memStep sem stmt s =
      match sem.evalOp stmt.op stmt.result.isSome s.env s.cpu with
      | .next (cpu, value) => .next ({ s with cpu }.define stmt.result value)
      | .halt (outcome, regs) => .halt { outcome, regs, mem := s.mem }
      | .panic => .panic := by
  have ⟨result, op⟩ := stmt
  cases op
  all_goals first
    | rfl
    | cases h

theorem loaded_of_not_accessesMemory {op : Op} (h : op.accessesMemory = false) : loaded op s = [] := by
  cases op
  all_goals first
    | rfl
    | cases h

section Execute

variable (sem : OpSemantics) (result : Option Ref) (addr value : Ref) (size : OpSize) (s : MemState)

@[simp]
theorem memStep_loadMem : memStep sem ⟨result, .loadMem addr size⟩ s =
    .next (s.define result (.scalar (loadScalar s.mem (s.env.vals addr) size))) :=
  rfl

@[simp]
theorem memStep_loadVec : memStep sem ⟨result, .loadVec addr⟩ s =
    .next (s.define result (.vector (loadVector s.mem (s.env.vals addr)))) :=
  rfl

@[simp]
theorem memStep_storeMem : memStep sem ⟨result, .storeMem addr value size⟩ s =
    .next { s with mem := storeScalar s.mem (s.env.vals addr) (s.env.vals value) size } :=
  rfl

@[simp]
theorem memStep_storeVec : memStep sem ⟨result, .storeVec addr value⟩ s =
    .next { s with mem := storeVector s.mem (s.env.vals addr) (s.env.vecVals value) } :=
  rfl

@[simp]
theorem memStep_constant (v : U64) : memStep .interp ⟨result, .constant v size⟩ s =
    .next (s.define result (.scalar (mask v size))) :=
  rfl

@[simp]
theorem memStep_vecConstant (lo hi : U64) : memStep .interp ⟨result, .vecConstant lo hi⟩ s =
    .next (s.define result (.vector (hi ++ lo))) :=
  rfl

@[simp]
theorem memStep_storeReg (reg : Gpr) : memStep .interp ⟨result, .storeReg reg value size⟩ s =
    .next ({ s with cpu := { s.cpu with regs := storeReg s.cpu.regs reg (s.env.vals value) size } }) :=
  by cases result <;> rfl

@[simp]
theorem memStep_trapIf (condition : Ref) (kind : TrapKind) :
    memStep .interp ⟨none, .trapIf condition kind⟩ s =
      if s.env.vals condition ≠ 0 then .halt ⟨.trap kind, s.cpu.regs, s.mem⟩ else .next s := by
  rw [memStep_of_not_accessesMemory rfl]
  simp only [OpSemantics.interp, evalOp]
  by_cases h : s.env.vals condition ≠ 0
  case pos => simp only [if_pos h]
  case neg =>
    simp only [if_neg h]
    rfl

end Execute

-- What a step changes: the refs that the statement defines, and memory if the operation writes it.
structure Frame (stmt : Stmt) (s s' : MemState) : Prop where
  vals : ∀ r ∉ stmt.defs, s'.env.vals r = s.env.vals r
  vecVals : ∀ r ∉ stmt.defs, s'.env.vecVals r = s.env.vecVals r
  mem : stmt.op.writesMemory = false → s'.mem = s.mem

theorem Frame.define {cpu : Cpu} {value : Value} {mem : Memory}
    (h : stmt.op.writesMemory = false → mem = s.mem) :
    Frame stmt s ({ s with cpu, mem }.define stmt.result value) where
  vals _ hr := Env.define_vals_of_ne fun he => hr (Stmt.mem_defs_of_result he)
  vecVals _ hr := Env.define_vecVals_of_ne fun he => hr (Stmt.mem_defs_of_result he)
  mem := h

theorem memStep_frame (h : memStep sem stmt s = .next s') : Frame stmt s s' := by
  cases ha : stmt.op.accessesMemory
  case false =>
    rw [memStep_of_not_accessesMemory ha] at h
    cases he : sem.evalOp stmt.op stmt.result.isSome s.env s.cpu
    case next r =>
      simp only [he, Step.next.injEq] at h
      exact h ▸ .define fun _ => rfl
    all_goals simp [he] at h
  case true =>
    have ⟨result, op⟩ := stmt
    cases op
    case loadMem | loadMemTSO | loadVec | vecGather =>
      cases h
      exact .define fun _ => rfl
    case storeMem | storeMemTSO | storeVec =>
      cases h
      exact ⟨fun _ _ => rfl, fun _ _ => rfl, nofun⟩
    case atomicCmpxchg =>
      cases h
      exact .define nofun
    case atomicCmpxchgPair =>
      cases h
      refine ⟨fun r hr => ?_, fun r hr => ?_, nofun⟩
      all_goals simp only [Stmt.defs, Op.secondResult, Option.toList_some, List.mem_append,
        List.mem_singleton, Option.mem_toList, not_or] at hr
      case refine_1 =>
        simp only [MemState.define]
        rw [Env.define_vals_of_ne (fun he => hr.right (Option.some.inj he).symm),
          Env.define_vals_of_ne hr.left]
      case refine_2 =>
        simp only [MemState.define]
        rw [Env.define_vecVals_of_ne (fun he => hr.right (Option.some.inj he).symm),
          Env.define_vecVals_of_ne hr.left]
    case fence =>
      cases h
      exact ⟨fun _ _ => rfl, fun _ _ => rfl, fun _ => rfl⟩
    case repStos | repMovs => cases h
    all_goals cases ha

end Step

end Prisma
