import Prisma.Lib.Run
import Prisma.Interp.Block

-- The carry is kept twice, in a field of its own and as bit 0 of RFLAGS.

namespace Prisma

open Machine Rflags BitVec

structure GuestRegs.CarryInSync (regs : GuestRegs) : Prop where
  isBit : regs.cf = 0 ∨ regs.cf = 1
  eq : regs.cf = regs.rflags &&& 1

namespace GuestRegs.CarryInSync

variable {regs : GuestRegs} {value : U64} {pf af : Option U64}

theorem and_one_isBit (v : U64) : v &&& 1 = 0 ∨ v &&& 1 = 1 := by
  have hv : v &&& 1 = _ := and_one_eq_setWidth_ofBool_getLsbD
  rw [hv]
  cases v.getLsbD 0
  case false => exact .inl rfl
  case true => exact .inr rfl

theorem of_eq (h : regs.cf = regs.rflags &&& 1) : regs.CarryInSync :=
  ⟨h ▸ and_one_isBit _, h⟩

theorem or_and_one (v w : U64) : (v ||| w) &&& 1 = v &&& 1 ||| w &&& 1 := by
  rw [BitVec.and_comm, BitVec.and_or_distrib_left, BitVec.and_comm 1, BitVec.and_comm 1]

theorem setIf_and_one {b : U64} (hb : b &&& 1 = 0) : setIf c b v &&& 1 = v &&& 1 := by
  cases c
  case false => rfl
  case true =>
    rw [setIf, if_pos rfl, or_and_one, hb]
    exact or_zero

theorem replace_and_one (v w : U64) : (v &&& ~~~1 ||| w &&& 1) &&& 1 = w &&& 1 := by
  rw [or_and_one, BitVec.and_assoc, BitVec.and_assoc, BitVec.and_self]
  have hv : v &&& (~~~1 &&& 1) = 0 := BitVec.and_zero
  rw [hv]
  exact BitVec.zero_or

theorem storeCarry : (storeCarry regs value).CarryInSync := by
  refine of_eq ?_
  show value &&& 1 = (regs.rflags &&& ~~~1 ||| 2 ||| value &&& 1) &&& 1
  rw [BitVec.or_assoc, BitVec.or_comm 2, ← BitVec.or_assoc]
  exact ((setIf_and_one (c := true) rfl).trans (replace_and_one _ _)).symm

theorem storeRflagsFromBits (h : regs.CarryInSync) :
    (storeRflagsFromBits regs pf af z n v).CarryInSync := by
  refine of_eq ?_
  unfold Prisma.storeRflagsFromBits
  simp only [setIf_and_one (b := Rflags.pf) rfl, setIf_and_one (b := Rflags.af) rfl,
    setIf_and_one (b := Rflags.zf) rfl, setIf_and_one (b := Rflags.sf) rfl,
    setIf_and_one (b := Rflags.of) rfl]
  refine Eq.trans ?_ (replace_and_one _ _).symm
  rw [h.eq, BitVec.and_assoc, BitVec.and_self]

end GuestRegs.CarryInSync

open GuestRegs (CarryInSync)

theorem evalOp_carryInSync {op : Op} {hasResult : Bool} {env : Env} {cpu : Cpu}
    (h : cpu.regs.CarryInSync) :
    (evalOp op hasResult env cpu).All (·.1.regs.CarryInSync) (·.2.CarryInSync) := by
  cases op
  case storeCarry => exact CarryInSync.storeCarry
  case storeRflags => exact .of_eq rfl
  case storeRflagsFromNzcv => exact .of_eq rfl
  case storeRflagsFromBits => exact h.storeRflagsFromBits
  case storeReg => exact ⟨h.isBit, h.eq⟩
  case select =>
    simp only [evalOp, Cpu.restoreFlags]
    split <;> exact h
  case binOp | wideDiv | vecF16Cvt | trapIf | loadVecReg | storeVecReg | aluFlags | writeFlags |
      aluFlagsPreserveCarry | compare =>
    simp only [evalOp]
    repeat' split
    all_goals first | exact h | exact ⟨h.isBit, h.eq⟩ | trivial
  all_goals exact h

-- Whatever the outcome of a block is, it leaves the two in sync.
theorem interpretBlock_carryInSync {stmts : List Stmt} {regs : GuestRegs}
    {o : BlockOutcome × GuestRegs} (h : regs.CarryInSync)
    (ho : interpretBlock stmts regs = some o) : o.2.CarryInSync := by
  refine run_all (I := fun s : State => s.cpu.regs.CarryInSync) (Q := (·.2.CarryInSync))
    (fun stmt s h => ?_) (fun _ h => h) h ho
  exact (evalOp_carryInSync h).bind fun _ h => h

def setsCarry : List Stmt :=
  [⟨some 0, .constant 1 .i64⟩, ⟨none, .storeCarry 0⟩, ⟨none, .syscall⟩]

theorem interpretBlock_carryInSync_setsCarry :
    ∃ o, interpretBlock setsCarry .default = some o ∧ o.2.cf = 1 ∧ o.2.CarryInSync :=
  ⟨_, rfl, rfl, @interpretBlock_carryInSync setsCarry .default _ (.of_eq rfl) rfl⟩

end Prisma
