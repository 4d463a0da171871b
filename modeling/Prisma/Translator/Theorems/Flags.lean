import Prisma.Lib.Lockstep
import Prisma.Interp.Theorems.Block

-- Statements that make the same of different flags.

namespace Prisma.Translator

open Machine

-- What an operation computes from the flags is the same in two machine states.
def ConsultsAlike (stmt : Stmt) (env : Env) (live alone : Cpu) : Prop :=
  match stmt.op with
  | .select cc trueValue falseValue size =>
    evalCc cc live.restoreFlags.flags = evalCc cc alone.restoreFlags.flags ∨
      mask (env.vals trueValue) size = mask (env.vals falseValue) size
  | .condJumpRel cc targetGuestPc fallthroughGuestPc =>
    evalCc cc live.restoreFlags.flags = evalCc cc alone.restoreFlags.flags ∨
      targetGuestPc = fallthroughGuestPc
  | .readCarryOut .. => live.flags.c = alone.flags.c
  | .storeRflagsFromNzcv carry _ _ =>
    (live.flags.n = alone.flags.n ∧ live.flags.z = alone.flags.z ∧ live.flags.v = alone.flags.v) ∧
      (carry = .preserve ∨ carry = .clear ∨ live.flags.c = alone.flags.c)
  | .compare .. => stmt.result.isSome ∨ live.flags = alone.flags
  | _ => True

instance (stmt : Stmt) (env : Env) (live alone : Cpu) :
    Decidable (ConsultsAlike stmt env live alone) := by
  apply stmt.casesOn (motive := (Decidable <| ConsultsAlike · env live alone))
  intro result op
  apply op.casesOn (motive := (Decidable <| ConsultsAlike ⟨result, ·⟩ env live alone)) <;>
    intros <;> dsimp only [ConsultsAlike] <;> infer_instance

-- The registers are the same. The flags may differ as long as `alone` would restore its own.
structure Tracks (live alone : Cpu) : Prop where
  regs : live.regs = alone.regs
  flags : alone.nzcvLive → live = alone

theorem Tracks.of_not_live {live alone : Cpu} (h : live.regs = alone.regs)
    (hl : alone.nzcvLive = false) : Tracks live alone :=
  ⟨h, fun h' => by simp [hl] at h'⟩

theorem Cpu.restoreFlags_regs (cpu : Cpu) : cpu.restoreFlags.regs = cpu.regs := by
  cases h : cpu.nzcvLive <;> simp [Cpu.restoreFlags, h]

theorem Cpu.restoreFlags_nzcvLive (cpu : Cpu) : cpu.restoreFlags.nzcvLive = cpu.nzcvLive := by
  cases h : cpu.nzcvLive <;> simp [Cpu.restoreFlags, h]

theorem storeRflagsFromFlags_alike {f g : Flags} (h : f.n = g.n ∧ f.z = g.z ∧ f.v = g.v)
    (hc : carry = .preserve ∨ carry = .clear ∨ f.c = g.c) :
    storeRflagsFromFlags regs f carry pf af = storeRflagsFromFlags regs g carry pf af := by
  have ⟨hn, hz, hv⟩ := h
  cases carry
  case preserve | clear => simp only [storeRflagsFromFlags, hn, hz, hv]
  case armCarry | invertArmCarry =>
    have hc : f.c = g.c := by simpa using hc
    simp only [storeRflagsFromFlags, hn, hz, hv, hc]

theorem Tracks.evalOp (h : Tracks live alone) (hc : ConsultsAlike stmt env live alone) :
    Step.Rel (fun r r' => r.2 = r'.2 ∧ Tracks r.1 r'.1)
      (evalOp stmt.op stmt.result.isSome env live) (evalOp stmt.op stmt.result.isSome env alone) := by
  cases hl : alone.nzcvLive
  case true =>
    rw [h.flags hl]
    exact (Step.Rel.of_eq rfl).mono fun r r' he => he ▸ ⟨rfl, rfl, fun _ => rfl⟩
  case false =>
    have hr := h.regs
    obtain ⟨regs, flags, nzcvLive⟩ := live
    obtain ⟨_, flags', _⟩ := alone
    subst hr hl
    obtain ⟨result, op⟩ := stmt
    cases op
    all_goals first
      | exact .halt _
      | exact .next ⟨rfl, .of_not_live rfl rfl⟩
      | exact .next ⟨rfl, rfl, fun _ => rfl⟩
      | skip
    case binOp | wideDiv | vecF16Cvt | trapIf | loadVecReg | storeVecReg =>
      simp only [Prisma.evalOp]
      repeat' split
      all_goals first | exact .halt _ | exact .panic | exact .next ⟨rfl, .of_not_live rfl rfl⟩
    case aluFlags | aluFlagsPreserveCarry | writeFlags =>
      simp only [Prisma.evalOp]
      repeat' split
      all_goals first | exact .halt _ | exact .next ⟨rfl, rfl, fun _ => rfl⟩
    case compare =>
      simp only [Prisma.evalOp]
      split
      case isTrue => exact .next ⟨rfl, rfl, fun _ => rfl⟩
      case isFalse hr =>
        have hf : flags = flags' := hc.resolve_left hr
        exact .next ⟨rfl, rfl, fun _ => by rw [hf]; rfl⟩
    case select cc trueValue falseValue size =>
      have hm : ∀ b c : Bool, b = c ∨ mask (env.vals trueValue) size = mask (env.vals falseValue) size →
          mask (if b then env.vals trueValue else env.vals falseValue) size =
            mask (if c then env.vals trueValue else env.vals falseValue) size := by
        intro b c h
        cases b <;> cases c <;> simp_all
      refine .next ⟨congrArg Value.scalar (hm _ _ hc), .of_not_live ?_ ?_⟩
      case refine_1 => rw [Cpu.restoreFlags_regs, Cpu.restoreFlags_regs]
      case refine_2 => rw [Cpu.restoreFlags_nzcvLive]
    case condJumpRel cc target fallthrough =>
      have ht : ∀ b c : Bool, b = c ∨ target = fallthrough →
          (if b then target else fallthrough) = if c then target else fallthrough := by
        intro b c h
        cases b <;> cases c <;> simp_all
      simp only [Prisma.evalOp, ht _ _ hc]
      exact .halt _
    case readCarryOut flagsRef fromSub =>
      have hc : flags.c = flags'.c := hc
      simp only [Prisma.evalOp, hc]
      exact .next ⟨rfl, .of_not_live rfl rfl⟩
    case storeRflagsFromNzcv carry pf af =>
      refine .next ⟨rfl, .of_not_live ?_ rfl⟩
      exact storeRflagsFromFlags_alike hc.left hc.right

theorem Tracks.step {s t : State} (henv : s.env = t.env) (h : Tracks s.cpu t.cpu)
    (hc : ConsultsAlike stmt s.env s.cpu t.cpu) :
    Step.Rel (fun s t => s.env = t.env ∧ Tracks s.cpu t.cpu) (step stmt s) (step stmt t) := by
  have he := h.evalOp hc
  simp only [Prisma.step, ← henv]
  refine he.bind fun r r' h => .next ⟨?_, h.2⟩
  rw [h.1]

end Prisma.Translator
