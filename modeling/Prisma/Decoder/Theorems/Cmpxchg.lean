import Prisma.X86.Atomic
import Prisma.Interp.Theorems.Memory
import Prisma.Decoder.Theorems.Alu
import Prisma.Decoder.Theorems.Address

-- CMPXCHG16B, with a meaning for the operation on memory.

namespace Prisma.Decoder

open Emission Machine X86 List BitVec Option

section Memory

theorem memStep_of_step (h : step stmt s = .next s') (mem : Memory) :
    memStep .interp stmt ⟨s.env, s.cpu, mem⟩ = .next ⟨s'.env, s'.cpu, mem⟩ := by
  have ha : stmt.op.accessesMemory = false := by
    obtain ⟨result, op⟩ := stmt
    cases op
    all_goals first
      | rfl
      | cases h
  rw [memStep_of_not_accessesMemory ha]
  change Step.bind (evalOp _ _ _ _) _ = _ at h
  dsimp only [OpSemantics.interp]
  cases he : evalOp stmt.op stmt.result.isSome s.env s.cpu with
  | next r => rw [he] at h; cases h; rfl
  | halt o => rw [he] at h; cases h
  | panic => rw [he] at h; cases h

theorem exec_memStep_of_exec (mem : Memory) (h : exec step stmts s = .next s') :
    exec (memStep .interp) stmts ⟨s.env, s.cpu, mem⟩ = .next ⟨s'.env, s'.cpu, mem⟩ := by
  induction stmts generalizing s with
  | nil => cases h; rfl
  | cons stmt stmts ih =>
    rw [exec_cons] at h ⊢
    cases hs : step stmt s with
    | next s₁ => rw [hs] at h; rw [memStep_of_step hs mem]; exact ih h
    | halt o => rw [hs] at h; cases h
    | panic => rw [hs] at h; cases h

-- The values of refs below `n`, in a state with memory.
abbrev MemKnows (Γ : Facts) (n : Nat) (s : MemState) : Prop :=
  Knows Γ n ⟨s.env, s.cpu⟩

-- As `Evaluates`, for statements that may access memory.
def MemEvaluates {α : Type} (Γ : Facts) (cpu : Cpu) (mem : Memory) (m : Emit α)
    (Q : α → Facts → Cpu → Memory → Prop) : Prop :=
  ∀ n (s : MemState), MemKnows Γ n s → s.cpu = cpu → s.mem = mem →
    Runs (memStep .interp) m n s fun a n' s' => ∃ Δ, MemKnows (Δ ++ Γ) n' s' ∧ Q a Δ s'.cpu s'.mem

variable {α β : Type} {Γ : Facts} {cpu : Cpu} {mem : Memory} {m : Emit α} {f : α → Emit β}
  {Q : α → Facts → Cpu → Prop} {R : α → Facts → Cpu → Memory → Prop}
  {P : β → Facts → Cpu → Memory → Prop}

theorem Evaluates.keepsMemory (h : Evaluates Γ cpu m Q) :
    MemEvaluates Γ cpu mem m fun a Δ cpu' mem' => Q a Δ cpu' ∧ mem' = mem := by
  intro n s hk hc hm stmts hn
  have ⟨a, new, s', hr, he, Δ, hk', hq⟩ := h n ⟨s.env, s.cpu⟩ hk hc stmts hn
  exact ⟨a, new, ⟨s'.env, s'.cpu, s.mem⟩, hr, exec_memStep_of_exec s.mem he, Δ, hk', hq, hm⟩

namespace MemEvaluates

theorem pure (hΔ : Δ ⊆ Γ) (h : R a Δ cpu mem) : MemEvaluates Γ cpu mem (Pure.pure a) R :=
  fun _ _ hk hc hm =>
    .pure ⟨Δ, hk.mono (append_subset.mpr ⟨hΔ, List.Subset.refl _⟩), hc ▸ hm ▸ h⟩

theorem bind (hm : MemEvaluates Γ cpu mem m R)
    (hf : ∀ a Δ cpu' mem', R a Δ cpu' mem' → MemEvaluates (Δ ++ Γ) cpu' mem' (f a) P) :
    MemEvaluates Γ cpu mem (m >>= f) P := by
  intro n s hk hc hmem
  refine .bind ((hm n s hk hc hmem).mono fun a n' s' ⟨Δ, hk', hr⟩ => ?_)
  refine (hf a Δ s'.cpu s'.mem hr n' s' hk' rfl rfl).mono fun b n'' s'' ⟨Θ, hk'', hp⟩ => ?_
  refine ⟨Θ, hk''.mono ?_, hp⟩
  exact append_subset.mpr ⟨subset_append_left .., fun p hp => by simp [hp]⟩

theorem bind_lift {e : Parse α} {a : α} (he : e = .ok a) (h : MemEvaluates Γ cpu mem (f a) P) :
    MemEvaluates Γ cpu mem (liftM e >>= f) P :=
  fun n s hk hc hm => .bind_lift he (h n s hk hc hm)

theorem mono (h : MemEvaluates Γ cpu mem m R) {R' : α → Facts → Cpu → Memory → Prop}
    (hR : ∀ a Δ cpu mem, R a Δ cpu mem → R' a Δ cpu mem) : MemEvaluates Γ cpu mem m R' :=
  fun n s hk hc hm => (h n s hk hc hm).mono fun _ _ _ ⟨Δ, hk', hr⟩ => ⟨Δ, hk', hR _ _ _ _ hr⟩

theorem instruction {R : Nat → Facts → Cpu → Memory → Prop}
    (hi : instructionAt bytes offset = some insn)
    (h : MemEvaluates [] (.entry regs) mem (decodeInstruction insn bytes offset pc) R) :
    ∃ d consumed Δ cpu mem', decodeOneAt bytes offset pc = .ok d ∧
      d.bytesConsumed = insn.cursor - offset + consumed ∧
      interpretMem .interp d.stmts regs mem = some ⟨.fallthrough, cpu.regs, mem'⟩ ∧
      R consumed Δ cpu mem' := by
  have ⟨consumed, stmts, s, hm, he, Δ, _, hr⟩ := h 0 (.entry regs mem) .nil rfl rfl [] rfl
  refine ⟨_, consumed, Δ, s.cpu, s.mem, decodeOneAt_of_instructionAt hi hm, rfl, ?_, hr⟩
  rw [interpretMem, run, nil_append, he]
  rfl

end MemEvaluates

theorem Evaluates.bind_mem (hm : Evaluates Γ cpu m Q)
    (hf : ∀ a Δ cpu', Q a Δ cpu' → MemEvaluates (Δ ++ Γ) cpu' mem (f a) P) :
    MemEvaluates Γ cpu mem (m >>= f) P :=
  hm.keepsMemory.bind fun a Δ cpu' _ ⟨hq, hm⟩ => hm ▸ hf a Δ cpu' hq

theorem Computes.bind_mem {m : Emit Ref} {f : Ref → Emit β} {v : Value} (hm : Computes Γ cpu m v)
    (hf : ∀ r, MemEvaluates ((r, v) :: Γ) cpu mem (f r) P) : MemEvaluates Γ cpu mem (m >>= f) P :=
  Evaluates.bind_mem hm fun r _ _ ⟨hΔ, hc⟩ => by subst hΔ hc; exact hf r

end Memory

section Pair

variable {β : Type} {Γ : Facts} {cpu : Cpu} {mem : Memory} {addr rax rdx rbx rcx : Ref}
  {a expectedLow expectedHigh newLow newHigh : U64} {P : β → Facts → Cpu → Memory → Prop}

-- The memory behind the exchange.
def exchanged (mem : Memory) (addr : U64) (expected new : Halves) : Memory :=
  if halvesAt mem addr = expected then storeHalves mem addr new else mem

-- Both halves of the old value have the same ref, which holds the high one in the end.
theorem atomicCmpxchgPair_evaluates {f : Ref → Ref → Emit β} (ha : Lookup Γ addr (.scalar a))
    (hrax : Lookup Γ rax (.scalar expectedLow)) (hrdx : Lookup Γ rdx (.scalar expectedHigh))
    (hrbx : Lookup Γ rbx (.scalar newLow)) (hrcx : Lookup Γ rcx (.scalar newHigh))
    (hf : ∀ r, MemEvaluates ((r, .scalar (halvesAt mem a).high) :: Γ) cpu
      (exchanged mem a ⟨expectedLow, expectedHigh⟩ ⟨newLow, newHigh⟩) (f r r) P) :
    MemEvaluates Γ cpu mem (do
      let oldLow ← allocRef
      let oldHigh ← allocRef
      push (some oldLow) (.atomicCmpxchgPair addr rax rdx rbx rcx oldHigh)
      f oldLow oldHigh) P := by
  intro n s hk hc hm
  have hrun : (do
      let oldLow ← allocRef
      let oldHigh ← allocRef
      push (some oldLow) (.atomicCmpxchgPair addr rax rdx rbx rcx oldHigh)
      f oldLow oldHigh : Emit β) = (do
      let r ← (do
        let n ← fresh
        Emission.push ⟨some n, .atomicCmpxchgPair addr rax rdx rbx rcx n⟩
        return n)
      f r r) := rfl
  rw [hrun]
  have hstep : memStep .interp ⟨some n, .atomicCmpxchgPair addr rax rdx rbx rcx n⟩ s =
      .next ⟨s.env.define (some n) (.scalar (halvesAt mem a).high), cpu,
        exchanged mem a ⟨expectedLow, expectedHigh⟩ ⟨newLow, newHigh⟩⟩ := by
    have hv : ∀ {r v}, Lookup Γ r (.scalar v) → s.env.vals r = v := hk.vals
    simp only [memStep, hv ha, hv hrax, hv hrdx, hv hrbx, hv hrcx, MemState.define, Env.define,
      Function.update_idem, hc, hm, exchanged, halvesAt, storeHalves, Halves.mk.injEq]
  refine .bind (.fresh_push hstep ?_)
  refine (hf n (n + 1) _ (hk.define _ rfl) rfl rfl).mono fun b n' s' h => ?_
  obtain ⟨Δ, hk', hp⟩ := h
  exact ⟨Δ, hk'.mono (append_subset.mpr
    ⟨subset_append_left .., fun p hp => by simp [hp]⟩), hp⟩

-- The flags of the comparison of RAX and RDX with the one ref that both halves of the old value have.
def pairFlags (regs : GuestRegs) (old : U64) : Flags :=
  subFlags (bit (old == regs.gpr .rax) &&& bit (old == regs.gpr .rdx)) 1 .i64

-- The registers behind the instruction.
def cmpxchg16bRegs (regs : GuestRegs) (old : U64) : GuestRegs :=
  let flags := pairFlags regs old
  let rax := if flags.z then regs.gpr .rax else old
  let rdx := if flags.z then regs.gpr .rdx else old
  storeRflagsFromFlags (storeReg (storeReg regs .rax rax .i64) .rdx rdx .i64) flags .preserve none
    none

theorem emitCmpxchg16b_evaluates (ha : Lookup Γ addr (.scalar a)) :
    MemEvaluates Γ cpu mem (emitCmpxchg16b addr) fun _ _ cpu' mem' =>
      cpu'.regs = cmpxchg16bRegs cpu.regs (halvesAt mem a).high ∧
      mem' = exchanged mem a ⟨cpu.regs.gpr .rax, cpu.regs.gpr .rdx⟩
        ⟨cpu.regs.gpr .rbx, cpu.regs.gpr .rcx⟩ := by
  refine (emitLoadAddrReg_computes .rax).bind_mem fun rax => ?_
  refine (emitLoadAddrReg_computes .rdx).bind_mem fun rdx => ?_
  refine (emitLoadAddrReg_computes .rbx).bind_mem fun rbx => ?_
  refine (emitLoadAddrReg_computes .rcx).bind_mem fun rcx => ?_
  refine atomicCmpxchgPair_evaluates (.append [_, _, _, _] ha) (.nth 3 rfl) (.nth 2 rfl)
    (.nth 1 rfl) (.nth 0 rfl) fun old => ?_
  refine Evaluates.keepsMemory ?_ |>.mono fun _ _ _ _ h => h
  refine (compare64_yields .eq).bind fun lowEq => ?_
  refine (compare64_yields .eq).bind fun highEq => ?_
  refine (binOp64_computes .and rfl).bind fun pairEq => ?_
  refine (constant64_computes 1).bind fun one => ?_
  refine Updates.bind (cmpFlags_updates) fun _ => ?_
  refine (select_yields .eq).bind fun newRax => ?_
  refine (select_yields .eq).bind fun newRdx => ?_
  refine (storeReg_updates .rax).bind fun _ => ?_
  refine (storeReg_updates .rdx).bind fun _ => ?_
  refine (storeRflagsFromNzcv_updates fun _ _ => ⟨rfl, rfl⟩).mono fun _ _ _ ⟨_, hc⟩ => ?_
  rw [hc]
  rfl

theorem pairFlags_z (regs : GuestRegs) (old : U64) :
    (pairFlags regs old).z = (old == regs.gpr .rax && old == regs.gpr .rdx) := by
  unfold pairFlags
  cases old == regs.gpr .rax <;> cases old == regs.gpr .rdx <;> rfl

open Rflags in
theorem zeroFlag_cmpxchg16bRegs (regs : GuestRegs) (old : U64) :
    zeroFlag (cmpxchg16bRegs regs old) = (pairFlags regs old).z := by
  simp only [zeroFlag, cmpxchg16bRegs, storeRflagsFromFlags, clearMask, getLsbD_setIf,
    getLsbD_or, getLsbD_and, getLsbD_not, getLsbD_zf, getLsbD_sf, getLsbD_of,
    getLsbD_cf, getLsbD_pf, getLsbD_af]
  simp

theorem gpr_cmpxchg16bRegs_of_z (h : (pairFlags regs old).z = true) :
    (cmpxchg16bRegs regs old).gpr = regs.gpr := by
  funext r
  simp only [cmpxchg16bRegs, storeRflagsFromFlags, h, if_true, storeReg, mask]
  split
  case isTrue hr => rw [hr]
  case isFalse =>
    split
    case isTrue hr => rw [hr]
    case isFalse => rfl

theorem gpr_cmpxchg16bRegs_of_not_z (h : (pairFlags regs old).z = false) :
    (cmpxchg16bRegs regs old).gpr = (setGpr (setGpr regs .rax old) .rdx old).gpr := by
  funext r
  simp only [cmpxchg16bRegs, storeRflagsFromFlags, h, storeReg, mask, setGpr, Function.update_apply]
  rfl

theorem cmpxchg16b_iff (regs : GuestRegs) (mem : Memory) (a : U64) :
    Cmpxchg16b a regs mem (cmpxchg16bRegs regs (halvesAt mem a).high)
        (exchanged mem a ⟨regs.gpr .rax, regs.gpr .rdx⟩ ⟨regs.gpr .rbx, regs.gpr .rcx⟩) ↔
      (halvesAt mem a).low = (halvesAt mem a).high := by
  unfold Cmpxchg16b exchanged
  have hz := pairFlags_z regs (halvesAt mem a).high
  generalize halvesAt mem a = old at hz ⊢
  obtain ⟨low, high⟩ := old
  dsimp only at hz ⊢
  rw [zeroFlag_cmpxchg16bRegs]
  split
  case isTrue h =>
    have ⟨hl, hh⟩ := Halves.mk.inj h
    rw [hl, hh]
    rw [hh] at hz
    constructor
    case mp =>
      intro ⟨_, _, hzf⟩
      rw [hz] at hzf
      simp at hzf
      exact hzf.symm
    case mpr =>
      intro he
      have hzt : (pairFlags regs (regs.gpr .rdx)).z = true := by rw [hz, he]; simp
      exact ⟨rfl, gpr_cmpxchg16bRegs_of_z hzt, hzt⟩
  case isFalse h =>
    constructor
    case mp =>
      intro ⟨_, hg, hzf⟩
      have hg := congrFun hg .rax
      rw [gpr_cmpxchg16bRegs_of_not_z hzf] at hg
      exact hg.symm
    case mpr =>
      intro he
      subst he
      have hzf : (pairFlags regs low).z = false := by
        rw [hz]
        refine Bool.eq_false_iff.mpr fun hc => h ?_
        simp at hc
        rw [← hc.left, ← hc.right]
      exact ⟨rfl, gpr_cmpxchg16bRegs_of_not_z hzf, hzf⟩

end Pair

section Instruction

variable {bytes : List U8} {offset : Nat} {insn : Instruction} {operand : MemOperand} {pc : U64}
  {regs : GuestRegs} {mem : Memory}

-- What it means to be the instruction.
structure IsCmpxchg16b (bytes : List U8) (offset : Nat) (insn : Instruction) (operand : MemOperand)
    (modrm : ModRm) : Prop where
  encoded : instructionAt bytes offset = some insn
  escape : insn.opcode = 0x0F
  opcode : bytes[insn.cursor + 1]? = some 0xC7
  parsed : parseModrm bytes (insn.cursor + 2) = .ok modrm
  memory : memOperandAt insn.prefixes.rex bytes (insn.cursor + 2) = some operand
  reg : modrm.reg = 1
  wide : insn.prefixes.rex.w = true
  operandOverride : insn.prefixes.operandOverride = false
  rep : insn.prefixes.rep = none

theorem isCmpxchg16b_of_cmpxchg16bAt (h : cmpxchg16bAt bytes offset = some (insn, operand)) :
    ∃ modrm, IsCmpxchg16b bytes offset insn operand modrm := by
  simp only [cmpxchg16bAt, Option.bind_eq_bind, Option.bind_eq_some_iff, Option.map_eq_map,
    Option.map_eq_some_iff] at h
  have ⟨insn', hi, modrm, ⟨b, hb, hm⟩, operand', ho, h⟩ := h
  split at h
  case isFalse => cases h
  case isTrue hc =>
    cases h
    have ⟨h0F, hC7, hr, hw, h66, hrep⟩ := hc
    exact ⟨modrm, hi, h0F, hC7, parseModrm_eq_ok.mpr ⟨b, hb, hm.symm⟩, ho, hr, hw, h66, hrep⟩

theorem mod_of_memOperandAt (h : memOperandAt rex bytes cursor = some operand)
    (hm : parseModrm bytes cursor = .ok modrm) : modrm.mod ≠ 3 := by
  have ⟨b, hb, hm⟩ := parseModrm_eq_ok.mp hm
  intro h3
  simp [memOperandAt, hb, ← hm, h3] at h

theorem decodeCmpxchg8b16b_evaluates (h : IsCmpxchg16b bytes offset insn operand modrm)
    (opcodeGuestPc : U64) :
    MemEvaluates [] (.entry regs) mem
      (decodeCmpxchg8b16b insn.prefixes 0xC7 bytes (insn.cursor + 1) opcodeGuestPc)
      fun consumed _ cpu' mem' =>
        let a := operand.effective regs (opcodeGuestPc + BitVec.ofNat 64 consumed)
        cpu'.regs = cmpxchg16bRegs regs (halvesAt mem a).high ∧
        mem' = exchanged mem a ⟨regs.gpr .rax, regs.gpr .rdx⟩ ⟨regs.gpr .rbx, regs.gpr .rcx⟩ := by
  have hmod := mod_of_memOperandAt h.memory h.parsed
  have ⟨n, _, _, hn, _⟩ := decodeAddr_of_memOperandAt h.memory h.parsed
  refine .bind_lift (a := ()) (by simp [rejectIf, h.operandOverride, h.rep]) ?_
  refine .bind_lift h.parsed ?_
  refine .bind_lift (a := ()) (by simpa [rejectIf, h.reg] using hmod) ?_
  refine .bind_lift hn ?_
  refine (emitAddrWithSizeAt_evaluates h.memory h.parsed _).bind_mem
    fun ⟨addr, used⟩ Δ cpu' ⟨hΔ, hc, hused⟩ => ?_
  cases hn.symm.trans hused
  subst hΔ hc
  dsimp only
  rw [if_pos h.wide]
  refine (emitCmpxchg16b_evaluates .here).bind fun _ _ cpu' mem' hq => ?_
  exact .pure (nil_subset _) hq

-- The registers and the memory behind the instruction. The address is the one that the statements
-- compute: relative to RIP, it is that of an instruction that ends one byte earlier.
theorem decodeOneAt_cmpxchg16b (h : cmpxchg16bAt bytes offset = some (insn, operand)) (pc : U64)
    (regs : GuestRegs) (mem : Memory) :
    ∃ d, decodeOneAt bytes offset pc = .ok d ∧
      let a := operand.effective regs (pc + BitVec.ofNat 64 (d.bytesConsumed - 1))
      interpretMem .interp d.stmts regs mem = some ⟨.fallthrough,
        cmpxchg16bRegs regs (halvesAt mem a).high,
        exchanged mem a ⟨regs.gpr .rax, regs.gpr .rdx⟩ ⟨regs.gpr .rbx, regs.gpr .rcx⟩⟩ := by
  have ⟨modrm, h⟩ := isCmpxchg16b_of_cmpxchg16bAt h
  have he : MemEvaluates [] (.entry regs) mem (decodeInstruction insn bytes offset pc)
      fun consumed _ cpu' mem' => 0 < consumed ∧
        let a := operand.effective regs (pc + BitVec.ofNat 64 (insn.cursor - offset) +
          BitVec.ofNat 64 (consumed - 1))
        cpu'.regs = cmpxchg16bRegs regs (halvesAt mem a).high ∧
        mem' = exchanged mem a ⟨regs.gpr .rax, regs.gpr .rdx⟩ ⟨regs.gpr .rbx, regs.gpr .rcx⟩ := by
    rw [decodeInstruction, h.escape]
    refine .bind_lift (byteAt_eq_ok.mpr h.opcode) ?_
    refine (decodeCmpxchg8b16b_evaluates h _).bind fun consumed _ cpu' mem' hq => ?_
    exact .pure (nil_subset _) ⟨by omega, by rwa [Nat.add_sub_cancel_left]⟩
  have ⟨d, consumed, Δ, cpu', mem', hd, hlen, hr, hpos, hregs, hmem⟩ := he.instruction h.encoded
  have hrip : pc + BitVec.ofNat 64 (insn.cursor - offset) + BitVec.ofNat 64 (consumed - 1) =
      pc + BitVec.ofNat 64 (d.bytesConsumed - 1) := by
    rw [hlen, add_assoc, ofNat_add_ofNat, Nat.add_sub_assoc hpos]
  rw [hrip] at hregs hmem
  exact ⟨d, hd, by rw [hr, hregs, hmem]⟩

-- CMPXCHG16B is right exactly if the halves of the old value are the same.
theorem decodeOneAt_cmpxchg16b_iff (h : cmpxchg16bAt bytes offset = some (insn, operand)) (pc : U64)
    (regs : GuestRegs) (mem : Memory) :
    ∃ d regs' mem', decodeOneAt bytes offset pc = .ok d ∧
      interpretMem .interp d.stmts regs mem = some ⟨.fallthrough, regs', mem'⟩ ∧
      let a := operand.effective regs (pc + BitVec.ofNat 64 (d.bytesConsumed - 1))
      (Cmpxchg16b a regs mem regs' mem' ↔ (halvesAt mem a).low = (halvesAt mem a).high) := by
  have ⟨d, hd, hr⟩ := decodeOneAt_cmpxchg16b h pc regs mem
  exact ⟨d, _, _, hd, hr, cmpxchg16b_iff regs mem _⟩

-- `cmpxchg16b [rdi]` on zero bytes.
theorem decodeOneAt_cmpxchg16b_iff_zero :
    ∃ d regs' mem', decodeOneAt [0x48, 0x0F, 0xC7, 0x0F] 0 0x1000 = .ok d ∧
      interpretMem .interp d.stmts .default (fun _ => 0) = some ⟨.fallthrough, regs', mem'⟩ ∧
      Cmpxchg16b 0 .default (fun _ => 0) regs' mem' := by
  have ⟨d, regs', mem', hd, hr, h⟩ := @decodeOneAt_cmpxchg16b_iff [0x48, 0x0F, 0xC7, 0x0F] 0
    ⟨{ rex := { present := true, w := true } }, 1, 0x0F⟩ ⟨.reg .rdi, none, 0⟩ rfl 0x1000
    .default (fun _ => 0)
  exact ⟨d, regs', mem', hd, hr, h.mpr (ByteMemory.load_zero.trans ByteMemory.load_zero.symm)⟩

-- `cmpxchg16b [rdi]` with RDX:RAX = 0:1 and the same value in memory.
theorem decodeOneAt_not_cmpxchg16b :
    ¬∀ (bytes : List U8) (offset : Nat) (insn : Instruction) (operand : MemOperand) (pc : U64)
        (regs : GuestRegs) (mem : Memory), cmpxchg16bAt bytes offset = some (insn, operand) →
      ∃ d regs' mem', decodeOneAt bytes offset pc = .ok d ∧
        interpretMem .interp d.stmts regs mem = some ⟨.fallthrough, regs', mem'⟩ ∧
        Cmpxchg16b (operand.effective regs (pc + BitVec.ofNat 64 (d.bytesConsumed - 1))) regs mem
          regs' mem' := by
  intro h
  have hi : cmpxchg16bAt [0x48, 0x0F, 0xC7, 0x0F] 0 = some
    (⟨{ rex := { present := true, w := true } }, 1, 0x0F⟩, ⟨.reg .rdi, none, 0⟩) := rfl
  let regs : GuestRegs := { GuestRegs.default with gpr := fun r => if r = .rax then 1 else 0 }
  let mem : Memory := fun a => if a = 0 then 1 else 0
  have ⟨d, regs', mem', hd, hr, hc⟩ := h _ 0 _ _ 0x1000 regs mem hi
  have ⟨d', hd', hr'⟩ := decodeOneAt_cmpxchg16b hi 0x1000 regs mem
  cases hd.symm.trans hd'
  cases hr.symm.trans hr'
  exact absurd ((cmpxchg16b_iff regs mem 0).mp hc) (by decide +kernel)

end Instruction

end Prisma.Decoder
