import Prisma.X86.Address
import Prisma.Decoder.Theorems.Eval

-- The address that the decoder computes for a memory operand.

namespace Prisma.Decoder

open Emission Machine X86 BitVec Option

variable {Γ : Facts} {cpu : Cpu} {bytes : List U8} {modrm : ModRm} {prefixes : PrefixSet}

section Values

def AddrMode.value (addr : AddrMode) (regs : GuestRegs) (rip : U64) : U64 :=
  match addr with
  | .baseDisp base disp => regs.gpr base + disp
  | .indexed base index scale disp =>
    (base.elim 0 regs.gpr) + regs.gpr index * BitVec.ofNat 64 (2 ^ scale.toNat) + disp
  | .ripRelative disp => rip + disp
  | .absolute disp => disp

theorem emitLoadAddrReg_computes (reg : Gpr) :
    Computes Γ cpu (emitLoadAddrReg reg) (.scalar (cpu.regs.gpr reg)) :=
  pushRef_yields fun _ _ _ => rfl

theorem emitAddDisp_computes (h : Lookup Γ base (.scalar a)) (disp : U64) :
    Computes Γ cpu (emitAddDisp base disp) (.scalar (a + disp)) := by
  unfold emitAddDisp
  split
  case isTrue h0 =>
    rw [h0, add_zero]
    exact Computes.pure h
  case isFalse =>
    refine (constant64_computes disp).bind fun dispRef => ?_
    exact binOp64_computes .add rfl

theorem emitScaledIndex_computes (index : Gpr) (scale : BitVec 2) :
    Computes Γ cpu (emitScaledIndex index scale)
      (.scalar (cpu.regs.gpr index * BitVec.ofNat 64 (2 ^ scale.toNat))) := by
  refine (emitLoadAddrReg_computes index).bind fun indexRef => ?_
  split
  case isTrue h =>
    rw [h]
    exact (Computes.pure .here).of_eq (by simp)
  case isFalse =>
    refine (constant64_computes (scale.setWidth 64)).bind fun shiftRef => ?_
    refine binOp64_computes .shl (congrArg some ?_)
    have hs : (scale.setWidth 64).toNat % 64 = scale.toNat := by
      have := scale.isLt
      rw [toNat_setWidth]
      omega
    rw [hs]
    apply eq_of_toNat_eq
    simp [toNat_shiftLeft, Nat.shiftLeft_eq, Nat.mul_mod_mod]

theorem emitAddrModeAt_computes (addr : AddrMode) (rip : U64) :
    Computes Γ cpu (emitAddrModeAt addr rip) (.scalar (addr.value cpu.regs rip)) := by
  cases addr with
  | baseDisp base disp =>
    refine (emitLoadAddrReg_computes base).bind fun baseRef => ?_
    exact emitAddDisp_computes .here disp
  | indexed base index scale disp =>
    refine (emitScaledIndex_computes index scale).bind fun scaledIndex => ?_
    refine Computes.bind (v := .scalar (base.elim 0 cpu.regs.gpr + _)) ?_ fun sum =>
      emitAddDisp_computes .here disp
    cases base with
    | none => exact (Computes.pure .here).of_eq (by rw [Option.elim, zero_add])
    | some base =>
      refine (emitLoadAddrReg_computes base).bind fun baseRef => ?_
      exact binOp64_computes .add rfl
  | ripRelative disp => exact (constant64_computes _).of_eq (by rw [addSignedDisp_eq]; rfl)
  | absolute disp =>
    exact (constant64_computes _).of_eq (by rw [addSignedDisp_eq, zero_add]; rfl)

end Values

section Operands

theorem register_eq_rsp (extension : Bool) (field : BitVec 3) :
    register extension field = .rsp ↔ ¬(field ≠ 4 ∨ extension) := by
  revert extension field
  decide

theorem dispAt_zero (h : dispAt bytes offset 0 = some disp) : disp = 0 := by
  unfold dispAt at h
  split at h
  case isTrue => cases h; simp [leValue]
  case isFalse => cases h

theorem readDisp8_of_dispAt (h : dispAt bytes offset 1 = some disp) :
    (·.signExtend 64) <$> readDisp8 bytes offset = .ok disp := by
  unfold dispAt at h
  split at h
  case isTrue hle =>
    have hb : bytes[offset]? = some bytes[offset] := List.getElem?_eq_getElem (by omega)
    have ht : (bytes.drop offset).take 1 = [bytes[offset]] := by
      rw [List.take_one, List.head?_drop, hb]
      rfl
    rw [ht] at h
    cases h
    rw [readDisp8, byteAt_eq_ok.mpr hb]
    simp [leValue, Functor.map, Except.map]
  case isFalse => cases h

theorem readDisp32_of_dispAt (h : dispAt bytes offset 4 = some disp) :
    readDisp32 bytes offset = .ok disp := by
  unfold dispAt at h
  split at h
  case isTrue hle =>
    cases h
    rw [readDisp32, bytesAt, if_pos hle]
    rfl
  case isFalse => cases h

theorem readDisp_of_dispAt (h : dispAt bytes offset (dispBytes mod hasBase) = some disp)
    (h0 : mod ≠ 0) (h3 : mod ≠ 3) (f : U64 → Parse AddrMode) :
    (if mod = 1 then (·.signExtend 64) <$> readDisp8 bytes offset >>= f
      else readDisp32 bytes offset >>= f) = f disp := by
  have hmod : ∀ mod : BitVec 2, mod ≠ 0 → mod ≠ 3 → mod = 1 ∨ mod = 2 := by decide
  cases hmod mod h0 h3 with
  | inl h1 => subst h1; rw [if_pos rfl, readDisp8_of_dispAt h]; rfl
  | inr h2 => subst h2; rw [if_neg (by decide), readDisp32_of_dispAt h]; rfl

theorem addrMode_of_dispAt {x : BitVec 3} {f g : U64 → AddrMode} (h3 : mod ≠ 3)
    (hd : dispAt bytes offset (dispBytes mod (x ≠ 5)) = some disp) :
    (if mod = 0 then if x = 5 then f <$> readDisp32 bytes offset else .ok (g 0)
      else if mod = 1 then (·.signExtend 64) <$> readDisp8 bytes offset >>= fun d => .ok (g d)
      else readDisp32 bytes offset >>= fun d => .ok (g d)) =
    (.ok (if mod = 0 ∧ x = 5 then f disp else g disp) : Parse AddrMode) := by
  by_cases h0 : mod = 0
  case pos =>
    rw [h0] at hd
    by_cases h5 : x = 5
    case pos =>
      rw [h5] at hd
      simp only [if_pos h0, if_pos h5, readDisp32_of_dispAt hd, if_pos (And.intro h0 h5)]
      rfl
    case neg =>
      have hz : disp = 0 := dispAt_zero (by rwa [decide_eq_true h5] at hd)
      simp only [if_pos h0, if_neg h5, hz, if_neg fun h : _ ∧ _ => h5 h.right]
  case neg => rw [if_neg h0, readDisp_of_dispAt hd h0 h3, if_neg fun h => h0 h.left]

theorem decodeSibAddr_value {sib : Sib} (base : Option Gpr) (disp : U64)
    (hb : base = if mod = 0 ∧ sib.base = 5 then none else some (register prefixes.rex.b sib.base))
    (regs : GuestRegs) (rip : U64) :
    (decodeSibAddr sib prefixes base disp).value regs rip =
      (sibOperand prefixes.rex mod sib disp).effective regs rip := by
  subst hb
  have hx : gprFromSibIndex sib.index prefixes = register prefixes.rex.x sib.index := rfl
  simp only [decodeSibAddr, sibOperand, MemOperand.effective, register_eq_rsp, ite_not, hx]
  by_cases hb : mod = 0 ∧ sib.base = 5
  case pos =>
    simp only [if_pos hb]
    split
    case isTrue => rfl
    case isFalse => simp [AddrMode.value, AddressBase.value]
  case neg =>
    simp only [if_neg hb]
    split
    case isTrue => rfl
    case isFalse => simp [AddrMode.value, AddressBase.value]

theorem decodeAddr_sib {sib : Sib} (h3 : modrm.mod ≠ 3) (h4 : modrm.rm = 4)
    (hd : dispAt bytes offset (dispBytes modrm.mod (sib.base ≠ 5)) = some disp) :
    decodeAddr modrm (some sib) prefixes bytes offset =
      .ok (decodeSibAddr sib prefixes
        (if modrm.mod = 0 ∧ sib.base = 5 then none else some (register prefixes.rex.b sib.base))
        disp) := by
  rw [decodeAddr, if_neg h3, if_pos h4, apply_ite (decodeSibAddr sib prefixes · disp)]
  exact addrMode_of_dispAt h3 hd

theorem decodeAddr_noSib {offset : Nat} {disp : U64} (h3 : modrm.mod ≠ 3) (h4 : modrm.rm ≠ 4)
    (hd : dispAt bytes offset (dispBytes modrm.mod (modrm.rm ≠ 5)) = some disp) :
    decodeAddr modrm none prefixes bytes offset =
      .ok (if modrm.mod = 0 ∧ modrm.rm = 5 then .ripRelative disp
        else .baseDisp (register prefixes.rex.b modrm.rm) disp) := by
  rw [decodeAddr, if_neg h3, if_neg h4]
  exact addrMode_of_dispAt h3 hd

theorem decodeAddr_of_memOperandAt (h : memOperandAt prefixes.rex bytes cursor = some m)
    (hm : parseModrm bytes cursor = .ok modrm) :
    ∃ n sib addr, bytesForModrm modrm bytes cursor = .ok n ∧
      parseOptionalSib modrm bytes (cursor + 1) = .ok sib ∧
      decodeAddr modrm sib prefixes bytes (cursor + 1 + sib.isSome.toNat) = .ok addr ∧
      ∀ regs rip, addr.value regs rip = m.effective regs rip := by
  obtain ⟨b, hb, hm⟩ := parseModrm_eq_ok.mp hm
  simp only [memOperandAt, hb, ← hm, bind_eq_bind, map_eq_map, map_some,
    bind_some] at h
  split at h
  case isTrue => cases h
  case isFalse h3 =>
  split at h
  case isTrue h4 =>
    simp only [bind_eq_some_iff, map_eq_some_iff, pure_def,
      Option.some.injEq] at h
    obtain ⟨sib, ⟨b, hsib, hs⟩, disp, hd, hop⟩ := h
    obtain ⟨n, hn⟩ : ∃ n, bytesForModrm modrm bytes cursor = .ok n := by
      rw [bytesForModrm, if_pos h4, byteAt_eq_ok.mpr hsib]
      exact ⟨_, rfl⟩
    refine ⟨n, some sib, _, hn, ?_, decodeAddr_sib h3 h4 hd, fun regs rip => ?_⟩
    · rw [parseOptionalSib, if_pos ⟨h3, h4⟩, parseSib, byteAt_eq_ok.mpr hsib, ← hs]
      rfl
    · rw [← hop]
      exact decodeSibAddr_value _ disp rfl regs rip
  case isFalse h4 =>
    simp only [bind_eq_some_iff, pure_def, Option.some.injEq] at h
    obtain ⟨disp, hd, hop⟩ := h
    obtain ⟨n, hn⟩ : ∃ n, bytesForModrm modrm bytes cursor = .ok n := by
      rw [bytesForModrm, if_neg h4]
      split <;> exact ⟨_, rfl⟩
    refine ⟨n, none, _, hn, ?_, decodeAddr_noSib h3 h4 hd, fun regs rip => ?_⟩
    · rw [parseOptionalSib, if_neg fun h => h4 h.right]
      rfl
    · rw [← hop]
      split <;> simp [AddrMode.value, MemOperand.effective, AddressBase.value]

end Operands

section Main

variable {cursor : Nat} {m : MemOperand}

theorem emitAddrWithSizeAt_evaluates (h : memOperandAt prefixes.rex bytes cursor = some m)
    (hm : parseModrm bytes cursor = .ok modrm) (ripAfter : U64) :
    Evaluates Γ cpu (emitAddrWithSizeAt modrm prefixes bytes cursor ripAfter) fun p Δ cpu' =>
      Δ = [(p.1, .scalar (m.effective cpu.regs ripAfter))] ∧ cpu' = cpu ∧
        bytesForModrm modrm bytes cursor = .ok p.2 := by
  have ⟨n, sib, addr, hn, hs, ha, hv⟩ := decodeAddr_of_memOperandAt h hm
  refine .bind_lift hn (.bind_lift hs (.bind_lift ha ?_))
  refine Computes.bind (emitAddrModeAt_computes addr ripAfter) fun addrRef => ?_
  exact .pure (List.cons_subset_cons _ (List.nil_subset _)) ⟨by rw [hv], rfl, hn⟩

theorem parseModrm_of_memOperandAt (h : memOperandAt prefixes.rex bytes cursor = some m) :
    ∃ modrm, parseModrm bytes cursor = .ok modrm := by
  simp only [memOperandAt, bind_eq_bind, bind_eq_some_iff, map_eq_map,
    map_eq_some_iff] at h
  have ⟨modrm, ⟨b, hb, hm⟩, _⟩ := h
  exact ⟨modrm, parseModrm_eq_ok.mpr ⟨b, hb, hm.symm⟩⟩

theorem effective_eq (h : m.base ≠ .rip) (regs : GuestRegs) (rip rip' : U64) :
    m.effective regs rip = m.effective regs rip' := by
  obtain ⟨base, index, disp⟩ := m
  cases base with
  | rip => exact absurd rfl h
  | none | reg => rfl

-- The address ref has the value of the operand, whatever stands before it.
theorem emitAddrWithSize_correct (h : memOperandAt prefixes.rex bytes cursor = some m)
    (hrip : m.base ≠ .rip) (rip : U64) (stmts : List Stmt) (s : State) :
    ∃ modrm addr used new s', parseModrm bytes cursor = .ok modrm ∧
      emitAddrWithSize modrm prefixes bytes cursor stmts = .ok ((addr, used), stmts ++ new) ∧
      exec step new s = .next s' ∧ s'.env.vals addr = m.effective s.cpu.regs rip ∧
      s'.cpu = s.cpu := by
  have ⟨modrm, hm⟩ := parseModrm_of_memOperandAt h
  have ⟨⟨addr, used⟩, new, s', hok, he, Δ, hk, hΔ, hc, _⟩ :=
    emitAddrWithSizeAt_evaluates h hm 0 stmts.length s .nil rfl stmts rfl
  subst hΔ
  exact ⟨modrm, addr, used, new, s', hm, hok, he, (hk.vals .here).trans (effective_eq hrip ..), hc⟩

-- `[rbx + r12 * 4 - 8]` with 0x1000 in RBX and 0x10 in R12
theorem emitAddrWithSize_correct_sib :
    ∃ modrm addr used new s', parseModrm [0x44, 0xA3, 0xF8] 0 = .ok modrm ∧
      emitAddrWithSize modrm { rex := { present := true, x := true } } [0x44, 0xA3, 0xF8] 0 [] =
        .ok ((addr, used), new) ∧
      exec step new (.entry { GuestRegs.default with gpr r := if r = .rbx then 0x1000 else 0x10 }) =
        .next s' ∧
      s'.env.vals addr = 0x1038 := by
  have hm : memOperandAt { present := true, x := true } [0x44, 0xA3, 0xF8] 0 =
      some ⟨.reg .rbx, some (.r12, 2), 0xFFFFFFFFFFFFFFF8⟩ := by decide
  have ⟨modrm, addr, used, new, s', hp, hok, he, hv, _⟩ := @emitAddrWithSize_correct _
    { rex := { present := true, x := true } } _ _ hm (by decide) 0 []
    (.entry { GuestRegs.default with gpr r := if r = .rbx then 0x1000 else 0x10 })
  exact ⟨modrm, addr, used, new, s', hp, hok, he, hv⟩

end Main

end Prisma.Decoder
