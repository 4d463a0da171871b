import Prisma.Decoder.Theorems.Scope
import Prisma.Decoder.Theorems.Bytes

namespace Prisma.Decoder

open Emission

variable (prefixes : PrefixSet) (opcode : U8) (bytes : List U8) (cursor : Nat) (opcodeGuestPc : U64)
  (modrm : ModRm)

theorem wellScoped_iff_ssaFrom :
    {defined : List Ref} → (WellScoped defined stmts ↔ SsaFrom defined stmts) := by
  induction stmts with
  | nil => exact Iff.rfl
  | cons stmt stmts ih => exact and_congr Iff.rfl (and_congr Iff.rfl ih)

-- CALL and JMP (FF /2 and FF /4) with the target in memory.
def targetInMemory : Bool :=
  match parseModrm bytes (cursor + 1) with
  | .ok modrm => (modrm.reg = 2 || modrm.reg = 4) && modrm.mod ≠ 3
  | .error _ => false

-- CMPXCHG16B (0F C7 /1 with REX.W).
def isCmpxchg16b : Bool :=
  bytes[cursor + 1]? = some 0xC7 && prefixes.rex.w

-- The instructions whose decoders allocate a ref before statements that take the same number.
def allocatesEarly : Bool :=
  prefixes.vex.isNone &&
    (opcode = 0xFF && targetInMemory bytes cursor ||
      opcode = 0x0F && isCmpxchg16b prefixes bytes cursor)

def allocatesEarlyAt (offset : Nat) : Bool :=
  let (prefixes, cursor) := parsePrefixes bytes offset
  match bytes[cursor]? with
  | some opcode => allocatesEarly prefixes opcode bytes cursor
  | none => false

section Groups

theorem emitIndirectTarget_emits (h : modrm.mod = 3) :
    Emits Γ (emitIndirectTarget prefixes bytes cursor modrm) fun p => [p.1] := by
  have heq : emitIndirectTarget prefixes bytes cursor modrm = do
      let target ← pushRef (.loadReg (mapReg modrm.rm prefixes.rex false) .i64)
      return (target, 1) := by
    simp [emitIndirectTarget, h, pushRef]
  rw [heq]
  exact .bind (by simp [Op.operandRefs, Op.secondResult]) fun _ => .pure (by simp)

theorem decodeGroup5_emits (h : ¬targetInMemory bytes cursor) :
    Emits Γ (decodeGroup5 prefixes bytes cursor opcodeGuestPc) fun _ => [] := by
  unfold decodeGroup5
  refine .bind_lift fun modrm hm => ?_
  simp only [targetInMemory, hm] at h
  split
  case h_1 => exact .tail trivial (by simp)
  case h_2 => exact .tail trivial (by simp)
  case h_3 hr =>
    have hmod : modrm.mod = 3 := by simpa [hr] using h
    refine .andThen (emitIndirectTarget_emits prefixes bytes cursor modrm hmod) fun _ => ?_
    exact .bind (by simp [Op.operandRefs, Op.secondResult]) fun _ => .pure (by simp)
  case h_4 hr =>
    have hmod : modrm.mod = 3 := by simpa [hr] using h
    refine .andThen (emitIndirectTarget_emits prefixes bytes cursor modrm hmod) fun _ => ?_
    exact .bind (by simp [Op.operandRefs, Op.secondResult]) fun _ => .pure (by simp)
  case h_5 =>
    exact .bind trivial fun _ => .bind (by simp) fun _ => .pure (by simp)
  case h_6 => exact .throw

theorem decodeCmpxchg8b16b_emits (h : ¬prefixes.rex.w) :
    Emits Γ (decodeCmpxchg8b16b prefixes opcode bytes cursor opcodeGuestPc) fun _ => [] := by
  unfold decodeCmpxchg8b16b
  refine .bind trivial fun _ => .bind trivial fun _ => .bind trivial fun _ => ?_
  refine .bind trivial fun _ => .bind trivial fun _ => ?_
  simp only [h, Bool.false_eq_true, if_false]
  exact .bind (by simp) fun _ => .pure (by simp)

end Groups

section Dispatch

variable {prefixes opcode bytes cursor opcodeGuestPc}

theorem decodeTwoByte_emits (h : ¬isCmpxchg16b prefixes bytes cursor) :
    Emits Γ (decodeTwoByte prefixes bytes cursor opcodeGuestPc) fun _ => [] := by
  unfold decodeTwoByte
  refine .bind_lift fun op2 hop => .andThen (Δ := fun _ => []) ?_ fun _ => .pure (by simp)
  unfold decodeTwoByteOpcode
  cases hc : classifyTwoByte op2
  case cmpxchg8b16b =>
    have hw : ¬prefixes.rex.w := by
      have := byteAt_eq_ok.mp hop
      simpa [isCmpxchg16b, this, classifyTwoByte_inj op2 hc] using h
    exact decodeCmpxchg8b16b_emits prefixes op2 bytes (cursor + 1) opcodeGuestPc hw
  all_goals
    dsimp only
    repeat' with_reducible first | apply Emits.throw | apply Emits.tail | split
    all_goals simp

theorem decodeOneByteOpcode_emits (h₅ : opcode = 0xFF → ¬targetInMemory bytes cursor)
    (h₂ : opcode = 0x0F → ¬isCmpxchg16b prefixes bytes cursor) :
    Emits Γ (decodeOneByteOpcode prefixes opcode bytes cursor opcodeGuestPc) fun _ => [] := by
  unfold decodeOneByteOpcode
  have hi := classifyOneByte_inj opcode
  cases hc : classifyOneByte opcode
  case group5 => exact decodeGroup5_emits _ _ _ _ (h₅ (hi.group5 hc))
  case twoBytePrefix => exact decodeTwoByte_emits (h₂ (hi.twoByte hc))
  all_goals
    dsimp only
    repeat' with_reducible first
      | intro _ | apply Emits.bind | apply Emits.throw | apply Emits.tail | split
    all_goals simp

theorem decodeOpcode_emits (h : ¬allocatesEarly prefixes opcode bytes cursor) :
    Emits [] (decodeOpcode prefixes opcode bytes cursor opcodeGuestPc) fun _ => [] := by
  unfold decodeOpcode
  split
  case isTrue => exact .tail trivial (by simp)
  case isFalse hv =>
    have hv : prefixes.vex = none := by simpa using hv
    simp only [allocatesEarly, hv] at h
    exact decodeOneByteOpcode_emits (by simp_all) (by simp_all)

end Dispatch

section Collision

variable {prefixes opcode bytes cursor opcodeGuestPc modrm}

theorem pushRef_takesFresh {op : Op} (h : op.secondResult = none) : TakesFresh Γ (pushRef op) :=
  .push fun _ => by simp [Statement.defs, Stmt.defs, h]

theorem emitAddrModeAt_takesFresh {Γ : List Ref} {addr : AddrMode} {ripAfter : U64} :
    TakesFresh Γ (emitAddrModeAt addr ripAfter) := by
  unfold emitAddrModeAt
  cases addr with
  | baseDisp base disp =>
    exact .bind (pushRef_takesFresh rfl) (EmitsSpec.emits trivial) fun _ => EmitsSpec.emits (by simp)
  | indexed base index scale disp =>
    refine .bind ?_ (EmitsSpec.emits trivial) fun r =>
      .bind (Θ := fun r => [r]) (by simp) fun _ => EmitsSpec.emits (by simp)
    unfold emitScaledIndex
    refine .bind (pushRef_takesFresh rfl) (EmitsSpec.emits trivial) (Θ := fun _ r => [r]) fun r => ?_
    split
    case isTrue => exact .pure (by simp)
    case isFalse => exact .bind trivial fun _ => .tail (by simp) (by simp)
  | ripRelative disp => exact pushRef_takesFresh rfl
  | absolute disp => exact pushRef_takesFresh rfl

theorem emitAddrWithSizeAt_takesFresh :
    TakesFresh Γ (emitAddrWithSizeAt modrm prefixes bytes cursor ripAfter) := by
  unfold emitAddrWithSizeAt
  refine .bind_lift fun _ => .bind_lift fun _ => .bind_lift fun _ => ?_
  exact .bind emitAddrModeAt_takesFresh (EmitsSpec.emits trivial) (Θ := fun _ _ => [])
    fun _ => .pure (by simp)

-- The ref of the target is the number of the first statement of the address.
theorem emitIndirectTarget_not_wellScoped (hmod : modrm.mod ≠ 3)
    (h : emitIndirectTarget prefixes bytes cursor modrm [] = .ok (p, stmts)) :
    ¬WellScoped [] stmts := by
  have ⟨_, _, hf, h⟩ := bind_eq_ok.mp h
  cases hf
  rw [if_neg hmod] at h
  have ⟨_, stmts₁, ha, h⟩ := bind_eq_ok.mp h
  cases h
  have ⟨s, hs, hd⟩ := emitAddrWithSizeAt_takesFresh [] .nil _ _ ha
  exact fun hw => (hw.not_mem_defs List.mem_cons_self).right s hs hd

theorem decodeGroup5_not_ssa (ht : targetInMemory bytes cursor)
    (h : decodeGroup5 prefixes bytes cursor opcodeGuestPc [] = .ok (n, stmts)) : ¬Ssa stmts := by
  have ⟨modrm, hm, h⟩ := lift_bind_eq_ok.mp h
  simp only [targetInMemory, hm, Bool.and_eq_true, Bool.or_eq_true, decide_eq_true_eq] at ht
  have ⟨hr, hmod⟩ := ht
  refine fun hs => absurd (wellScoped_iff_ssaFrom.mpr hs) ?_
  cases hr with
  | inl hr =>
    simp only [hr] at h
    have ⟨p, stmts₁, hi, h⟩ := bind_eq_ok.mp h
    cases h
    exact fun hw => emitIndirectTarget_not_wellScoped hmod hi hw.of_append
  | inr hr =>
    simp only [hr] at h
    have ⟨p, stmts₁, hi, h⟩ := bind_eq_ok.mp h
    cases h
    exact fun hw => emitIndirectTarget_not_wellScoped hmod hi hw.of_append

-- Both halves of the old value get the same ref.
theorem emitCmpxchg16b_not_wellScoped (h : emitCmpxchg16b addr stmts = .ok ((), stmts')) :
    ¬WellScoped [] stmts' := by
  cases h
  intro hw
  iterate 10 replace hw := hw.of_append
  have := hw.nodup_defs
  simp [Statement.defs, Stmt.defs, Op.secondResult] at this

theorem decodeCmpxchg8b16b_not_ssa (hw : prefixes.rex.w)
    (h : decodeCmpxchg8b16b prefixes opcode bytes cursor opcodeGuestPc [] = .ok (n, stmts)) :
    ¬Ssa stmts := by
  have ⟨_, _, h⟩ := lift_bind_eq_ok.mp h
  have ⟨_, _, h⟩ := lift_bind_eq_ok.mp h
  have ⟨_, _, h⟩ := lift_bind_eq_ok.mp h
  have ⟨_, _, h⟩ := lift_bind_eq_ok.mp h
  have ⟨_, _, _, h⟩ := bind_eq_ok.mp h
  dsimp only at h
  rw [if_pos hw] at h
  have ⟨_, _, hc, h⟩ := bind_eq_ok.mp h
  cases h
  exact fun h => emitCmpxchg16b_not_wellScoped hc (wellScoped_iff_ssaFrom.mpr h)

theorem decodeOpcode_not_ssa (he : allocatesEarly prefixes opcode bytes cursor)
    (h : decodeOpcode prefixes opcode bytes cursor opcodeGuestPc [] = .ok (n, stmts)) :
    ¬Ssa stmts := by
  simp only [allocatesEarly, Bool.and_eq_true, Bool.or_eq_true, decide_eq_true_eq,
    Option.isNone_iff_eq_none] at he
  have ⟨hv, he⟩ := he
  simp only [decodeOpcode, hv, Option.isSome_none, Bool.false_eq_true, if_false] at h
  cases he with
  | inl he =>
    have ⟨ho, ht⟩ := he
    subst ho
    exact decodeGroup5_not_ssa ht h
  | inr he =>
    have ⟨ho, hc⟩ := he
    subst ho
    simp only [isCmpxchg16b, Bool.and_eq_true, decide_eq_true_eq] at hc
    have ⟨op2, hop, h⟩ := lift_bind_eq_ok.mp h
    cases hc.left.symm.trans (byteAt_eq_ok.mp hop)
    have ⟨_, _, hd, h⟩ := bind_eq_ok.mp h
    cases h
    exact decodeCmpxchg8b16b_not_ssa hc.right hd

end Collision

-- The decoded statements are in SSA form except for the instructions that allocate a ref early.
theorem decodeOneAt_ssa_iff {bytes : List U8} {offset : Nat} {pc : U64} {d : Decoded}
    (h : decodeOneAt bytes offset pc = .ok d) :
    Ssa d.stmts ↔ ¬allocatesEarlyAt bytes offset := by
  have ⟨opcode, consumed, hop, hd, _⟩ := decodeOneAt_eq_ok h
  simp only [allocatesEarlyAt, hop]
  constructor
  case mp => exact fun hs he => decodeOpcode_not_ssa he hd hs
  case mpr =>
    intro he
    have ⟨_, hs⟩ := decodeOpcode_emits he [] .nil consumed d.stmts hd
    exact wellScoped_iff_ssaFrom.mp hs.wellScoped

-- `mov eax, ecx`
theorem decodeOneAt_ssa_iff_mov :
    ∃ d, decodeOneAt [0x89, 0xC8] 0 0x1000 = .ok d ∧
      (Ssa d.stmts ↔ ¬allocatesEarlyAt [0x89, 0xC8] 0) :=
  ⟨_, rfl, @decodeOneAt_ssa_iff _ _ 0x1000 _ rfl⟩

-- `call [rax]`: the ref of the target is also the ref of its address.
theorem decodeOneAt_not_ssa :
    ¬∀ (bytes : List U8) (offset : Nat) (pc : U64) (d : Decoded),
      decodeOneAt bytes offset pc = .ok d → Ssa d.stmts := by
  intro h
  have := h [0xFF, 0x10] 0 0x1000 _ rfl
  revert this
  decide

end Prisma.Decoder
