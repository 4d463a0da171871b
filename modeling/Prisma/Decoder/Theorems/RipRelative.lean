import Prisma.Lib.Invariant
import Prisma.Decoder.Theorems.Address
import Prisma.Decoder.Theorems.Layout

-- The addresses of RIP-relative operands.

namespace Prisma.Decoder

open Emission X86

section Addresses

-- The ref that an operation takes as an address. LEA stores the address itself.
def addressRef (lea : Bool) (op : Op) : Option Ref :=
  match op with
  | .loadMem addr _ | .storeMem addr _ _ | .loadMemTSO addr _ | .storeMemTSO addr _ _ => some addr
  | .atomicCmpxchg addr _ _ _ | .atomicCmpxchgPair addr _ _ _ _ _ => some addr
  | .loadVec addr | .storeVec addr _ | .vecGather addr _ _ _ _ _ _ _ _ _ => some addr
  | .storeReg _ value _ => if lea then some value else none
  | _ => none

-- The constant that a ref is, or that something is added to. The statements are given from the last
-- one on.
def constantBase : List Stmt → Ref → Option U64
  | [], _ => none
  | stmt :: stmts, r =>
    if stmt.result = some r then
      match stmt.op with
      | .constant value _ => some value
      | .binOp .add lhs _ _ => constantBase stmts lhs
      | _ => none
    else constantBase stmts r

-- The constant addresses that the statements use, from the last one on.
def addressBases (lea : Bool) : List Stmt → List U64
  | [] => []
  | stmt :: stmts =>
    ((addressRef lea stmt.op).bind (constantBase stmts)).toList ++ addressBases lea stmts

end Addresses

section Operand

-- The offset of the ModR/M byte, where the opcode stands at `cursor`.
def modrmOffset (vex : Bool) (bytes : List U8) (cursor : Nat) : Option Nat := do
  let opcode ← bytes[cursor]?
  if vex then some (cursor + 1)
  else if opcode = 0x0F then
    let op2 ← bytes[cursor + 1]?
    if op2 = 0x38 ∨ op2 = 0x3A then some (cursor + 3)
    else
      let format ← twoByteFormat op2
      if format.modrm then some (cursor + 2) else none
  else
    let format ← oneByteFormat opcode
    if format.modrm then some (cursor + 1) else none

-- The displacement of the instruction's operand, if that is RIP-relative.
def ripDispAt (bytes : List U8) (offset : Nat) : Option U64 := do
  let (prefixes, cursor) := parsePrefixes bytes offset
  let modrmOffset ← modrmOffset prefixes.vex.isSome bytes cursor
  let m ← memOperandAt prefixes.rex bytes modrmOffset
  if m.base = .rip then some m.disp else none

-- Whether the instruction is encoded without VEX and has one of the opcodes.
def hasOpcode (opcodes : List U8) (bytes : List U8) (offset : Nat) : Bool :=
  let (prefixes, cursor) := parsePrefixes bytes offset
  !prefixes.vex.isSome && bytes[cursor]?.any (· ∈ opcodes)

def addresses (bytes : List U8) (offset : Nat) (d : Decoded) : List U64 :=
  addressBases (hasOpcode [0x8D] bytes offset) d.stmts.reverse

end Operand

section Independence

variable {prefixes : PrefixSet} {opcode : U8} {bytes : List U8} {cursor : Nat} (pc pc' : U64)

theorem decodeTwoByteOpcode_pc
    (hm : op2 = 0x38 ∨ op2 = 0x3A ∨ ∃ format, twoByteFormat op2 = some format ∧ format.modrm)
    (hc : op2 ≠ 0xC7) :
    decodeTwoByteOpcode prefixes bytes cursor pc op2 =
      decodeTwoByteOpcode prefixes bytes cursor pc' op2 := by
  have hk := format_classifyTwoByte op2
  unfold decodeTwoByteOpcode
  cases hc' : classifyTwoByte op2
  case cmpxchg8b16b => exact absurd (classifyTwoByte_inj op2 hc') hc
  case condJumpRel32 =>
    rw [hc'] at hk
    obtain hm | hm | ⟨format, hf, hm⟩ := hm
    · rw [hm] at hc'; cases hc'
    · rw [hm] at hc'; cases hc'
    · cases hk with
      | inl hk => cases hk
      | inr hk => rw [hf] at hk; cases hk; cases hm
  all_goals with_reducible rfl

theorem decodeOneByteOpcode_pc (hf : oneByteFormat opcode = some format) (hm : format.modrm)
    (h₁ : opcode ∉ [0x80, 0x81, 0x83]) (h₅ : opcode ≠ 0xFF) (h0F : opcode ≠ 0x0F) :
    decodeOneByteOpcode prefixes opcode bytes cursor pc =
      decodeOneByteOpcode prefixes opcode bytes cursor pc' := by
  have hc := format_classifyOneByte opcode
  have hi := classifyOneByte_inj opcode
  unfold decodeOneByteOpcode
  rw [hf] at hc
  cases hk : classifyOneByte opcode
  case aluRmImm => exact absurd (hi.aluRmImm.mp (.inl hk)) h₁
  case aluRmImm8 => exact absurd (hi.aluRmImm.mp (.inr hk)) h₁
  case group5 => exact absurd (hi.group5 hk) h₅
  case twoBytePrefix => exact absurd (hi.twoByte hk) h0F
  -- the branches, which have no ModR/M byte
  case callRel32 | jumpRel8 | jrcxzRel8 | loopRel8 | jumpRel32 | condJumpRel8 =>
    rw [hk] at hc
    cases hc with
    | inl hc => cases hc
    | inr hc => cases hc; cases hm
  all_goals with_reducible rfl

theorem decodeTwoByte_eq (hop : bytes[cursor + 1]? = some op2) :
    decodeTwoByte prefixes bytes cursor pc =
      (1 + ·) <$> decodeTwoByteOpcode prefixes bytes cursor pc op2 := by
  rw [decodeTwoByte, byteAt_eq_ok.mpr hop]
  rfl

-- Outside of three groups of opcodes the statements do not depend on the address of the instruction.
theorem decodeOpcode_pc (ho : modrmOffset prefixes.vex.isSome bytes cursor = some o)
    (hop : bytes[cursor]? = some opcode)
    (h : prefixes.vex.isSome = false → opcode ∉ [0x80, 0x81, 0x83] ∧ opcode ≠ 0xFF ∧
      (opcode = 0x0F → bytes[cursor + 1]? ≠ some 0xC7)) :
    decodeOpcode prefixes opcode bytes cursor pc = decodeOpcode prefixes opcode bytes cursor pc' := by
  unfold decodeOpcode
  split
  case isTrue => rfl
  case isFalse hv =>
    have hv : prefixes.vex.isSome = false := by simpa using hv
    have ⟨h₁, h₅, h₂⟩ := h hv
    simp only [modrmOffset, hop, hv, Option.bind_eq_bind, Option.bind_some, Bool.false_eq_true,
      if_false] at ho
    split at ho
    case isFalse h0F =>
      have ⟨format, hf, ho⟩ := Option.bind_eq_some_iff.mp ho
      split at ho
      case isFalse => cases ho
      case isTrue hm => exact decodeOneByteOpcode_pc pc pc' hf hm h₁ h₅ h0F
    case isTrue h0F =>
      have ⟨op2, hop2, ho⟩ := Option.bind_eq_some_iff.mp ho
      have hc : op2 ≠ 0xC7 := fun hc => h₂ h0F (hc ▸ hop2)
      have hm : op2 = 0x38 ∨ op2 = 0x3A ∨
          ∃ format, twoByteFormat op2 = some format ∧ format.modrm := by
        split at ho
        case isTrue h => exact h.elim .inl (.inr ∘ .inl)
        case isFalse =>
          have ⟨format, hf, ho⟩ := Option.bind_eq_some_iff.mp ho
          split at ho
          case isFalse => cases ho
          case isTrue hm => exact .inr (.inr ⟨format, hf, hm⟩)
      subst h0F
      change decodeTwoByte prefixes bytes cursor pc = decodeTwoByte prefixes bytes cursor pc'
      rw [decodeTwoByte_eq pc hop2, decodeTwoByte_eq pc' hop2, decodeTwoByteOpcode_pc pc pc' hm hc]

end Independence

section Address

variable {prefixes : PrefixSet} {bytes : List U8} {cursor : Nat} {m : MemOperand}

theorem memOperandAt_rip (h : memOperandAt rex bytes cursor = some m) (hr : m.base = .rip) :
    ∃ modrm, parseModrm bytes cursor = .ok modrm ∧ modrm.mod = 0 ∧ modrm.rm = 5 ∧
      dispAt bytes (cursor + 1) (dispBytes modrm.mod (modrm.rm ≠ 5)) = some m.disp := by
  simp only [memOperandAt, Option.bind_eq_bind, Option.bind_eq_some_iff, Option.map_eq_map,
    Option.map_eq_some_iff] at h
  obtain ⟨modrm, ⟨b, hb, hm⟩, h⟩ := h
  refine ⟨modrm, parseModrm_eq_ok.mpr ⟨b, hb, hm.symm⟩, ?_⟩
  split at h
  case isTrue => cases h
  case isFalse h3 =>
  split at h
  case isTrue =>
    simp only [Option.bind_eq_some_iff] at h
    obtain ⟨_, _, _, _, h⟩ := h
    cases h
    simp only [sibOperand] at hr
    split at hr <;> cases hr
  case isFalse =>
    simp only [Option.bind_eq_some_iff] at h
    obtain ⟨disp, hd, h⟩ := h
    cases h
    simp only at hr
    split at hr
    case isTrue hc => exact ⟨hc.left, hc.right, hd⟩
    case isFalse => cases hr

theorem bytesForModrm_rip {modrm : ModRm} (h0 : modrm.mod = 0) (h5 : modrm.rm = 5) :
    bytesForModrm modrm bytes cursor = .ok 5 := by
  rw [bytesForModrm, if_neg (by rw [h5]; decide), if_pos ⟨h0, h5⟩]
  rfl

theorem emitAddrWithSizeAt_rip {modrm : ModRm} (h0 : modrm.mod = 0) (h5 : modrm.rm = 5)
    (hd : dispAt bytes (cursor + 1) (dispBytes modrm.mod (modrm.rm ≠ 5)) = some m.disp) (rip : U64)
    (stmts : List Stmt) :
    emitAddrWithSizeAt modrm prefixes bytes cursor rip stmts =
      .ok ((stmts.length, 5), stmts ++ [⟨some stmts.length, .constant (rip + m.disp) .i64⟩]) := by
  have hs : parseOptionalSib modrm bytes (cursor + 1) = .ok none := by
    rw [parseOptionalSib, h5, if_neg fun h => absurd h.right (by decide)]
    rfl
  have ha := @decodeAddr_noSib bytes modrm prefixes _ _ (by rw [h0]; decide) (by rw [h5]; decide) hd
  rw [if_pos ⟨h0, h5⟩] at ha
  rw [emitAddrWithSizeAt, ← addSignedDisp_eq]
  refine lift_bind_eq_ok.mpr ⟨_, bytesForModrm_rip h0 h5, ?_⟩
  exact lift_bind_eq_ok.mpr ⟨_, hs, lift_bind_eq_ok.mpr ⟨_, ha, rfl⟩⟩

end Address

section Push

variable {I : List Stmt → Prop} (lhs rhs : Ref) (size : OpSize)

instance [h : KeepsSpec I (pushRef (.constant value size))] :
    KeepsSpec I (pushConstantRef value size) :=
  h

instance [h : KeepsSpec I (pushRef (.binOp op lhs rhs size))] :
    KeepsSpec I (pushBinopRef op lhs rhs size) :=
  h

instance [h : KeepsSpec I (pushStmt (.storeRflagsFromNzcv mode pf af))] :
    KeepsSpec I (pushStoreRflagsFromNzcv mode pf af) :=
  h

end Push

section Group1

-- The statements take no other address than that of the ref, which is a constant.
structure UsesOnly (addr : Ref) (value : U64) (stmts : List Stmt) : Prop where
  lt : addr < stmts.length
  base : constantBase stmts.reverse addr = some value
  bases : ∀ v ∈ addressBases false stmts.reverse, v = value

variable {addr : Ref} {value : U64} {op : Op}

theorem UsesOnly.append {stmt : Stmt} (h : UsesOnly addr value stmts) (hr : stmt.result ≠ some addr)
    (ha : addressRef false stmt.op = none ∨ addressRef false stmt.op = some addr) :
    UsesOnly addr value (stmts ++ [stmt]) := by
  constructor
  case lt => rw [List.length_append]; exact Nat.lt_add_right _ h.lt
  case base => rw [List.reverse_append, List.reverse_singleton, List.singleton_append, constantBase,
    if_neg hr, h.base]
  case bases =>
    intro v hv
    rw [List.reverse_append, List.reverse_singleton, List.singleton_append, addressBases,
      List.mem_append] at hv
    cases hv with
    | inr hv => exact h.bases v hv
    | inl hv =>
      cases ha with
      | inl ha => rw [ha] at hv; cases hv
      | inr ha => 
        rw [ha, Option.bind_some, h.base] at hv
        exact List.mem_singleton.mp hv

class NoAddress (op : Op) : Prop where
  eq : addressRef false op = none

instance (v s) : NoAddress (.constant v s) := ⟨rfl⟩
instance (k l r s) : NoAddress (.binOp k l r s) := ⟨rfl⟩
instance (c l r s) : NoAddress (.compare c l r s) := ⟨rfl⟩
instance (l r s) : NoAddress (.cmpFlags l r s) := ⟨rfl⟩
instance (k l r s) : NoAddress (.aluFlags k l r s) := ⟨rfl⟩
instance (k l r s) : NoAddress (.writeFlags k l r s) := ⟨rfl⟩
instance (f s) : NoAddress (.readCarryOut f s) := ⟨rfl⟩
instance : NoAddress .loadCarry := ⟨rfl⟩
instance (v) : NoAddress (.storeCarry v) := ⟨rfl⟩
instance (c p a) : NoAddress (.storeRflagsFromNzcv c p a) := ⟨rfl⟩
instance (p a z s o) : NoAddress (.storeRflagsFromBits p a z s o) := ⟨rfl⟩

instance [h : NoAddress op] : KeepsSpec (UsesOnly addr value) (pushRef op) where
  keeps := .fresh_push fun _ hu =>
    hu.append (fun hr => Nat.ne_of_gt hu.lt (Option.some.inj hr)) (.inl h.eq)

instance [h : NoAddress op] : KeepsSpec (UsesOnly addr value) (pushStmt op) where
  keeps := .push fun _ hu => hu.append nofun (.inl h.eq)

variable (lhs rhs result : Ref) (size : OpSize)

instance : KeepsSpec (UsesOnly addr value) (pushLowBitRef lhs size) := .derive

instance : KeepsSpec (UsesOnly addr value) (pushShiftedBitRef lhs shift size) := .derive

instance : KeepsSpec (UsesOnly addr value) (pushFoldRef lhs shift size) := .derive

instance : KeepsSpec (UsesOnly addr value) (pushEvenParityLowByteRef lhs size) := .derive

instance : KeepsSpec (UsesOnly addr value) (pushAuxFlagRef lhs rhs result size) := .derive

instance : KeepsSpec (UsesOnly addr value) (pushPfAfForAlu kind lhs rhs result size) := .derive

instance : KeepsSpec (UsesOnly addr value) (pushCmpFlags lhs rhs size) := .derive

instance : KeepsSpec (UsesOnly addr value) (pushAluFlags kind lhs rhs size) :=
  .derive (pushAluFlags.eq_1 ..)

instance : KeepsSpec (UsesOnly addr value) (pushOverflowWord isSbb lhs rhs result size) :=
  .derive (pushOverflowWord.eq_1 ..)

instance : KeepsSpec (UsesOnly addr value) (pushAdcSbbRflagsBits isSbb lhs rhs result size) := .derive

instance : KeepsSpec (UsesOnly addr value) (emitAdcSbbValue isSbb lhs rhs size) := .derive

instance : KeepsSpec (UsesOnly addr value) (RmOperand.store (.mem addr) lhs size) where
  keeps := .push fun _ hu => hu.append nofun (.inr rfl)

instance : KeepsSpec (UsesOnly addr value) (emitGroup1 reg (.mem addr) lhs rhs size) :=
  .derive (emitGroup1.eq_1 ..)

theorem decodeAluRmImm_addresses {prefixes : PrefixSet}
    (h : memOperandAt prefixes.rex bytes (cursor + 1) = some m) (hr : m.base = .rip)
    (hd : decodeAluRmImm prefixes opcode bytes cursor pc [] = .ok (n, stmts)) :
    ∀ v ∈ addressBases false stmts.reverse, v = pc + BitVec.ofNat 64 n + m.disp := by
  have ⟨modrm, hm, h0, h5, hdisp⟩ := memOperandAt_rip h hr
  rw [decodeAluRmImm] at hd
  have ⟨_, hm', hd⟩ := lift_bind_eq_ok.mp hd
  cases hm.symm.trans hm'
  have ⟨_, hn, hd⟩ := lift_bind_eq_ok.mp hd
  cases (bytesForModrm_rip h0 h5).symm.trans hn
  have ⟨immBytes, _, hd⟩ := lift_bind_eq_ok.mp hd
  have ⟨imm, _, hd⟩ := lift_bind_eq_ok.mp hd
  have ⟨immRef, stmts₁, hi, hd⟩ := bind_eq_ok.mp hd
  cases hi
  have ⟨⟨dst, used⟩, stmts₂, ha, hd⟩ := bind_eq_ok.mp hd
  rw [rmOperandAt, if_neg (by rw [h0]; decide)] at ha
  have ⟨_, _, ha, hr⟩ := bind_eq_ok.mp ha
  rw [emitAddrWithSizeAt_rip h0 h5 hdisp] at ha
  cases ha
  cases hr
  have ⟨lhs, stmts₃, hl, hd⟩ := bind_eq_ok.mp hd
  have ⟨_, stmts₄, hg, hd⟩ := bind_eq_ok.mp hd
  cases hd
  cases hl
  have hu : UsesOnly 1 (pc + BitVec.ofNat 64 (1 + 5 + immBytes) + m.disp)
      [⟨some 0, .constant imm (aluRmImmSize prefixes opcode)⟩,
        ⟨some 1, .constant (pc + BitVec.ofNat 64 (1 + 5 + immBytes) + m.disp) .i64⟩,
        ⟨some 2, .loadMem 1 (aluRmImmSize prefixes opcode)⟩] :=
    ⟨Nat.lt_of_sub_eq_succ rfl, rfl, fun v hv => List.mem_singleton.mp hv⟩
  change emitGroup1 modrm.reg (.mem 1) 2 0 _ _ = _ at hg
  exact (KeepsSpec.keeps _ _ _ hu hg).bases

end Group1

section OtherGroups

variable {prefixes : PrefixSet} {bytes : List U8} {cursor n : Nat} {pc : U64} {stmts : List Stmt}

-- The return address of an indirect call is all that depends on the address of the instruction.
theorem decodeGroup5_pc (lea : Bool) (pc' : U64)
    (h : decodeGroup5 prefixes bytes cursor pc [] = .ok (n, stmts)) :
    ∃ stmts', decodeGroup5 prefixes bytes cursor pc' [] = .ok (n, stmts') ∧
      addressBases lea stmts'.reverse = addressBases lea stmts.reverse := by
  have ⟨modrm, hm, h⟩ := lift_bind_eq_ok.mp h
  by_cases h2 : modrm.reg = 2
  case pos =>
    rw [h2] at h
    have ⟨⟨targetRef, used⟩, stmts₁, ht, h⟩ := bind_eq_ok.mp h
    cases h
    refine ⟨stmts₁ ++ [⟨none, .callReg targetRef (addSignedDisp pc' (.ofNat 64 (1 + used)))⟩],
      lift_bind_eq_ok.mpr ⟨modrm, hm, ?_⟩, by simp [addressBases, addressRef]⟩
    rw [h2]
    exact bind_eq_ok.mpr ⟨_, _, ht, rfl⟩
  case neg =>
    refine ⟨stmts, lift_bind_eq_ok.mpr ⟨modrm, hm, ?_⟩, rfl⟩
    rcases numbers modrm.reg with hr | hr | hr | hr | hr | hr | hr | hr
    case inr.inr.inl => exact absurd hr h2
    all_goals rw [hr] at h ⊢; exact h

structure HasBase (addr : Ref) (value : U64) (stmts : List Stmt) : Prop where
  lt : addr < stmts.length
  base : constantBase stmts.reverse addr = some value

def UsesAddress (value : U64) (stmts : List Stmt) : Prop :=
  value ∈ addressBases false stmts.reverse

variable {addr : Ref} {value : U64} {op : Op}

instance : KeepsSpec (HasBase addr value) (pushRef op) where
  keeps := .fresh_push fun stmts ⟨hlt, hb⟩ => by
    constructor
    · rw [List.length_append]; exact Nat.lt_add_right _ hlt
    · have hne : ¬some stmts.length = some addr := fun h => Nat.ne_of_gt hlt (Option.some.inj h)
      rw [List.reverse_append, List.reverse_singleton, List.singleton_append, constantBase,
        if_neg hne, hb]

instance : KeepsSpec (HasBase addr value) allocRef where
  keeps := fun stmts _ _ h hm => by cases hm; exact h

theorem UsesAddress.append (stmt : Stmt) (h : UsesAddress value stmts) :
    UsesAddress value (stmts ++ [stmt]) := by
  rw [UsesAddress, List.reverse_append, List.reverse_singleton, List.singleton_append, addressBases]
  exact List.mem_append_right _ h

instance : KeepsSpec (UsesAddress value) (pushRef op) where
  keeps := .fresh_push fun _ hu => hu.append _

instance : KeepsSpec (UsesAddress value) (pushStmt op) where
  keeps := .push fun _ hu => hu.append _

theorem leads_push (h : addressRef false op = some addr) :
    Leads (HasBase addr value) (UsesAddress value) (push result op) := by
  intro stmts a stmts' hb hm
  cases hm
  rw [UsesAddress, List.reverse_append, List.reverse_singleton, List.singleton_append, addressBases,
    h, Option.bind_some, hb.base]
  exact List.mem_cons_self

theorem leads_pushRef (h : addressRef false op = some addr) :
    Leads (HasBase addr value) (UsesAddress value) (pushRef op) :=
  .skip fun _ => .here (leads_push h)

theorem emitCmpxchg16b_leads :
    Leads (HasBase addr value) (UsesAddress value) (emitCmpxchg16b addr) := by
  unfold emitCmpxchg16b
  iterate 6 refine .skip fun _ => ?_
  exact .here (leads_push rfl)

theorem emitCmpxchg8b_leads :
    Leads (HasBase addr value) (UsesAddress value) (emitCmpxchg8b addr) := by
  unfold emitCmpxchg8b
  iterate 11 refine .skip fun _ => ?_
  exact .here (leads_pushRef rfl)

-- CMPXCHG8B and CMPXCHG16B take the opcode to have one byte.
theorem decodeCmpxchg8b16b_addresses (h : memOperandAt prefixes.rex bytes (cursor + 1) = some m)
    (hr : m.base = .rip)
    (hd : decodeCmpxchg8b16b prefixes opcode bytes cursor pc [] = .ok (n, stmts)) :
    n = 6 ∧ UsesAddress (pc + 6 + m.disp) stmts := by
  have ⟨modrm, hm, h0, h5, hdisp⟩ := memOperandAt_rip h hr
  rw [decodeCmpxchg8b16b] at hd
  have ⟨_, _, hd⟩ := lift_bind_eq_ok.mp hd
  have ⟨_, hm', hd⟩ := lift_bind_eq_ok.mp hd
  cases hm.symm.trans hm'
  have ⟨_, _, hd⟩ := lift_bind_eq_ok.mp hd
  have ⟨_, hn, hd⟩ := lift_bind_eq_ok.mp hd
  cases (bytesForModrm_rip h0 h5).symm.trans hn
  have ⟨⟨addr, used⟩, stmts₁, ha, hd⟩ := bind_eq_ok.mp hd
  rw [emitAddrWithSizeAt_rip h0 h5 hdisp] at ha
  cases ha
  dsimp only at hd
  have hb : HasBase 0 (pc + 6 + m.disp) [⟨some 0, .constant (pc + 6 + m.disp) .i64⟩] :=
    ⟨Nat.zero_lt_one, rfl⟩
  split at hd
  case isTrue =>
    have ⟨_, _, he, hd⟩ := bind_eq_ok.mp hd
    cases hd
    exact ⟨rfl, emitCmpxchg16b_leads _ _ _ hb he⟩
  case isFalse =>
    have ⟨_, _, he, hd⟩ := bind_eq_ok.mp hd
    cases hd
    exact ⟨rfl, emitCmpxchg8b_leads _ _ _ hb he⟩

end OtherGroups

section Main

variable {bytes : List U8} {offset : Nat} {disp : U64}

theorem ripDispAt_eq_some (h : ripDispAt bytes offset = some disp) :
    ∃ o m, modrmOffset (parsePrefixes bytes offset).1.vex.isSome bytes (parsePrefixes bytes offset).2 =
        some o ∧
      memOperandAt (parsePrefixes bytes offset).1.rex bytes o = some m ∧ m.base = .rip ∧
      m.disp = disp := by
  simp only [ripDispAt, Option.bind_eq_bind, Option.bind_eq_some_iff] at h
  have ⟨o, ho, m, hm, h⟩ := h
  split at h
  case isFalse => cases h
  case isTrue hr => cases h; exact ⟨o, m, ho, hm, hr, rfl⟩

-- The address of the operand is the end of the instruction plus the displacement.
def AddressesOperand (bytes : List U8) (offset : Nat) (pc disp : U64) (d : Decoded) : Prop :=
  ∀ v ∈ addresses bytes offset d, v = pc + BitVec.ofNat 64 d.bytesConsumed + disp

variable {pc₀ : U64} {d₀ : Decoded}

variable {prefixes : PrefixSet} {cursor n : Nat} {opcode : U8}

theorem hasOpcode_eq (opcodes : List U8) (hp : parsePrefixes bytes offset = (prefixes, cursor))
    (hop : bytes[cursor]? = some opcode) :
    hasOpcode opcodes bytes offset = (!prefixes.vex.isSome && decide (opcode ∈ opcodes)) := by
  simp [hasOpcode, hp, hop]

section Prefixes

variable (hp : parsePrefixes bytes offset = (prefixes, cursor))

include hp

-- An address that is the same wherever the instruction stands is wrong in all places but one.
theorem not_addressesOperand (hop : bytes[cursor]? = some opcode)
    (ha : addresses bytes offset d₀ ≠ [])
    (h : ∀ pc, ∃ stmts, decodeOpcode prefixes opcode bytes cursor pc [] = .ok (n, stmts) ∧
      addressBases (hasOpcode [0x8D] bytes offset) stmts.reverse = addresses bytes offset d₀) :
    ¬∀ pc d, decodeOneAt bytes offset pc = .ok d → AddressesOperand bytes offset pc disp d := by
  intro hall
  have ⟨v, hv⟩ := List.exists_mem_of_ne_nil _ ha
  have hat (pc : U64) : v = pc + BitVec.ofNat 64 (cursor - offset + n) + disp := by
    have ⟨stmts, hd, haddr⟩ := h (pc + BitVec.ofNat 64 (cursor - offset))
    exact hall pc _ (decodeOneAt_of_decodeOpcode hp hop hd) v (by rwa [addresses, haddr])
  have h01 := (hat 0).symm.trans (hat 1)
  rw [add_left_inj, add_left_inj] at h01
  exact absurd h01 (by decide)

theorem addressesOperand_of_group1 (hop : bytes[cursor]? = some opcode)
    (hv : prefixes.vex.isSome = false)
    (ho : opcode ∈ [0x80, 0x81, 0x83]) (hm : memOperandAt prefixes.rex bytes (cursor + 1) = some m)
    (hr : m.base = .rip) (h : decodeOneAt bytes offset pc = .ok d) :
    AddressesOperand bytes offset pc m.disp d := by
  have ⟨_, n, hop', hrun, hn⟩ := decodeOneAt_eq_ok h
  rw [hp] at hop' hrun hn
  cases hop.symm.trans hop'
  have hlea : hasOpcode [0x8D] bytes offset = false := by
    rw [hasOpcode_eq _ hp hop, hv]
    rcases (by simpa using ho) with ho | ho | ho <;> rw [ho] <;> rfl
  have hd : decodeAluRmImm prefixes opcode bytes cursor
      (pc + BitVec.ofNat 64 (cursor - offset)) [] = .ok (n, d.stmts) := by
    rw [← hrun, decodeOpcode, hv]
    rcases (by simpa using ho) with ho | ho | ho <;> rw [ho] <;> rfl
  intro v hv
  rw [addresses, hlea] at hv
  rw [decodeAluRmImm_addresses hm hr hd v hv, hn, BitVec.ofNat_add, ← add_assoc]

theorem not_addressesOperand_cmpxchg (hop : bytes[cursor]? = some 0x0F)
    (hop2 : bytes[cursor + 1]? = some 0xC7)
    (hv : prefixes.vex.isSome = false) (hm : memOperandAt prefixes.rex bytes (cursor + 2) = some m)
    (hr : m.base = .rip) (h₀ : decodeOneAt bytes offset pc₀ = .ok d₀) :
    ¬AddressesOperand bytes offset pc₀ m.disp d₀ := by
  intro hall
  obtain ⟨_, n, hop', hrun, hn⟩ := decodeOneAt_eq_ok h₀
  rw [hp] at hop' hrun hn
  cases hop.symm.trans hop'
  rw [decodeOpcode, hv] at hrun
  have hrun : decodeTwoByte prefixes bytes cursor (pc₀ + BitVec.ofNat 64 (cursor - offset)) [] =
      .ok (n, d₀.stmts) := hrun
  rw [decodeTwoByte_eq _ hop2, map_eq_pure_bind] at hrun
  obtain ⟨n', _, hd, hpure⟩ := bind_eq_ok.mp hrun
  cases hpure
  obtain ⟨hn', hu⟩ := decodeCmpxchg8b16b_addresses hm hr hd
  subst hn'
  have hlea : hasOpcode [0x8D] bytes offset = false := by
    rw [hasOpcode_eq _ hp hop, hv]
    rfl
  have heq := hall _ (by rwa [addresses, hlea])
  rw [hn, BitVec.ofNat_add, ← add_assoc, add_left_inj, add_right_inj] at heq
  exact absurd heq (by decide)

end Prefixes

-- Of the instructions that use the address of a RIP-relative operand, only those with the opcodes 80,
-- 81 and 83 compute it right wherever they stand.
theorem decodeOneAt_ripRelative_iff (hrip : ripDispAt bytes offset = some disp)
    (h₀ : decodeOneAt bytes offset pc₀ = .ok d₀) (ha : addresses bytes offset d₀ ≠ []) :
    (∀ pc d, decodeOneAt bytes offset pc = .ok d → AddressesOperand bytes offset pc disp d) ↔
      hasOpcode [0x80, 0x81, 0x83] bytes offset := by
  obtain ⟨o, m, ho, hm, hr, hdisp⟩ := ripDispAt_eq_some hrip
  obtain ⟨opcode, n, hop, hrun, hn⟩ := decodeOneAt_eq_ok h₀
  generalize hp : parsePrefixes bytes offset = p at ho hm hop hrun hn
  obtain ⟨prefixes, cursor⟩ := p
  dsimp only at ho hm hop hrun hn
  rw [hasOpcode_eq _ hp hop]
  subst hdisp
  -- the statements are the same at every address
  have hfixed (h : prefixes.vex.isSome = false → opcode ∉ [0x80, 0x81, 0x83] ∧ opcode ≠ 0xFF ∧
      (opcode = 0x0F → bytes[cursor + 1]? ≠ some 0xC7)) :
      ¬∀ pc d, decodeOneAt bytes offset pc = .ok d → AddressesOperand bytes offset pc m.disp d :=
    not_addressesOperand hp hop ha fun pc => ⟨d₀.stmts, by rw [← hrun, decodeOpcode_pc _ _ ho hop h],
      rfl⟩
  by_cases hv : prefixes.vex.isSome
  case pos => simpa [hv] using hfixed (by simp [hv])
  case neg =>
    have hv : prefixes.vex.isSome = false := by simpa using hv
    simp only [modrmOffset, hop, hv, Option.bind_eq_bind, Option.bind_some, Bool.false_eq_true,
      if_false] at ho
    simp only [hv, Bool.not_false, Bool.true_and, decide_eq_true_eq]
    by_cases h₁ : opcode ∈ [0x80, 0x81, 0x83]
    case pos =>
      have ho : o = cursor + 1 := by
        rcases (by simpa using h₁) with h | h | h <;> rw [h] at ho <;> exact (Option.some.inj ho).symm
      subst ho
      exact ⟨fun _ => h₁, fun _ pc d hd => addressesOperand_of_group1 hp hop hv h₁ hm hr hd⟩
    case neg =>
      refine iff_of_false ?_ h₁
      by_cases h₅ : opcode = 0xFF
      case pos =>
        subst h₅
        have he (pc : U64) : decodeOpcode prefixes 0xFF bytes cursor pc =
            decodeGroup5 prefixes bytes cursor pc := by
          rw [decodeOpcode, hv]
          rfl
        rw [he] at hrun
        refine not_addressesOperand (n := n) hp hop ha fun pc => ?_
        rw [he]
        exact decodeGroup5_pc _ pc hrun
      case neg =>
      by_cases h₂ : opcode = 0x0F ∧ bytes[cursor + 1]? = some 0xC7
      case pos =>
        obtain ⟨h0F, hop2⟩ := h₂
        subst h0F
        rw [hop2] at ho
        have ho : o = cursor + 2 := (Option.some.inj ho).symm
        subst ho
        intro hall
        exact not_addressesOperand_cmpxchg hp hop hop2 hv hm hr h₀ (hall pc₀ d₀ h₀)
      case neg => exact hfixed fun _ => ⟨h₁, h₅, fun h0F h => h₂ ⟨h0F, h⟩⟩

-- `add dword [rip + 0x10], 1`
theorem decodeOneAt_ripRelative_iff_add :
    ∃ d, decodeOneAt [0x83, 0x05, 0x10, 0x00, 0x00, 0x00, 0x01] 0 0x1000 = .ok d ∧
      AddressesOperand [0x83, 0x05, 0x10, 0x00, 0x00, 0x00, 0x01] 0 0x1000 0x10 d := by
  have hrip : ripDispAt [0x83, 0x05, 0x10, 0x00, 0x00, 0x00, 0x01] 0 = some 0x10 := by decide
  have ⟨d, hd, ha⟩ : ∃ d, decodeOneAt [0x83, 0x05, 0x10, 0x00, 0x00, 0x00, 0x01] 0 0x1000 = .ok d ∧
      addresses [0x83, 0x05, 0x10, 0x00, 0x00, 0x00, 0x01] 0 d ≠ [] := ⟨_, rfl, by decide +kernel⟩
  exact ⟨d, hd, (decodeOneAt_ripRelative_iff hrip hd ha).mpr (by decide) 0x1000 d hd⟩

-- `mov eax, [rip + 0x10]`
theorem decodeOneAt_not_ripRelative :
    ¬∀ (bytes : List U8) (offset : Nat) (pc disp : U64) (d : Decoded),
      ripDispAt bytes offset = some disp → decodeOneAt bytes offset pc = .ok d →
      AddressesOperand bytes offset pc disp d := by
  intro h
  have h := h [0x8B, 0x05, 0x10, 0x00, 0x00, 0x00] 0 0x1000 0x10 _ (by decide) rfl 0x10 (by decide)
  revert h
  decide

end Main

end Prisma.Decoder
