import Prisma.Lib.Tally
import Prisma.Translator.Fuse
import Prisma.Translator.Theorems.Flags

namespace Prisma.Translator

open Machine Decoder List Option

section Blocks

def blockStep (insn : List Stmt) (regs : GuestRegs) : Step GuestRegs (BlockOutcome × GuestRegs) :=
  match interpretBlock insn regs with
  | some (.fallthrough, regs') => .next regs'
  | some o => .halt o
  | none => .panic

-- The instructions one after the other, each as a block of its own.
def runSeparately (insns : List (List Stmt)) (regs : GuestRegs) :
    Option (BlockOutcome × GuestRegs) :=
  run blockStep (fun regs => (.fallthrough, regs)) insns regs

-- An instruction that finds no SSA values, but the flags that the previous one has left.
def liveStep (insn : List Stmt) (cpu : Cpu) : Step Cpu (BlockOutcome × GuestRegs) :=
  (exec step insn { env := .empty, cpu }).bind fun s => .next s.cpu

end Blocks

section Renumber

variable {base : Ref} {insn : List Stmt} {insns : List (List Stmt)} {stmts : List Stmt}

theorem add_le_localMax (h : r ∈ refsOf insn) : r + base ≤ localMax base insn :=
  (le_foldl_max (f := (· + base))).right r h

theorem result_mem_refsOf (h : stmt ∈ insn) (hd : stmt.result = some d) : d ∈ refsOf insn :=
  mem_flatMap.mpr ⟨stmt, h, mem_append_left _ (Stmt.mem_defs_of_result hd)⟩

theorem base_le_localMax : base ≤ localMax base insn :=
  (le_foldl_max (f := (· + base))).left

-- `t` runs an instruction with its own refs, `s` with the refs shifted by `base`. All refs above
-- `top` are still free in `s`.
structure Shifted (base top : Ref) (s t : State) : Prop where
  cpu : s.cpu = t.cpu
  vals : ∀ r, s.env.vals (r + base) = t.env.vals r
  vecVals : ∀ r, s.env.vecVals (r + base) = t.env.vecVals r
  free : ∀ r, top < r → s.env.vals r = 0 ∧ s.env.vecVals r = 0

theorem Env.define_add (result : Option Ref) (value : Value) {env env' : Env}
    (hv : env.vals (r + base) = env'.vals r) (hw : env.vecVals (r + base) = env'.vecVals r) :
    (env.define (result.map (· + base)) value).vals (r + base) = (env'.define result value).vals r ∧
    (env.define (result.map (· + base)) value).vecVals (r + base) =
      (env'.define result value).vecVals r := by
  cases result <;> cases value <;> simp [Env.define, Function.update_apply, hv, hw]

theorem Shifted.step {stmt : Stmt} (h : Shifted base top s t)
    (htop : ∀ d, stmt.result = some d → d + base ≤ top) :
    Step.Rel (Shifted base top) (step (stmt.mapRefs (· + base)) s) (step stmt t) := by
  have he : evalOp (stmt.op.mapRefs (· + base)) stmt.result.isSome s.env s.cpu =
      evalOp stmt.op stmt.result.isSome t.env t.cpu := by
    rw [h.cpu]
    exact evalOp_mapRefs (fun r _ => h.vals r) fun r _ => h.vecVals r
  have hr : (stmt.mapRefs (· + base)).result.isSome = stmt.result.isSome := isSome_map ..
  simp only [Prisma.step]
  refine (Step.Rel.of_eq (hr ▸ he)).bind ?_
  rintro ⟨cpu, value⟩ _ heq
  subst heq
  have hd := fun r => Env.define_add stmt.result value (h.vals r) (h.vecVals r)
  refine .next ⟨rfl, fun r => (hd r).left, fun r => (hd r).right, fun r hr => ?_⟩
  have hne : (stmt.mapRefs (· + base)).result ≠ some r := by
    intro he
    obtain ⟨d, hd, hdr⟩ := map_eq_some_iff.mp he
    exact Nat.lt_irrefl _ (Nat.lt_of_lt_of_le hr (hdr ▸ htop d hd))
  simp only [Env.define_vals_of_ne hne, Env.define_vecVals_of_ne hne]
  exact h.free r hr

-- With disjoint ranges, every instruction of a fused block starts as if there were no SSA values.
theorem exec_fuse {s : State} (hd : DisjointRanges base insns) (h : fuse base insns = some stmts)
    (hs : ∀ r, base ≤ r → s.env.vals r = 0 ∧ s.env.vecVals r = 0) :
    Step.Rel (fun s cpu => s.cpu = cpu) (exec step stmts s) (exec liveStep insns s.cpu) := by
  induction insns generalizing base stmts s with
  | nil =>
    simp only [fuse, Option.some.injEq] at h
    exact h ▸ .next rfl
  | cons insn insns ih =>
    simp only [fuse, Option.bind_eq_bind, Option.bind_eq_some_iff, Option.pure_def,
      Option.some.injEq] at h
    have ⟨renumbered, hr, rest, hrest, he⟩ := h
    simp only [renumber, Option.ite_none_right_eq_some, Option.some.injEq] at hr
    have ⟨_, hr⟩ := hr
    subst hr he
    simp only [exec_append, exec_cons, liveStep, Step.bind_assoc, Step.bind_next]
    have hstart : Shifted base (localMax base insn) s { env := .empty, cpu := s.cpu } :=
      ⟨rfl, fun r => (hs _ (Nat.le_add_left ..)).left, fun r => (hs _ (Nat.le_add_left ..)).right,
        fun r hr => hs r (Nat.le_of_lt (Nat.lt_of_le_of_lt base_le_localMax hr))⟩
    have hinsn : Step.Rel (Shifted base (localMax base insn))
        (exec step (insn.map (·.mapRefs (· + base))) s)
        (exec step insn { env := .empty, cpu := s.cpu }) :=
      exec_map_rel (fun stmt hm s t h => h.step fun d hd => add_le_localMax
        (result_mem_refsOf hm hd)) hstart
    refine hinsn.bind fun s' t' h' => ?_
    rw [← h'.cpu]
    cases insns with
    | nil =>
      simp only [fuse, Option.some.injEq] at hrest
      exact hrest ▸ .next rfl
    | cons insn' insns' =>
      have hlt := hd.left (List.cons_ne_nil _ _)
      have hnext : nextBase base insn = localMax base insn + 1 := Nat.min_eq_left hlt
      exact ih hd.right hrest fun r hr => h'.free r (Nat.le_trans (Nat.le_of_eq hnext.symm) hr)

end Renumber

section Flags

-- Statement by statement, the instruction makes the same of the flags it finds in `cpu` as of the
-- flags that it restores from the persisted RFLAGS when it runs alone.
def ReadsOwnFlags (insn : List Stmt) (cpu : Cpu) : Prop :=
  Along step (fun alone stmt _ => follow step alone stmt)
    (fun alone stmt s => ConsultsAlike stmt s.env s.cpu alone.cpu)
    (.entry cpu.regs) insn { env := .empty, cpu }

instance (insn : List Stmt) (cpu : Cpu) : Decidable (ReadsOwnFlags insn cpu) :=
  inferInstanceAs (Decidable (Along ..))

-- Every instruction that the fused block executes reads its own flags.
def FlagsAgree (insns : List (List Stmt)) (regs : GuestRegs) : Prop :=
  Along liveStep (fun _ _ _ => ()) (fun _ insn cpu => ReadsOwnFlags insn cpu) () insns (.entry regs)

instance (insns : List (List Stmt)) (regs : GuestRegs) : Decidable (FlagsAgree insns regs) :=
  inferInstanceAs (Decidable (Along ..))

variable {insn : List Stmt} {insns : List (List Stmt)} {cpu : Cpu} {regs : GuestRegs}

theorem evalOp_halt_ne_fallthrough (h : evalOp op hasResult env cpu = .halt (o, regs)) :
    o ≠ .fallthrough := by
  rintro rfl
  cases op
  all_goals
    simp only [evalOp] at h
    repeat' split at h
    all_goals cases h

theorem exec_halt_ne_fallthrough (h : exec step insn s = .halt (o, regs)) : o ≠ .fallthrough := by
  induction insn generalizing s with
  | nil => cases h
  | cons stmt insn ih =>
    simp only [exec_cons, Prisma.step] at h
    cases he : evalOp stmt.op stmt.result.isSome s.env s.cpu with
    | next r =>
      simp only [he, Step.bind_next] at h
      exact ih h
    | halt o' =>
      simp only [he, Step.bind_halt, Step.halt.injEq] at h
      exact evalOp_halt_ne_fallthrough (h ▸ he)
    | panic => simp [he] at h

theorem blockStep_eq : blockStep insn regs =
    (exec step insn (.entry regs)).bind fun s => .next s.cpu.regs := by
  simp only [blockStep, interpretBlock, run]
  cases he : exec step insn (.entry regs) with
  | next s => rfl
  | halt o =>
    have hne := exec_halt_ne_fallthrough he
    simp only [Step.outcome, Step.bind_halt]
    split
    case h_1 h => cases h; exact absurd rfl hne
    case h_2 h => cases h; rfl
    case h_3 h => cases h
  | panic => rfl

theorem ReadsOwnFlags.rel (h : ReadsOwnFlags insn cpu) :
    Step.Rel (fun cpu regs => cpu.regs = regs) (liveStep insn cpu) (blockStep insn cpu.regs) := by
  rw [blockStep_eq]
  have hrel : Step.Rel _ (exec step insn { env := .empty, cpu }) (exec step insn (.entry cpu.regs)) :=
    Along.rel (R := fun alone s t => alone = t ∧ s.env = t.env ∧ Tracks s.cpu t.cpu)
      (fun alone stmt s t ⟨ha, henv, ht⟩ hc => by
        subst ha
        exact (ht.step henv hc).follow)
      ⟨rfl, rfl, .of_not_live rfl rfl⟩ h
  exact hrel.bind fun s t ⟨_, _, _, ht⟩ => .next ht.regs

theorem FlagsAgree.rel (h : FlagsAgree insns regs) :
    Step.Rel (fun cpu regs => cpu.regs = regs) (exec liveStep insns (.entry regs))
      (exec blockStep insns regs) := by
  have hrel : Step.Rel _ (exec liveStep insns (.entry regs)) (exec blockStep insns regs) :=
    Along.rel (R := fun _ cpu regs => cpu.regs = regs)
      (fun _ insn cpu regs hr hi => hr ▸ hi.rel) rfl h
  exact hrel.mono fun _ _ ⟨_, h⟩ => h

-- The fused block runs the instructions with the flags flowing from one to the next.
theorem interpretBlock_fuse (hf : fuse 0 insns = some stmts) (hd : DisjointRanges 0 insns) :
    interpretBlock stmts regs =
      run liveStep (fun cpu => (.fallthrough, cpu.regs)) insns (.entry regs) := by
  have hrel := exec_fuse (s := .entry regs) hd hf fun _ _ => ⟨rfl, rfl⟩
  exact hrel.outcome fun s cpu h => by rw [← h]; rfl

-- The block that `optimize_fused_block` builds does what its instructions do one by one if these
-- read their own flags.
theorem fuse_preserves {stmts : List Stmt} (hf : fuse 0 insns = some stmts)
    (hd : DisjointRanges 0 insns) (h : FlagsAgree insns regs) :
    interpretBlock stmts regs = runSeparately insns regs := by
  rw [interpretBlock_fuse hf hd]
  exact h.rel.outcome fun cpu regs h => by rw [h]

theorem ConsultsAlike.refl (stmt : Stmt) (env : Env) (cpu : Cpu) :
    ConsultsAlike stmt env cpu cpu := by
  unfold ConsultsAlike
  split <;> simp

theorem ReadsOwnFlags.entry : ReadsOwnFlags insn (.entry regs) := by
  have h : ∀ s : State, Along step (fun alone stmt _ => follow step alone stmt)
      (fun alone stmt s => ConsultsAlike stmt s.env s.cpu alone.cpu) s insn s := by
    induction insn with
    | nil => exact fun _ => trivial
    | cons stmt insn ih =>
      intro s
      refine ⟨.refl .., ?_⟩
      simp only [follow]
      cases Prisma.step stmt s with
      | next s' => exact ih s'
      | halt | panic => exact trivial
  exact h _

section Branch

variable {cc : CondCode} {target fallthrough : U64}

theorem liveStep_condJumpRel : liveStep [⟨none, .condJumpRel cc target fallthrough⟩] cpu =
    .halt (.branch (if evalCc cc cpu.restoreFlags.flags then target else fallthrough), cpu.regs) :=
  rfl

theorem blockStep_condJumpRel : blockStep [⟨none, .condJumpRel cc target fallthrough⟩] regs =
    .halt (.branch (if evalCc cc (Cpu.entry regs).restoreFlags.flags then target else fallthrough),
      regs) :=
  rfl

theorem readsOwnFlags_condJumpRel :
    ReadsOwnFlags [⟨none, .condJumpRel cc target fallthrough⟩] cpu ↔
      evalCc cc cpu.restoreFlags.flags = evalCc cc (Cpu.entry cpu.regs).restoreFlags.flags ∨
        target = fallthrough :=
  and_iff_left trivial

-- The condition is exact: a conditional jump behind an arbitrary instruction goes the same way if
-- and only if it makes the same of the live flags and of the persisted RFLAGS.
theorem fuse_branch_preserves_iff
    (hf : fuse 0 [insn, [⟨none, .condJumpRel cc target fallthrough⟩]] = some stmts)
    (hd : DisjointRanges 0 [insn, [⟨none, .condJumpRel cc target fallthrough⟩]]) :
    interpretBlock stmts regs =
        runSeparately [insn, [⟨none, .condJumpRel cc target fallthrough⟩]] regs ↔
      FlagsAgree [insn, [⟨none, .condJumpRel cc target fallthrough⟩]] regs := by
  have hentry : ReadsOwnFlags insn (.entry regs) := .entry
  have hrel : Step.Rel _ (liveStep insn (.entry regs)) (blockStep insn regs) := hentry.rel
  rw [interpretBlock_fuse hf hd]
  simp only [FlagsAgree, Along, hentry, true_and, run, runSeparately, exec_cons]
  generalize liveStep insn (.entry regs) = r at hrel ⊢
  generalize blockStep insn regs = r' at hrel ⊢
  cases hrel with
  | @next cpu _ h =>
    subst h
    simp only [Step.bind_next, exec_singleton, liveStep_condJumpRel, blockStep_condJumpRel,
      readsOwnFlags_condJumpRel, Step.outcome, and_true, Option.some.injEq, Prod.mk.injEq,
      BlockOutcome.branch.injEq]
    generalize evalCc cc cpu.restoreFlags.flags = b
    generalize evalCc cc (Cpu.entry cpu.regs).restoreFlags.flags = c
    cases b <;> cases c <;> simp [eq_comm]
  | halt o => simp [Step.outcome]
  | panic => simp [Step.outcome]

end Branch

-- The statements that one instruction is decoded to.
def IsDecoded (insn : List Stmt) : Prop :=
  ∃ bytes offset pc d, decodeOneAt bytes offset pc = .ok d ∧ d.stmts = insn

-- No instruction but the last transfers control.
def EndsAtTerminator (insns : List (List Stmt)) : Prop :=
  ∀ insn ∈ insns.dropLast, ∀ stmt ∈ insn, isTerminator stmt.op = false

instance (insns : List (List Stmt)) : Decidable (EndsAtTerminator insns) :=
  inferInstanceAs (Decidable (∀ _ ∈ _, _))

def stmtsOf (bytes : List U8) (pc : U64) : List Stmt :=
  match decodeOneAt bytes 0 pc with
  | .ok d => d.stmts
  | .error _ => []

-- CMP EAX, ECX followed by a conditional jump.
def compareBranch (jcc : U8) : List (List Stmt) :=
  [stmtsOf [0x39, 0xC8] 0, stmtsOf [jcc, 0x05] 2]

-- JE reads ZF, which is the same in the live flags and in RFLAGS.
theorem fuse_preserves_compareBranch : ∃ stmts, fuse 0 (compareBranch 0x74) = some stmts ∧
    interpretBlock stmts .default = runSeparately (compareBranch 0x74) .default :=
  ⟨_, rfl, fuse_preserves rfl (by decide +kernel) (by decide +kernel)⟩

-- JB reads the carry, which is inverted in the live flags.
theorem fuse_not_preserves :
    ¬∀ insns stmts regs, (∀ insn ∈ insns, IsDecoded insn) → EndsAtTerminator insns →
      fuse 0 insns = some stmts → DisjointRanges 0 insns →
      (∀ o ∈ interpretBlock stmts regs, o.1.supported) →
      (∀ o ∈ runSeparately insns regs, o.1.supported) →
      interpretBlock stmts regs = runSeparately insns regs := by
  intro h
  let regs : GuestRegs := { GuestRegs.default with gpr := fun r => if r = .rcx then 1 else 0 }
  have hi : ∀ insn ∈ compareBranch 0x72, IsDecoded insn := by
    simp only [compareBranch, mem_cons, not_mem_nil, or_false, forall_eq_or_imp, forall_eq]
    exact ⟨⟨[0x39, 0xC8], 0, 0, _, rfl, rfl⟩, ⟨[0x72, 0x05], 0, 2, _, rfl, rfl⟩⟩
  have h := h (compareBranch 0x72) _ regs hi (by decide +kernel) rfl (by decide +kernel)
    (by decide +kernel) (by decide +kernel)
  have h := congrArg (Option.map Prod.fst) h
  revert h
  decide +kernel

end Flags

section Loop

variable {bytes : List U8} {guestAddr : U64} {b b' : FusedBlock} {insns : List (List Stmt)}

theorem fuse_append_singleton (h : fuse base insns = some stmts)
    (hr : renumber (insns.foldl nextBase base) insn = some renumbered) :
    fuse base (insns ++ [insn]) = some (stmts ++ renumbered) := by
  induction insns generalizing base stmts with
  | nil =>
    cases h
    simp only [List.foldl_nil] at hr
    simp [fuse, hr]
  | cons insn' insns ih =>
    simp only [fuse, Option.bind_eq_bind, Option.bind_eq_some_iff, Option.pure_def,
      Option.some.injEq] at h
    have ⟨renumbered', hr', rest, hrest, he⟩ := h
    have hrest := ih hrest hr
    subst he
    simp [fuse, hr', hrest]

-- The instructions that stand one behind the other from `guestAddr` on, up to an offset and its
-- address.
inductive Consecutive (bytes : List U8) (guestAddr : U64) : List (List Stmt) → Nat → U64 → Prop
  | nil : Consecutive bytes guestAddr [] 0 guestAddr
  | snoc {insns : List (List Stmt)} : Consecutive bytes guestAddr insns offset pc →
      decodeOneAt bytes offset pc = .ok decoded →
      Consecutive bytes guestAddr (insns ++ [decoded.stmts]) (offset + decoded.bytesConsumed)
        (pc + BitVec.ofNat 64 decoded.bytesConsumed)

-- The statement that transfers control at the end of the instructions.
def terminatorOf (insns : List (List Stmt)) : Option Stmt :=
  insns.getLast?.bind fun insn => insn.find? fun stmt => isTerminator stmt.op

-- Where the block can lead to. One that just stops leads to the instruction behind it.
def successorsOf (insns : List (List Stmt)) (pc : U64) : List U64 :=
  match terminatorOf insns with
  | some stmt => staticSuccessors stmt.op
  | none => if insns = [] then [] else [pc]

-- The block has as many instructions as it may have, the bytes are used up, its last instruction
-- transfers control, or the next one cannot be added.
def Complete (bytes : List U8) (maxInsns : Nat) (insns : List (List Stmt)) (b : FusedBlock) :
    Prop :=
  insns.length = maxInsns ∨ bytes.length ≤ b.offset ∨ (terminatorOf insns).isSome ∨
    ∀ decoded, decodeOneAt bytes b.offset b.pc = .ok decoded →
      bytes.length < b.offset + decoded.bytesConsumed ∨ renumber b.base decoded.stmts = none

-- What the loop has put into the block: the instructions that it has decoded.
structure Fuses (bytes : List U8) (guestAddr : U64) (insns : List (List Stmt)) (b : FusedBlock) :
    Prop where
  stmts : fuse 0 insns = some b.stmts
  base : b.base = insns.foldl nextBase 0
  decoded : Consecutive bytes guestAddr insns b.offset b.pc
  count : b.instructionCount = insns.length
  terminator : EndsAtTerminator insns
  ended : b.endedAtTerminator = (terminatorOf insns).isSome
  successors : b.successors = (terminatorOf insns).elim [] fun stmt => staticSuccessors stmt.op
  noTerminator : b.endedAtTerminator = false → ∀ insn ∈ insns, ∀ stmt ∈ insn, isTerminator stmt.op = false

theorem fuseNext_eq_some (h : fuseNext bytes b = .ok (some b')) :
    ∃ decoded renumbered, decodeOneAt bytes b.offset b.pc = .ok decoded ∧
      b.offset + decoded.bytesConsumed ≤ bytes.length ∧
      renumber b.base decoded.stmts = some renumbered ∧ b' = b.extend decoded renumbered := by
  unfold fuseNext at h
  split at h
  case h_1 => split at h <;> cases h
  case h_2 decoded hd =>
    split at h
    case isTrue => split at h <;> cases h
    case isFalse hl =>
      obtain ⟨renumbered, hr, hb⟩ := map_eq_some_iff.mp (Except.ok.inj h)
      exact ⟨decoded, renumbered, hd, Nat.not_lt.mp hl, hr, hb.symm⟩

theorem fuseNext_eq_none (h : fuseNext bytes b = .ok none)
    (hd : decodeOneAt bytes b.offset b.pc = .ok decoded) :
    bytes.length < b.offset + decoded.bytesConsumed ∨ renumber b.base decoded.stmts = none := by
  unfold fuseNext at h
  rw [hd] at h
  dsimp only at h
  split at h
  case isTrue hl => exact .inl hl
  case isFalse => exact .inr (map_eq_none_iff.mp (Except.ok.inj h))

theorem Fuses.fuseNext (h : Fuses bytes guestAddr insns b) (ht : b.endedAtTerminator = false)
    (hn : fuseNext bytes b = .ok (some b')) : ∃ insn, Fuses bytes guestAddr (insns ++ [insn]) b' := by
  obtain ⟨decoded, renumbered, hd, _, hr, rfl⟩ := fuseNext_eq_some hn
  refine ⟨decoded.stmts, ?_⟩
  constructor
  case stmts => exact fuse_append_singleton h.stmts (h.base ▸ hr)
  case base => simp [FusedBlock.extend, h.base]
  case decoded => exact h.decoded.snoc hd
  case count => simp [FusedBlock.extend, h.count]
  case terminator => simpa [EndsAtTerminator] using h.noTerminator ht
  case ended | successors => simp [FusedBlock.extend, terminatorOf]
  case noTerminator =>
    intro he insn hi
    cases mem_append.mp hi with
    | inl hi => exact h.noTerminator ht insn hi
    | inr hi =>
      cases mem_singleton.mp hi
      simpa [FusedBlock.extend] using he

theorem Fuses.fuseLoop (h : Fuses bytes guestAddr insns b) (hm : insns.length + n = maxInsns)
    (hl : fuseLoop bytes n b = .ok b') :
    ∃ insns', Fuses bytes guestAddr insns' b' ∧ insns'.length ≤ maxInsns ∧
      Complete bytes maxInsns insns' b' := by
  induction n generalizing b insns with
  | zero =>
    cases hl
    exact ⟨insns, h, hm.le, .inl hm⟩
  | succ n ih =>
    have hle : insns.length ≤ maxInsns := hm ▸ Nat.le_add_right ..
    simp only [Translator.fuseLoop] at hl
    split at hl
    case isFalse hc =>
      cases hl
      rw [Bool.and_eq_true, decide_eq_true_iff, Bool.not_eq_true', h.ended, not_and_or] at hc
      exact ⟨insns, h, hle, .inr (hc.imp Nat.not_lt.mp fun ht => .inl (Bool.not_eq_false _ ▸ ht))⟩
    case isTrue hc =>
      split at hl
      case h_1 => cases hl
      case h_2 hn =>
        cases hl
        exact ⟨insns, h, hle, .inr (.inr (.inr fun _ => fuseNext_eq_none hn))⟩
      case h_3 hn =>
        have ⟨insn, h'⟩ := h.fuseNext (by simpa using (Bool.and_eq_true_iff.mp hc).right) hn
        refine ih h' ?_ hl
        rw [length_append, length_singleton, ← hm, Nat.add_assoc, Nat.add_comm 1]

theorem min_le_foldl_nextBase : min base maxRef ≤ insns.foldl nextBase base := by
  induction insns generalizing base with
  | nil => exact Nat.min_le_left ..
  | cons insn insns ih =>
    have hle := Nat.le_succ_of_le (@base_le_localMax base insn)
    refine Nat.le_trans ?_ ih
    unfold nextBase
    omega

theorem disjointRanges_of_lt (h : insns.foldl nextBase base < maxRef) : DisjointRanges base insns := by
  induction insns generalizing base with
  | nil => trivial
  | cons insn insns ih =>
    rw [foldl_cons] at h
    have hlt := Nat.lt_of_le_of_lt min_le_foldl_nextBase h
    refine ⟨fun _ => Nat.lt_of_not_le fun hle => ?_, ih h⟩
    unfold nextBase at hlt
    omega

-- The block that is built before the optimizations consists of the instructions at its address,
-- goes on as long as it can, and does what the instructions do one by one. Only the last of them
-- can transfer control.
theorem fuseBlock_executes (h : fuseBlock guestAddr bytes maxInsns = .ok b) :
    ∃ insns, Consecutive bytes guestAddr insns b.offset b.pc ∧ insns.length = b.instructionCount ∧
      fuse 0 insns = some b.stmts ∧ EndsAtTerminator insns ∧ insns.length ≤ maxInsns ∧
      Complete bytes maxInsns insns b ∧ b.successors = successorsOf insns b.pc ∧
      (b.base < maxRef → ∀ regs, FlagsAgree insns regs →
        interpretBlock b.stmts regs = runSeparately insns regs) := by
  have hstart : Fuses bytes guestAddr [] { pc := guestAddr } :=
    ⟨rfl, rfl, .nil, rfl, nofun, rfl, rfl, fun _ => nofun⟩
  simp only [fuseBlock, bind, Except.bind] at h
  split at h
  case h_1 => cases h
  case h_2 b₀ hl =>
    obtain ⟨insns, h', hle, hc⟩ := hstart.fuseLoop (Nat.zero_add _) hl
    have hexec : b₀.base < maxRef → ∀ regs, FlagsAgree insns regs →
        interpretBlock b₀.stmts regs = runSeparately insns regs := fun hbase regs hflags => by
      rw [interpretBlock_fuse h'.stmts (disjointRanges_of_lt (h'.base ▸ hbase))]
      exact hflags.rel.outcome fun cpu regs h => by rw [h]
    have hs : (if !b₀.endedAtTerminator && b₀.instructionCount > 0 then [b₀.pc]
        else b₀.successors) = successorsOf insns b₀.pc := by
      rw [h'.ended, h'.successors, h'.count, successorsOf]
      cases terminatorOf insns with
      | some stmt => rfl
      | none => cases insns <;> rfl
    cases h
    refine ⟨insns, ?_⟩
    split
    case isTrue hb =>
      rw [if_pos hb] at hs
      exact ⟨h'.decoded, h'.count.symm, h'.stmts, h'.terminator, hle, hc, hs, hexec⟩
    case isFalse hb =>
      rw [if_neg hb] at hs
      exact ⟨h'.decoded, h'.count.symm, h'.stmts, h'.terminator, hle, hc, hs, hexec⟩

-- CMP EAX, ECX; JE.
theorem fuseBlock_executes_compareBranch : ∃ b insns,
    fuseBlock 0 [0x39, 0xC8, 0x74, 0x05] 8 = .ok b ∧
    Consecutive [0x39, 0xC8, 0x74, 0x05] 0 insns 4 4 ∧ insns.length = 2 ∧
    fuse 0 insns = some b.stmts ∧ successorsOf insns 4 = [9, 4] ∧
    ∀ regs, FlagsAgree insns regs → interpretBlock b.stmts regs = runSeparately insns regs := by
  obtain ⟨insns, hc, hlen, hf, _, _, _, hs, hexec⟩ :=
    @fuseBlock_executes [0x39, 0xC8, 0x74, 0x05] 0 _ 8 rfl
  exact ⟨_, insns, rfl, hc, hlen, hf, hs.symm, hexec (by decide +kernel)⟩

end Loop

end Prisma.Translator
