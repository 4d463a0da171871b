import Prisma.Passes.Dce
import Prisma.Interp.Theorems.Block

namespace Prisma.Dce

open Machine

-- Dropping a `Compare`, a `WriteFlags` or a `Select` also drops what it does to the transient flags.
-- `Dirty` tracks which part of the flag state can differ because of that: the flags, or the mark
-- that they are live.
structure Dirty where
  flags : Bool := false
  live : Bool := false

-- How a statement that stays changes what is dirty. Writing the flags cleans them. Persisting RFLAGS
-- clears the mark, and a `Select` without live flags restores them from RFLAGS.
def Dirty.kept (d : Dirty) (op : Op) (cpu : Cpu) : Dirty :=
  match op with
  | .compare .. | .cmpFlags .. | .writeFlags .. | .aluFlags .. | .aluFlagsPreserveCarry .. => {}
  | .storeCarry .. | .storeRflags .. | .storeRflagsFromBits .. => { d with live := false }
  | .select .. => { d with flags := cpu.nzcvLive && d.flags }
  | _ => d

-- How a dropped statement changes what is dirty. The mark is only lost if it was not set already.
def Dirty.dropped (d : Dirty) (stmt : Stmt) (cpu : Cpu) : Dirty :=
  match stmt.op with
  | .compare .. => { flags := stmt.result.isSome || d.flags, live := !cpu.nzcvLive || d.live }
  | .writeFlags .. => { flags := true, live := !cpu.nzcvLive || d.live }
  | .select .. => { d with flags := !cpu.nzcvLive || d.flags }
  | _ => d

def Dirty.step (live : List Ref) (d : Dirty) (stmt : Stmt) (s : State) : Dirty :=
  if keeps live stmt then d.kept stmt.op s.cpu else d.dropped stmt s.cpu

-- What the operation reads of the flag state is clean.
def ReadsClean (d : Dirty) (op : Op) (cpu : Cpu) : Prop :=
  match op with
  | .select .. | .condJumpRel .. => d.live = false ∧ (cpu.nzcvLive → d.flags = false)
  | .readCarryOut .. | .storeRflagsFromNzcv .. => d.flags = false
  | _ => True

instance ReadsClean.decidable (d : Dirty) (op : Op) (cpu : Cpu) : Decidable (ReadsClean d op cpu) := by
  apply op.casesOn (motive := (Decidable <| ReadsClean d · cpu)) <;> intros <;>
    dsimp only [ReadsClean] <;> infer_instance

-- No statement that stays reads flags that a dropped statement wrote.
def FlagsKept (stmts : List Stmt) (regs : GuestRegs) : Prop :=
  let live := liveRefs stmts
  Along step (Dirty.step live) (fun d stmt s => keeps live stmt → ReadsClean d stmt.op s.cpu)
    {} stmts (.entry regs)

-- The machine states of source and target agree up to what is dirty.
structure CpuRelated (d : Dirty) (cpu cpu' : Cpu) : Prop where
  regs : cpu'.regs = cpu.regs
  flags : d.flags = false → cpu'.flags = cpu.flags
  live : d.live = false → cpu'.nzcvLive = cpu.nzcvLive

theorem evalOp_kept {d : Dirty} {op : Op} {hasResult : Bool} {cpu cpu' : Cpu} (env : Env)
    (h : CpuRelated d cpu cpu') (hr : hasResult ∨ ¬isPureForDce op) (hc : ReadsClean d op cpu) :
    match evalOp op hasResult env cpu with
    | .next (c, v) =>
      ∃ c', evalOp op hasResult env cpu' = .next (c', v) ∧ CpuRelated (d.kept op cpu) c c'
    | .halt o => evalOp op hasResult env cpu' = .halt o
    | .panic => True := by
  have ⟨regs, flags, live⟩ := cpu
  have ⟨regs', flags', live'⟩ := cpu'
  have ⟨h₁, h₂, h₃⟩ := h
  simp only at h₁ h₂ h₃
  subst h₁
  cases op
  case compare =>
    obtain rfl : hasResult = true := by simpa [isPureForDce] using hr
    exact ⟨_, rfl, rfl, fun _ => rfl, fun _ => rfl⟩
  case select =>
    have hl := h₃ hc.left
    subst hl
    cases live'
    case false => exact ⟨_, rfl, rfl, fun _ => rfl, fun _ => rfl⟩
    case true =>
      obtain rfl := h₂ (hc.right rfl)
      exact ⟨_, rfl, rfl, fun _ => rfl, fun _ => rfl⟩
  case condJumpRel =>
    have hl := h₃ hc.left
    subst hl
    cases live'
    case false => rfl
    case true =>
      obtain rfl := h₂ (hc.right rfl)
      rfl
  case readCarryOut | storeRflagsFromNzcv =>
    obtain rfl := h₂ hc
    exact ⟨_, rfl, rfl, h₂, h₃⟩
  case storeCarry | storeRflags | storeRflagsFromBits =>
    exact ⟨_, rfl, rfl, h₂, fun _ => rfl⟩
  case cmpFlags => exact ⟨_, rfl, rfl, fun _ => rfl, fun _ => rfl⟩
  case writeFlags op lhs rhs size | aluFlags op lhs rhs size =>
    simp only [evalOp]
    cases flagsOfBinop op (env.vals lhs) (env.vals rhs) size
    case none => rfl
    case some => exact ⟨_, rfl, rfl, fun _ => rfl, fun _ => rfl⟩
  case aluFlagsPreserveCarry op _ _ _ =>
    cases op
    case sub | add => exact ⟨_, rfl, rfl, fun _ => rfl, fun _ => rfl⟩
    all_goals rfl
  -- The remaining operations neither read nor write the flags.
  case loadVecReg xmmIndex =>
    simp only [evalOp]
    cases hasResult
    case false => exact ⟨_, rfl, rfl, h₂, h₃⟩
    case true =>
      by_cases hi : xmmIndex.toNat < 16
      case pos =>
        simp only [hi, dite_true, if_true]
        exact ⟨_, rfl, rfl, h₂, h₃⟩
      case neg => simp only [hi, dite_false, if_true]
  case storeVecReg xmmIndex _ =>
    simp only [evalOp]
    by_cases hi : xmmIndex.toNat < 16
    case pos =>
      simp only [hi, dite_true]
      exact ⟨_, rfl, rfl, h₂, h₃⟩
    case neg => simp only [hi, dite_false]
  case vecF16Cvt kind _ _ => cases kind <;> exact ⟨_, rfl, rfl, h₂, h₃⟩
  case binOp op lhs rhs size =>
    simp only [evalOp]
    cases evalBinop op (env.vals lhs) (env.vals rhs) size
    case none => rfl
    case some => exact ⟨_, rfl, rfl, h₂, h₃⟩
  case wideDiv high low divisor signed result =>
    simp only [evalOp]
    rcases evalWideDiv (env.vals high) (env.vals low) (env.vals divisor) signed result
      with _ | _ | _
    case none => trivial
    case some.none => rfl
    case some.some => exact ⟨_, rfl, rfl, h₂, h₃⟩
  case trapIf condition kind =>
    simp only [evalOp]
    by_cases hz : env.vals condition ≠ 0
    case pos => simp only [if_pos hz]
    case neg =>
      simp only [if_neg hz]
      exact ⟨_, rfl, rfl, h₂, h₃⟩
  all_goals first | rfl | exact ⟨_, rfl, rfl, h₂, h₃⟩

-- A dropped statement changes nothing but the flag state. If it halts the block, the operation is
-- outside the interpreted subset.
theorem evalOp_dropped {stmt : Stmt} (env : Env) (h : CpuRelated d cpu cpu')
    (hp : isPureForDce stmt.op) :
    match evalOp stmt.op stmt.result.isSome env cpu with
    | .next (c, _) => CpuRelated (d.dropped stmt cpu) c cpu'
    | .halt o => o.1.supported = false
    | .panic => True := by
  have ⟨regs, flags, live⟩ := cpu
  have ⟨regs', flags', live'⟩ := cpu'
  have ⟨result, op⟩ := stmt
  have ⟨h₁, h₂, h₃⟩ := h
  simp only at h₁ h₂ h₃ hp
  subst h₁
  cases op
  case compare =>
    cases result <;> cases live
    all_goals refine ⟨rfl, ?_, ?_⟩ <;> simp_all [Dirty.dropped, Cpu.writeFlags]
  case select =>
    cases live
    case false => exact ⟨rfl, fun hd => absurd hd (by simp [Dirty.dropped]), h₃⟩
    case true => exact ⟨rfl, h₂, h₃⟩
  case writeFlags op lhs rhs size =>
    simp only [evalOp]
    cases flagsOfBinop op (env.vals lhs) (env.vals rhs) size
    case none => rfl
    case some =>
      cases live
      all_goals refine ⟨rfl, ?_, ?_⟩ <;> simp_all [Dirty.dropped, Cpu.writeFlags]
  case loadVecReg xmmIndex =>
    simp only [evalOp]
    cases result
    case none => exact ⟨rfl, h₂, h₃⟩
    case some =>
      by_cases hi : xmmIndex.toNat < 16
      case pos =>
        simp only [hi, dite_true, Option.isSome_some, if_true]
        exact ⟨rfl, h₂, h₃⟩
      case neg => simp only [hi, dite_false, Option.isSome_some, if_true]
  case binOp op lhs rhs size =>
    simp only [evalOp]
    cases evalBinop op (env.vals lhs) (env.vals rhs) size
    case none => rfl
    case some => exact ⟨rfl, h₂, h₃⟩
  case wideDiv high low divisor signed result =>
    simp only [evalOp]
    rcases evalWideDiv (env.vals high) (env.vals low) (env.vals divisor) signed result
      with _ | _ | _
    case none => trivial
    case some.none => rfl
    case some.some => exact ⟨rfl, h₂, h₃⟩
  case vecF16Cvt kind _ _ => cases kind <;> exact ⟨rfl, h₂, h₃⟩
  all_goals first | exact ⟨rfl, h₂, h₃⟩ | rfl | cases hp

-- During the run, a live ref is defined already or still used by a statement that stays.
structure LiveOk (live defined : List Ref) (stmts : List Stmt) : Prop where
  covered : ∀ r ∈ live, r ∈ defined ∨ r ∈ liveRefs stmts
  subset : ∀ r ∈ liveRefs stmts, r ∈ live

namespace LiveOk

variable {live defined : List Ref} {stmt : Stmt} {stmts : List Stmt}

theorem mem_liveRefs_cons (h : r ∈ liveRefs (stmt :: stmts)) :
    r ∈ stmt.op.operandRefs ∨ r ∈ liveRefs stmts := by
  simp only [liveRefs] at h
  split at h
  case isTrue => exact List.mem_append.mp h
  case isFalse => exact .inr h

theorem tail (h : LiveOk live defined (stmt :: stmts)) (hs : SsaFrom defined (stmt :: stmts)) :
    LiveOk live (stmt.defs ++ defined) stmts where
  covered r hr := by
    obtain hd | hl := h.covered r hr
    case inl => exact .inl (List.mem_append_right _ hd)
    case inr =>
      obtain ho | hl := mem_liveRefs_cons hl
      case inl => exact .inl (List.mem_append_right _ (hs.operands_mem ho))
      case inr => exact .inr hl
  subset r hr := by
    apply h.subset
    simp only [liveRefs]
    split
    case isTrue => exact List.mem_append_right _ hr
    case isFalse => exact hr

-- The operands of a statement that stays are live. The reverse sweep saw its result live too: in SSA
-- form no earlier statement uses it.
theorem operands_live (h : LiveOk live defined (stmt :: stmts))
    (hs : SsaFrom defined (stmt :: stmts)) (hk : keeps live stmt) {r : Ref}
    (hr : r ∈ stmt.op.operandRefs) : r ∈ live := by
  have hk' : keeps (liveRefs stmts) stmt := by
    simp only [keeps, Bool.or_eq_true, Option.any_eq_true] at hk ⊢
    obtain hi | ⟨d, hd, hl⟩ := hk
    case inl => exact .inl hi
    case inr =>
      refine .inr ⟨d, hd, ?_⟩
      have hn := hs.defs_not_mem (Stmt.mem_defs_of_result hd)
      obtain hm | hm := h.covered d (by simpa using hl)
      case inl => contradiction
      case inr =>
        obtain ho | hl := mem_liveRefs_cons hm
        case inl => exact absurd (hs.operands_mem ho) hn
        case inr => simpa using hl
  apply h.subset
  simp only [liveRefs, if_pos hk']
  exact List.mem_append_left _ hr

end LiveOk

-- The relation that dead code elimination keeps: source and target agree on the live refs, on the
-- registers and on the part of the flag state that is not dirty.
structure Related (live : List Ref) (d : Dirty) (defined : List Ref) (stmts : List Stmt)
    (s t : State) : Prop where
  ssa : SsaFrom defined stmts
  liveOk : LiveOk live defined stmts
  env : Env.AgreeOn live s.env t.env
  cpu : CpuRelated d s.cpu t.cpu
  clean : Along step (Dirty.step live) (fun d stmt s => keeps live stmt → ReadsClean d stmt.op s.cpu)
    d stmts s

namespace Related

variable {live defined : List Ref} {d : Dirty} {stmt : Stmt} {stmts : List Stmt} {s t : State}

theorem step_kept (h : Related live d defined (stmt :: stmts) s t) (hk : keeps live stmt) :
    Matches step (·.1.supported)
      (fun s' t' => ∃ d defined, Related live d defined stmts s' t') (some stmt) t (step stmt s) := by
  have hr : stmt.result.isSome ∨ ¬isPureForDce stmt.op := by
    cases hp : isPureForDce stmt.op
    case false => simp
    case true =>
      simp only [keeps, hp, Bool.not_true, Bool.false_or, Option.any_eq_true] at hk
      have ⟨d, hd, _⟩ := hk
      simp [hd]
  have hc := evalOp_kept s.env h.cpu hr (h.clean.head hk)
  have he : evalOp stmt.op stmt.result.isSome t.env t.cpu =
      evalOp stmt.op stmt.result.isSome s.env t.cpu :=
    evalOp_congr (fun r hr => h.env.vals r (h.liveOk.operands_live h.ssa hk hr))
      (fun r hr => h.env.vecVals r (h.liveOk.operands_live h.ssa hk hr))
  cases hv : evalOp stmt.op stmt.result.isSome s.env s.cpu
  case next r =>
    have ⟨c, value⟩ := r
    simp only [hv] at hc
    have ⟨c', ht, hc⟩ := hc
    have hs := step_of_evalOp_next hv
    rw [hs]
    refine ⟨{ env := t.env.define stmt.result value, cpu := c' }, ?_, ?_⟩
    case refine_1 =>
      rw [Option.toList_some, exec_singleton]
      exact step_of_evalOp_next (he.trans ht)
    case refine_2 =>
      have hd := h.clean.tail hs
      simp only [Dirty.step, if_pos hk] at hd
      exact ⟨_, _, h.ssa.tail, h.liveOk.tail h.ssa, h.env.define _ _, hc, hd⟩
  case halt o =>
    simp only [hv] at hc
    rw [step_of_evalOp_halt hv]
    intro _
    rw [Option.toList_some, exec_singleton]
    exact step_of_evalOp_halt (he.trans hc)
  case panic => simp [step, hv, Matches]

theorem step_dropped (h : Related live d defined (stmt :: stmts) s t) (hk : ¬keeps live stmt) :
    Matches step (·.1.supported)
      (fun s' t' => ∃ d defined, Related live d defined stmts s' t') none t (step stmt s) := by
  have hp : isPureForDce stmt.op ∧ ∀ r ∈ live, stmt.result ≠ some r := by
    simp only [keeps, Bool.or_eq_true, not_or, Bool.not_eq_true', Bool.not_eq_false,
      Option.any_eq_true] at hk
    refine ⟨hk.left, fun r hr he => hk.right ⟨r, he, ?_⟩⟩
    simpa using hr
  have hc := evalOp_dropped s.env h.cpu hp.left
  cases hv : evalOp stmt.op stmt.result.isSome s.env s.cpu
  case next r =>
    have ⟨c, value⟩ := r
    simp only [hv] at hc
    have hs := step_of_evalOp_next hv
    rw [hs]
    have hd := h.clean.tail hs
    simp only [Dirty.step, if_neg hk] at hd
    exact ⟨t, rfl, _, _, h.ssa.tail, h.liveOk.tail h.ssa, h.env.define_left _ hp.right, hc, hd⟩
  case halt o =>
    simp only [hv] at hc
    rw [step_of_evalOp_halt hv]
    intro hg
    simp [hc] at hg
  case panic => simp [step, hv, Matches]

end Related

-- In every run in which no statement that stays reads flags that a dropped statement wrote, the
-- block keeps its outcome and final registers.
theorem deadCodeEliminate_preserves {stmts : List Stmt} {regs : GuestRegs}
    {o : BlockOutcome × GuestRegs} (hs : Ssa stmts) (ho : interpretBlock stmts regs = some o)
    (hg : o.1.supported) (hf : FlagsKept stmts regs) :
    interpretBlock (deadCodeEliminate (.single stmts)).stmts regs = some o := by
  have hl : (Function.single stmts).stmts = stmts := by simp [Function.single, Function.stmts]
  rw [deadCodeEliminate, Function.stmts_mapBlocks_single, hl, filter_eq_rewrite _ ()]
  refine run_rewrite (G := (·.1.supported))
    (R := fun _ rest s t => ∃ d defined, Related (liveRefs stmts) d defined rest s t)
    ?nil ?cons ⟨_, _, hs, ⟨fun r hr => .inr hr, fun r hr => hr⟩, .refl _ _, ⟨rfl, ?_, ?_⟩, hf⟩ ho hg
  case nil =>
    rintro _ s t ⟨d, defined, h⟩
    simp [State.fallthrough, h.cpu.regs]
  case cons =>
    rintro _ stmt rest s t ⟨d, defined, h⟩
    by_cases hk : keeps (liveRefs stmts) stmt
    case pos => simpa only [if_pos hk] using h.step_kept hk
    case neg => simpa only [if_neg hk] using h.step_dropped hk
  all_goals exact fun _ => rfl

-- The flag writer stays because its carry is read, the unused constant goes.
def readCarryBlock : List Stmt :=
  [⟨some 0, .constant 1 .i64⟩, ⟨some 1, .constant 5 .i64⟩, ⟨some 2, .writeFlags .sub 0 0 .i64⟩,
    ⟨some 3, .readCarryOut 2 true⟩, ⟨none, .storeReg .rax 3 .i64⟩,
    ⟨none, .condJumpRel .eq 0x10 0x20⟩]

theorem deadCodeEliminate_preserves_readCarryBlock :
    FlagsKept readCarryBlock .default ∧
    ((interpretBlock (deadCodeEliminate (.single readCarryBlock)).stmts .default).map (·.1)) =
      some (.branch 0x10) := by
  have h : FlagsKept readCarryBlock .default := by
    unfold FlagsKept
    decide
  refine ⟨h, ?_⟩
  rw [deadCodeEliminate_preserves (by decide) (o := (.branch 0x10, storeReg .default .rax 0 .i64))
    rfl rfl h]
  rfl

-- Nothing refers to the result of the flag writer, but the branch reads its flags.
def flagBranch (a b : U64) (cond : CondCode) : List Stmt :=
  [⟨some 0, .constant a .i64⟩, ⟨some 1, .constant b .i64⟩, ⟨some 2, .writeFlags .sub 0 1 .i64⟩,
    ⟨none, .condJumpRel cond 0x10 0x20⟩]

-- Without the condition the branch is right only where RFLAGS happen to say the same as the flags
-- that are dropped.
theorem flagBranch_preserved_iff (a b : U64) (cond : CondCode) (regs : GuestRegs) :
    interpretBlock (deadCodeEliminate (.single (flagBranch a b cond))).stmts regs =
      interpretBlock (flagBranch a b cond) regs ↔
    evalCc cond (flagsFromRflags regs.rflags) = evalCc cond (subFlags a b .i64) := by
  have hkept : interpretBlock (flagBranch a b cond) regs =
      some (.branch (if evalCc cond (subFlags a b .i64) then 0x10 else 0x20), regs) := rfl
  have hdropped : interpretBlock (deadCodeEliminate (.single (flagBranch a b cond))).stmts regs =
      some (.branch (if evalCc cond (flagsFromRflags regs.rflags) then 0x10 else 0x20), regs) := rfl
  rw [hkept, hdropped]
  cases evalCc cond (flagsFromRflags regs.rflags) <;> cases evalCc cond (subFlags a b .i64) <;> simp

theorem deadCodeEliminate_not_preserves :
    Ssa (flagBranch 1 1 .eq) ∧
    ((interpretBlock (flagBranch 1 1 .eq) .default).map (·.1)) = some (.branch 0x10) ∧
    ((interpretBlock (deadCodeEliminate (.single (flagBranch 1 1 .eq))).stmts .default).map (·.1)) =
      some (.branch 0x20) := by
  decide

end Prisma.Dce
