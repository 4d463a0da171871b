import Prisma.Interp.Block

namespace Prisma

open Machine

namespace Env

variable {env : Env} {result : Option Ref} {value : Value} {r : Ref}

theorem define_vals_of_ne (h : result ≠ some r) : (env.define result value).vals r = env.vals r := by
  cases result <;> cases value <;> simp_all [define, eq_comm]

theorem define_vecVals_of_ne (h : result ≠ some r) :
    (env.define result value).vecVals r = env.vecVals r := by
  cases result <;> cases value <;> simp_all [define, eq_comm]

@[simp]
theorem define_scalar_vals (env : Env) (d : Ref) (v : U64) :
    (env.define (some d) (.scalar v)).vals d = v := by
  simp [define]

@[simp]
theorem define_vector_vecVals (env : Env) (d : Ref) (v : U128) :
    (env.define (some d) (.vector v)).vecVals d = v := by
  simp [define]

@[simp]
theorem define_none (env : Env) (value : Value) : env.define none value = env := by
  cases value <;> rfl

end Env

section Step

variable {stmt : Stmt} {s s' : State}

theorem step_of_evalOp_next (h : evalOp stmt.op stmt.result.isSome s.env s.cpu = .next (cpu, value)) :
    step stmt s = .next { env := s.env.define stmt.result value, cpu } := by
  simp [step, h]

theorem step_of_evalOp_halt {o : BlockOutcome × GuestRegs}
    (h : evalOp stmt.op stmt.result.isSome s.env s.cpu = .halt o) : step stmt s = .halt o := by
  simp [step, h]

theorem step_eq_next_iff :
    step stmt s = .next s' ↔
      ∃ value, evalOp stmt.op stmt.result.isSome s.env s.cpu = .next (s'.cpu, value) ∧
        s'.env = s.env.define stmt.result value := by
  constructor
  case mp =>
    intro h
    simp only [step] at h
    cases he : evalOp stmt.op stmt.result.isSome s.env s.cpu
    case next r =>
      simp only [he, Step.bind_next, Step.next.injEq] at h
      subst h
      exact ⟨r.2, rfl, rfl⟩
    all_goals simp [he] at h
  case mpr =>
    intro ⟨value, he, hv⟩
    rw [step_of_evalOp_next he, ← hv]

theorem step_next_vals (h : step stmt s = .next s') (hr : stmt.result ≠ some r) :
    s'.env.vals r = s.env.vals r := by
  have ⟨_, _, he⟩ := step_eq_next_iff.mp h
  rw [he, Env.define_vals_of_ne hr]

theorem result_ne_of_ssaFrom (h : SsaFrom defined (stmt :: stmts)) (hr : r ∈ defined) :
    stmt.result ≠ some r := by
  intro he
  exact h.defs_not_mem (Stmt.mem_defs_of_result he) hr

end Step

theorem map_map_of_agree {α : Type} {f : Ref → Ref} {g g' : Ref → α} {refs : List Ref}
    (h : ∀ r ∈ refs, g' (f r) = g r) (o : Option Ref) (ho : ∀ r ∈ o.toList, r ∈ refs) :
    (o.map f).map g' = o.map g := by
  cases o
  case none => rfl
  case some r => simpa using h r (ho r (by simp))

attribute [local simp] Op.operandRefs

-- An operation sees the SSA values only through its operands, so renaming the refs and carrying the
-- values along changes nothing.
theorem evalOp_mapRefs {f : Ref → Ref} {op : Op} {hasResult : Bool} {env env' : Env} {cpu : Cpu}
    (hv : ∀ r ∈ op.operandRefs, env'.vals (f r) = env.vals r)
    (hw : ∀ r ∈ op.operandRefs, env'.vecVals (f r) = env.vecVals r) :
    evalOp (op.mapRefs f) hasResult env' cpu = evalOp op hasResult env cpu := by
  cases op
  case storeRflagsFromNzcv carry pf af =>
    have hp := map_map_of_agree hv pf (by simp_all)
    have ha := map_map_of_agree hv af (by simp_all)
    simp only [Op.mapRefs, evalOp, hp, ha]
  case storeRflagsFromBits pf af zf sf of =>
    have hp := map_map_of_agree hv pf (by simp_all)
    have ha := map_map_of_agree hv af (by simp_all)
    have hz := hv zf (by simp)
    have hs := hv sf (by simp)
    have ho := hv of (by simp)
    simp only [Op.mapRefs, evalOp, hp, ha, hz, hs, ho]
  case pcmpStrIndex lhs rhs lhsLen rhsLen imm8 | pcmpStrMask lhs rhs lhsLen rhsLen imm8
      | pcmpStrFlags lhs rhs lhsLen rhsLen imm8 =>
    have hl := map_map_of_agree hv lhsLen (by simp_all)
    have hr := map_map_of_agree hv rhsLen (by simp_all)
    have h₁ := hw lhs (by simp)
    have h₂ := hw rhs (by simp)
    simp only [Op.mapRefs, evalOp, hl, hr, h₁, h₂]
  all_goals first
    | rfl
    | simp only [Op.operandRefs, List.mem_cons, List.not_mem_nil, or_false, forall_eq_or_imp,
        forall_eq] at hv hw
      simp only [Op.mapRefs, evalOp, hv, hw]

theorem evalOp_congr {op : Op} {env env' : Env}
    (hv : ∀ r ∈ op.operandRefs, env'.vals r = env.vals r)
    (hw : ∀ r ∈ op.operandRefs, env'.vecVals r = env.vecVals r) :
    evalOp op hasResult env' cpu = evalOp op hasResult env cpu := by
  have h : evalOp (op.mapRefs id) hasResult env' cpu = evalOp op hasResult env cpu :=
    evalOp_mapRefs hv hw
  rwa [Op.mapRefs_id] at h

-- Two tables of SSA values agree on some refs.
structure Env.AgreeOn (refs : List Ref) (env env' : Env) : Prop where
  vals : ∀ r ∈ refs, env'.vals r = env.vals r
  vecVals : ∀ r ∈ refs, env'.vecVals r = env.vecVals r

namespace Env.AgreeOn

variable {refs : List Ref} {env env' : Env}

theorem refl (refs : List Ref) (env : Env) : AgreeOn refs env env where
  vals _ _ := rfl
  vecVals _ _ := rfl

variable (h : AgreeOn refs env env')

include h

theorem define (result : Option Ref) (value : Value) :
    AgreeOn refs (env.define result value) (env'.define result value) where
  vals r hr := by
    have h := h.vals r hr
    cases result <;> cases value <;> simp_all [Env.define, Function.update_apply]
  vecVals r hr := by
    have h := h.vecVals r hr
    cases result <;> cases value <;> simp_all [Env.define, Function.update_apply]

theorem define_left (value : Value) (hr : ∀ r ∈ refs, result ≠ some r) :
    AgreeOn refs (env.define result value) env' where
  vals r hm := by rw [define_vals_of_ne (hr r hm), h.vals r hm]
  vecVals r hm := by rw [define_vecVals_of_ne (hr r hm), h.vecVals r hm]

theorem define_right (value : Value) (hr : ∀ r ∈ refs, result ≠ some r) :
    AgreeOn refs env (env'.define result value) where
  vals r hm := by rw [define_vals_of_ne (hr r hm), h.vals r hm]
  vecVals r hm := by rw [define_vecVals_of_ne (hr r hm), h.vecVals r hm]

theorem mono (hr : ∀ r ∈ refs', r ∈ refs) :
    AgreeOn refs' env env' where
  vals r hm := h.vals r (hr r hm)
  vecVals r hm := h.vecVals r (hr r hm)

end Env.AgreeOn

end Prisma
