import Prisma.Passes.Basic
import Prisma.Interp.Theorems.Block

namespace Prisma

-- The table of constants is right about the values computed so far.
def Consts.Sound (consts : Consts) (defined : List Ref) (env : Env) : Prop :=
  ∀ r v, consts r = some v → r ∈ defined ∧ env.vals r = v

namespace Consts.Sound

variable {consts : Consts} {defined : List Ref} {env : Env} {stmt : Stmt} {stmts : List Stmt}

theorem noConsts : Sound noConsts defined env := by
  intro r v h
  contradiction

theorem step {s : State} (h : Sound consts defined s.env) (hs : SsaFrom defined (stmt :: stmts))
    (ht : Prisma.step stmt s = .next s') : Sound consts (stmt.defs ++ defined) s'.env := by
  intro r v hr
  have ⟨hd, hv⟩ := h r v hr
  refine ⟨List.mem_append_right _ hd, ?_⟩
  rw [step_next_vals ht (result_ne_of_ssaFrom hs hd), hv]

theorem update {d : Ref} {v : U64} (h : Sound consts defined env) (hd : d ∈ defined)
    (hv : env.vals d = v) : Sound (Function.update consts d (some v)) defined env := by
  intro r w hr
  by_cases hrd : r = d
  case pos =>
    subst hrd
    simp only [Function.update_self, Option.some.injEq] at hr
    exact ⟨hd, hr ▸ hv⟩
  case neg =>
    rw [Function.update_of_ne hrd] at hr
    exact h r w hr

end Consts.Sound

end Prisma
