import Mathlib.Logic.Basic

-- Systems that are used through calls. A call leads to a next state, or it does not return.

namespace Calls

variable {κ σ : Type} (step : κ → σ → Option σ)

def run : List κ → σ → Option σ
  | [], s => some s
  | call :: calls, s => (step call s).bind (run calls)

-- `P` holds before the calls and after each of them that returns.
def Always (P : σ → Prop) : List κ → σ → Prop
  | [], s => P s
  | call :: calls, s => P s ∧ ∀ s', step call s = some s' → Always P calls s'

-- Each of the calls meets `C` in the state in which it is made.
def Meets (C : κ → σ → Prop) : List κ → σ → Prop
  | [], _ => True
  | call :: calls, s => C call s ∧ ∀ s', step call s = some s' → Meets C calls s'

variable {step} {I P : σ → Prop} {C : κ → σ → Prop} {calls : List κ} {s s' : σ}

theorem run_keeps (h : ∀ call ∈ calls, ∀ s s', I s → step call s = some s' → I s') (hs : I s)
    (hr : run step calls s = some s') : I s' := by
  induction calls generalizing s with
  | nil =>
    cases hr
    exact hs
  | cons call calls hi =>
    have ⟨s₁, hc, hr⟩ := Option.bind_eq_some_iff.mp hr
    have ⟨hcall, hcalls⟩ := List.forall_mem_cons.mp h
    exact hi hcalls (hcall s s₁ hs hc) hr

theorem Always.start (h : Always step P calls s) : P s := by
  cases calls with
  | nil => exact h
  | cons => exact h.left

-- If `C` says which calls keep `P`, then the runs that never leave `P` are those with calls that
-- all meet `C`.
theorem always_iff_meets (hI : ∀ call s s', I s → step call s = some s' → I s')
    (hP : ∀ call s s', I s → P s → step call s = some s' → (P s' ↔ C call s))
    (hn : ∀ call s, step call s = none → C call s) (hi : I s) (hs : P s) :
    Always step P calls s ↔ Meets step C calls s := by
  induction calls generalizing s with
  | nil => exact iff_of_true hs trivial
  | cons call calls ih =>
    cases hc : step call s with
    | none => simp [Always, Meets, hc, hs, hn call s hc]
    | some s₁ =>
      have hstep := hP call s s₁ hi hs hc
      simp only [Always, Meets, hc, hs, true_and, Option.some.injEq, forall_eq']
      constructor
      case mp =>
        intro h
        exact ⟨hstep.mp h.start, (ih (hI call s s₁ hi hc) h.start).mp h⟩
      case mpr =>
        intro ⟨h, hm⟩
        exact (ih (hI call s s₁ hi hc) (hstep.mpr h)).mpr hm

theorem meets_of_keeps (hI : ∀ call s s', I s → step call s = some s' → I s')
    (hC : ∀ call s, I s → C call s) (hi : I s) : Meets step C calls s := by
  induction calls generalizing s with
  | nil => trivial
  | cons call calls ih => exact ⟨hC call s hi, fun s' hs => ih (hI call s s' hi hs)⟩

end Calls
