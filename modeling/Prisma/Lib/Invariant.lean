import Prisma.Lib.Emission

-- Properties of the emitted statements that every step of a generator keeps.

namespace Emission

variable {ε σ α β : Type} (I : List σ → Prop)

def Keeps (m : Emitter ε σ α) : Prop :=
  ∀ stmts a stmts', I stmts → m stmts = .ok (a, stmts') → I stmts'

-- For instance resolution.
class KeepsSpec (m : Emitter ε σ α) : Prop where
  keeps : Keeps I m

variable {I} {m : Emitter ε σ α} {f : α → Emitter ε σ β}

namespace Keeps

theorem pure : Keeps I (Pure.pure a : Emitter ε σ α) := by
  intro stmts b stmts' h hm
  cases hm
  exact h

theorem bind (hm : Keeps I m) (hf : ∀ a, Keeps I (f a)) : Keeps I (m >>= f) := by
  intro stmts b stmts' h hmf
  have ⟨a, stmts₁, hma, hfa⟩ := bind_eq_ok.mp hmf
  exact hf a stmts₁ b stmts' (hm stmts a stmts₁ h hma) hfa

theorem push (h : ∀ stmts, I stmts → I (stmts ++ [stmt])) :
    Keeps I (push stmt : Emitter ε σ Unit) := by
  intro stmts b stmts' hi hm
  cases hm
  exact h stmts hi

theorem fresh_push {stmt : Nat → σ} (h : ∀ stmts, I stmts → I (stmts ++ [stmt stmts.length])) :
    Keeps I (do let n ← fresh; Emission.push (stmt n); return n : Emitter ε σ Nat) := by
  intro stmts b stmts' hi hm
  cases hm
  exact h stmts hi

end Keeps

-- The first step unfolds the generator, as in `EmitsSpec.derive`.
theorem KeepsSpec.derive (h : m = m' := by rfl) (d : Keeps I m' := by
      try apply Keeps.bind
      repeat' with_reducible first
        | intro _ | apply Keeps.bind | apply Keeps.pure | exact KeepsSpec.keeps | split) :
    KeepsSpec I m :=
  ⟨h ▸ d⟩

-- From statements with one property the generator gets to statements with another one.
def Leads (I J : List σ → Prop) (m : Emitter ε σ α) : Prop :=
  ∀ stmts a stmts', I stmts → m stmts = .ok (a, stmts') → J stmts'

namespace Leads

variable {J : List σ → Prop}

theorem skip [KeepsSpec I m] (hf : ∀ a, Leads I J (f a)) : Leads I J (m >>= f) := by
  intro stmts b stmts' h hmf
  have ⟨a, stmts₁, hma, hfa⟩ := bind_eq_ok.mp hmf
  exact hf a stmts₁ b stmts' (KeepsSpec.keeps stmts a stmts₁ h hma) hfa

theorem here (hm : Leads I J m)
    (hf : ∀ a, Keeps J (f a) := by
      repeat' with_reducible first
        | intro _ | apply Keeps.bind | apply Keeps.pure | exact KeepsSpec.keeps | split) :
    Leads I J (m >>= f) := by
  intro stmts b stmts' h hmf
  have ⟨a, stmts₁, hma, hfa⟩ := bind_eq_ok.mp hmf
  exact hf a stmts₁ b stmts' (hm stmts a stmts₁ h hma) hfa

end Leads

end Emission
