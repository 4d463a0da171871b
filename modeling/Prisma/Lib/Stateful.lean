import Mathlib.Logic.Basic

-- Computations over a state that can fail, or panic. A failure keeps the state that was reached.

def Stateful (ε σ α : Type) : Type :=
  σ → Option (Except ε α × σ)

namespace Stateful

variable {ε σ α β : Type}

instance : Monad (Stateful ε σ) where
  pure a s := some (.ok a, s)
  bind m f s :=
    match m s with
    | none => none
    | some (.error e, s) => some (.error e, s)
    | some (.ok a, s) => f a s

def fail (e : ε) : Stateful ε σ α :=
  fun s => some (.error e, s)

-- A computation that leaves the first part of the state alone.
def onSnd {τ : Type} (m : Stateful ε σ α) : Stateful ε (τ × σ) α := fun (t, s) =>
  (m s).map fun (result, s) => (result, (t, s))

variable {m : Stateful ε σ α} {f : α → Stateful ε σ β} {s s' : σ} {a : α} {e : ε}

@[simp]
theorem pure_apply : (pure a : Stateful ε σ α) s = some (.ok a, s) :=
  rfl

@[simp]
theorem fail_apply : (fail e : Stateful ε σ α) s = some (.error e, s) :=
  rfl

@[simp]
theorem pure_bind : (pure a : Stateful ε σ α) >>= f = f a :=
  rfl

theorem bind_of_ok (h : m s = some (.ok a, s')) : (m >>= f) s = f a s' := by
  simp only [bind, h]

theorem bind_of_error (h : m s = some (.error e, s')) : (m >>= f) s = some (.error e, s') := by
  simp only [bind, h]

theorem ok_of_bind (h : (m >>= f) s = some (.ok b, s')) :
    ∃ a s₁, m s = some (.ok a, s₁) ∧ f a s₁ = some (.ok b, s') := by
  match hm : m s with
  | none =>
    simp only [bind, hm] at h
    nomatch h
  | some (.error e, s₁) => nomatch (bind_of_error hm).symm.trans h
  | some (.ok a, s₁) => exact ⟨a, s₁, rfl, (bind_of_ok hm).symm.trans h⟩

theorem ok_of_bind_pure {g : α → β} {b : β}
    (h : (m >>= fun a => pure (g a)) s = some (.ok b, s')) :
    ∃ a, m s = some (.ok a, s') ∧ g a = b := by
  have ⟨a, s₁, hm, hpure⟩ := ok_of_bind h
  cases hpure
  exact ⟨a, hm, rfl⟩

theorem onSnd_of_eq {τ : Type} {t : τ} {result : Except ε α} (h : m s = some (result, s')) :
    onSnd m (t, s) = some (result, (t, s')) := by
  simp only [onSnd, h, Option.map_some]

theorem eq_of_onSnd {τ : Type} {t t' : τ} {result : Except ε α}
    (h : onSnd m (t, s) = some (result, (t', s'))) : m s = some (result, s') ∧ t' = t := by
  have ⟨_, hm, he⟩ := Option.map_eq_some_iff.mp h
  cases he
  exact ⟨hm, rfl⟩

end Stateful
