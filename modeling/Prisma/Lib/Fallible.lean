import Mathlib.Logic.Basic

-- Computations that end with a value, with an error or with a panic.

abbrev Fallible (ε : Type) := ExceptT ε Option

namespace Fallible

variable {ε α β : Type}

def abort : Fallible ε α :=
  ExceptT.mk none

def orFail (e : ε) (o : Option α) : Fallible ε α :=
  match o with
  | some a => pure a
  | none => throw e

def orAbort (o : Option α) : Fallible ε α :=
  match o with
  | some a => pure a
  | none => abort

def Returns (m : Fallible ε α) (a : α) : Prop :=
  m.run = some (.ok a)

def Panics (m : Fallible ε α) : Prop :=
  m.run = none

variable {m m' : Fallible ε α} {f : α → Fallible ε β} {a a' : α} {b : β} {e : ε} {o : Option α}
  {p : Prop} [Decidable p]

@[simp]
theorem returns_bind : Returns (m >>= f) b ↔ ∃ a, Returns m a ∧ Returns (f a) b := by
  unfold Returns
  rw [ExceptT.run_bind]
  cases hm : m.run with
  | none => simp
  | some r => cases r <;> simp [pure]

@[simp]
theorem panics_bind : Panics (m >>= f) ↔ Panics m ∨ ∃ a, Returns m a ∧ Panics (f a) := by
  unfold Panics Returns
  rw [ExceptT.run_bind]
  cases hm : m.run with
  | none => simp
  | some r => cases r <;> simp [pure]

@[simp]
theorem returns_pure : Returns (pure a : Fallible ε α) a' ↔ a' = a := by
  simp [Returns, pure, ExceptT.pure, ExceptT.mk, ExceptT.run, eq_comm]

@[simp]
theorem panics_pure : Panics (pure a : Fallible ε α) ↔ False :=
  ⟨nofun, nofun⟩

@[simp]
theorem returns_map : Returns (g <$> m) b ↔ ∃ a, Returns m a ∧ b = g a := by
  rw [map_eq_pure_bind, returns_bind]
  simp

@[simp]
theorem panics_map {g : α → β} : Panics (g <$> m) ↔ Panics m := by
  rw [map_eq_pure_bind, panics_bind]
  simp

@[simp]
theorem returns_throw : Returns (throw e : Fallible ε α) a ↔ False :=
  ⟨nofun, nofun⟩

@[simp]
theorem panics_throw : Panics (throw e : Fallible ε α) ↔ False :=
  ⟨nofun, nofun⟩

@[simp]
theorem returns_abort : Returns (abort : Fallible ε α) a ↔ False :=
  ⟨nofun, nofun⟩

@[simp]
theorem panics_abort : Panics (abort : Fallible ε α) ↔ True :=
  ⟨fun _ => trivial, fun _ => rfl⟩

@[simp]
theorem returns_orFail : Returns (orFail e o) a ↔ o = some a := by
  cases o with
  | none => simp [orFail]
  | some => simp [orFail, eq_comm]

@[simp]
theorem panics_orFail : Panics (orFail e o) ↔ False := by
  cases o <;> simp [orFail]

@[simp]
theorem returns_orAbort : Returns (orAbort o : Fallible ε α) a ↔ o = some a := by
  cases o with
  | none => simp [orAbort]
  | some => simp [orAbort, eq_comm]

@[simp]
theorem returns_ite :
    Returns (if p then m else m') a ↔ (p ∧ Returns m a) ∨ (¬p ∧ Returns m' a) := by
  split <;> simp_all

@[simp]
theorem panics_ite : Panics (if p then m else m') ↔ (p ∧ Panics m) ∨ (¬p ∧ Panics m') := by
  split <;> simp_all

end Fallible
