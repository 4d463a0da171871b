import Mathlib.Data.List.Basic
import Mathlib.Tactic.Tauto

-- Code generators that append statements to a list and may fail. Statements define and use numbers,
-- and a generator takes the number of statements so far as a fresh one.

namespace Emission

open List

class Statement (σ : Type) where
  uses : σ → List Nat
  defs : σ → List Nat

abbrev Emitter (ε σ : Type) := StateT (List σ) (Except ε)

variable {ε σ α β : Type}

def fresh : Emitter ε σ Nat := fun stmts => .ok (stmts.length, stmts)

def push (stmt : σ) : Emitter ε σ Unit := fun stmts => .ok ((), stmts ++ [stmt])

section Success

variable {m : Emitter ε σ α} {f : α → Emitter ε σ β} {stmts : List σ} {r : β × List σ}

theorem bind_eq_ok :
    (m >>= f) stmts = .ok r ↔ ∃ a stmts', m stmts = .ok (a, stmts') ∧ f a stmts' = .ok r := by
  simp only [Bind.bind, StateT.bind]
  cases m stmts with
  | error e => simp [Except.bind]
  | ok r => obtain ⟨a, stmts'⟩ := r; simp [Except.bind]

theorem lift_bind_eq_ok {e : Except ε α} :
    (liftM e >>= f) stmts = .ok r ↔ ∃ a, e = .ok a ∧ f a stmts = .ok r := by
  cases e with
  | error e => exact ⟨(by cases ·), fun ⟨_, h, _⟩ => by cases h⟩
  | ok a => exact ⟨fun h => ⟨a, rfl, h⟩, fun ⟨_, h, hf⟩ => by injection h with h; exact h ▸ hf⟩

end Success

section Scope

variable [Statement σ]

open Statement

-- When the statements run after others that define `defined`, no number is defined twice, and every
-- number is defined before it is used.
def WellScoped (defined : List Nat) : List σ → Prop
  | [] => True
  | stmt :: stmts =>
    (∀ r ∈ uses stmt, r ∈ defined) ∧
    ((defs stmt).Nodup ∧ ∀ d ∈ defs stmt, d ∉ defined) ∧
    WellScoped (defs stmt ++ defined) stmts

theorem WellScoped.append_singleton {stmts : List σ} {stmt : σ} :
    {defined : List Nat} → (h : WellScoped defined stmts) →
    (hu : ∀ r ∈ uses stmt, r ∈ defined ∨ ∃ s ∈ stmts, r ∈ defs s) → (hn : (defs stmt).Nodup) →
    (hd : ∀ d ∈ defs stmt, d ∉ defined ∧ ∀ s ∈ stmts, d ∉ defs s) →
    WellScoped defined (stmts ++ [stmt]) := by
  induction stmts with
  | nil =>
    intro defined _ hu hn hd
    exact ⟨fun r hr => by simpa using hu r hr, ⟨hn, fun d h => (hd d h).left⟩, trivial⟩
  | cons s stmts ih =>
    intro defined h hu hn hd
    refine ⟨h.left, h.right.left, ih h.right.right ?_ hn ?_⟩
    case refine_1 =>
      intro r hr
      have := hu r hr
      simp only [mem_cons, exists_eq_or_imp] at this
      simp only [mem_append]
      tauto
    case refine_2 =>
      intro d h
      have ⟨hn, hs⟩ := hd d h
      simp only [mem_append, not_or]
      exact ⟨⟨hs s mem_cons_self, hn⟩, fun s' h' => hs s' (mem_cons_of_mem _ h')⟩

theorem WellScoped.not_mem_defs {stmts : List σ} {stmt : σ} {d : Nat} (hd : d ∈ defs stmt) :
    {defined : List Nat} → (h : WellScoped defined (stmts ++ [stmt])) →
    d ∉ defined ∧ ∀ s ∈ stmts, d ∉ defs s := by
  induction stmts with
  | nil =>
    intro defined h
    exact ⟨h.right.left.right d hd, nofun⟩
  | cons s stmts ih =>
    intro defined h
    have ⟨hn, hs⟩ := ih h.right.right
    simp only [mem_append, not_or] at hn
    refine ⟨hn.right, fun s' h' => ?_⟩
    cases mem_cons.mp h' with
    | inl h' => exact h' ▸ hn.left
    | inr h' => exact hs s' h'

theorem WellScoped.nodup_defs {stmts : List σ} {stmt : σ} :
    {defined : List Nat} → WellScoped defined (stmts ++ [stmt]) → (defs stmt).Nodup := by
  induction stmts with
  | nil => exact fun h => h.right.left.left
  | cons s stmts ih => exact fun h => ih h.right.right

theorem WellScoped.of_append {stmts stmts' : List σ} :
    {defined : List Nat} → WellScoped defined (stmts ++ stmts') → WellScoped defined stmts := by
  induction stmts with
  | nil => exact fun _ => trivial
  | cons s stmts ih => exact fun h => ⟨h.left, h.right.left, ih h.right.right⟩

-- The statements emitted so far are well scoped, they define no number that is still to come, and
-- they define the numbers in `Γ`.
structure Scope (stmts : List σ) (Γ : List Nat) : Prop where
  wellScoped : WellScoped [] stmts
  lt : ∀ s ∈ stmts, ∀ d ∈ defs s, d < stmts.length
  mem : ∀ r ∈ Γ, ∃ s ∈ stmts, r ∈ defs s

namespace Scope

variable {stmts : List σ} {stmt : σ} {Γ Γ' : List Nat}

theorem nil : Scope ([] : List σ) [] :=
  ⟨trivial, nofun, nofun⟩

theorem mono (h : Scope stmts Γ) (hs : Γ' ⊆ Γ) : Scope stmts Γ' :=
  ⟨h.wellScoped, h.lt, fun r hr => h.mem r (hs hr)⟩

theorem push (h : Scope stmts Γ) (hu : ∀ r ∈ uses stmt, r ∈ Γ) (hn : (defs stmt).Nodup)
    (hd : ∀ d ∈ defs stmt, d = stmts.length) : Scope (stmts ++ [stmt]) (defs stmt ++ Γ) where
  wellScoped := by
    refine h.wellScoped.append_singleton (fun r hr => .inr (h.mem r (hu r hr))) hn fun d h' => ?_
    refine ⟨not_mem_nil, fun s hs hds => ?_⟩
    have := h.lt s hs d hds
    have := hd d h'
    omega
  lt := by
    intro s hs d hds
    simp only [length_append, length_singleton]
    cases mem_append.mp hs with
    | inl hs => exact Nat.lt_succ_of_lt (h.lt s hs d hds)
    | inr hs =>
      cases mem_singleton.mp hs
      have := hd d hds
      omega
  mem := by
    intro r hr
    cases mem_append.mp hr with
    | inl hr => exact ⟨stmt, by simp, hr⟩
    | inr hr =>
      have ⟨s, hs, hrs⟩ := h.mem r hr
      exact ⟨s, by simp [hs], hrs⟩

end Scope

-- If the numbers in `Γ` are in scope, then the generator only appends statements, they are in scope,
-- and so are afterwards the numbers that `Δ` lists for the result.
def Emits (Γ : List Nat) (m : Emitter ε σ α) (Δ : α → List Nat) : Prop :=
  ∀ stmts, Scope stmts Γ → ∀ a stmts', m stmts = .ok (a, stmts') →
    stmts <+: stmts' ∧ Scope stmts' (Δ a ++ Γ)

-- What a generator emits, for instance resolution: `pre` says which numbers have to be in scope.
class EmitsSpec (m : Emitter ε σ α) (pre : outParam (List Nat → Prop))
    (Δ : outParam (α → List Nat)) : Prop where
  emits : ∀ {Γ}, pre Γ → Emits Γ m Δ

namespace Emits

variable {Γ Γ' : List Nat} {m : Emitter ε σ α} {f : α → Emitter ε σ β} {Δ Δ' : α → List Nat}
  {Θ : β → List Nat} {pre : List Nat → Prop}

theorem mono (h : Emits Γ m Δ) (hΔ : ∀ a, Δ' a ⊆ Δ a ++ Γ) : Emits Γ m Δ' := by
  intro stmts hs a stmts' hm
  have ⟨hp, hs'⟩ := h stmts hs a stmts' hm
  exact ⟨hp, hs'.mono (append_subset.mpr ⟨hΔ a, subset_append_right ..⟩)⟩

theorem pure (h : Δ a ⊆ Γ) : Emits Γ (Pure.pure a : Emitter ε σ α) Δ := by
  intro stmts hs a' stmts' hm
  cases hm
  exact ⟨prefix_rfl, hs.mono (append_subset.mpr ⟨h, List.Subset.refl _⟩)⟩

theorem andThen (hm : Emits Γ m Δ) (hf : ∀ a, Emits (Δ a ++ Γ) (f a) Θ) :
    Emits Γ (m >>= f) Θ := by
  intro stmts hs b stmts' h
  have ⟨a, stmts₁, hma, hfa⟩ := bind_eq_ok.mp h
  have ⟨hp, hs₁⟩ := hm stmts hs a stmts₁ hma
  have ⟨hp', hs₂⟩ := hf a stmts₁ hs₁ b stmts' hfa
  refine ⟨hp.trans hp', hs₂.mono ?_⟩
  exact append_subset.mpr ⟨subset_append_left .., fun x hx => by simp [hx]⟩

theorem bind [EmitsSpec m pre Δ] (h : pre Γ) (hf : ∀ a, Emits (Δ a ++ Γ) (f a) Θ) :
    Emits Γ (m >>= f) Θ :=
  (EmitsSpec.emits h).andThen hf

theorem tail [EmitsSpec m pre Δ] (h : pre Γ) (hΔ : ∀ a, Δ' a ⊆ Δ a ++ Γ) : Emits Γ m Δ' :=
  (EmitsSpec.emits h).mono hΔ

-- The failing computation is evaluated first.
theorem bind_lift {e : Except ε α} (hf : ∀ a, e = .ok a → Emits Γ (f a) Θ) :
    Emits Γ (liftM e >>= f) Θ := by
  intro stmts hs b stmts' h
  have ⟨a, he, hfa⟩ := lift_bind_eq_ok.mp h
  exact hf a he stmts hs b stmts' hfa

theorem throw : Emits Γ (throw e : Emitter ε σ α) Δ :=
  fun _ _ _ _ h => by cases h

theorem ite {c : Prop} [Decidable c] {m' : Emitter ε σ α} (h : c → Emits Γ m Δ)
    (h' : ¬c → Emits Γ m' Δ) : Emits Γ (if c then m else m') Δ := by
  split
  case isTrue hc => exact h hc
  case isFalse hc => exact h' hc

end Emits

-- Derives the specification of a generator from its body. The default proof follows the rules for
-- `Emits` along the body and leaves which numbers are in scope to `simp`. Its first step unfolds
-- the generator, so that the body has to be named only where it is a match or a single call.
theorem EmitsSpec.derive {m m' : Emitter ε σ α} {pre : List Nat → Prop} {Δ : α → List Nat}
    (h : m = m' := by rfl)
    (d : ∀ Γ, pre Γ → Emits Γ m' Δ := by
      intro _ _
      try first | apply Emits.bind | apply Emits.ite
      repeat' with_reducible first
        | intro _ | apply Emits.bind | apply Emits.pure | apply Emits.throw | apply Emits.tail
        | split
      all_goals simp_all <;> grind) :
    EmitsSpec m pre Δ :=
  ⟨fun hp => h ▸ d _ hp⟩

-- A generator that needs nothing in scope and hands out nothing.
abbrev Closed (m : Emitter ε σ α) : Prop :=
  EmitsSpec m (fun _ => True) fun _ => []

variable {Γ : List Nat}

instance (e : Except ε α) : EmitsSpec (liftM e : Emitter ε σ α) (fun _ => True) fun _ => [] where
  emits := by
    intro Γ _ stmts hs a stmts' h
    cases e with
    | error e => cases h
    | ok b => cases h; exact ⟨prefix_rfl, hs⟩

theorem emits_push (hu : ∀ r ∈ uses stmt, r ∈ Γ) (hd : defs stmt = []) :
    Emits Γ (push stmt : Emitter ε σ Unit) fun _ => [] := by
  intro stmts hs a stmts' h
  cases h
  have := hs.push hu (by simp [hd]) (by simp [hd])
  exact ⟨prefix_append .., by simpa [hd] using this⟩

theorem emits_fresh_push {stmt : Nat → σ} (hu : ∀ n, ∀ r ∈ uses (stmt n), r ∈ Γ)
    (hd : ∀ n, defs (stmt n) = [n]) :
    Emits Γ (do let n ← fresh; push (stmt n); return n : Emitter ε σ Nat) fun n => [n] := by
  intro stmts hs a stmts' h
  cases h
  have := hs.push (hu stmts.length) (by simp [hd]) (by simp [hd])
  exact ⟨prefix_append .., by simpa [hd] using this⟩

-- The generator defines the number that is fresh when it is called.
def TakesFresh (Γ : List Nat) (m : Emitter ε σ α) : Prop :=
  ∀ stmts, Scope stmts Γ → ∀ a stmts', m stmts = .ok (a, stmts') → ∃ s ∈ stmts', stmts.length ∈ defs s

namespace TakesFresh

variable {m : Emitter ε σ α} {f : α → Emitter ε σ β} {Δ : α → List Nat} {Θ : α → β → List Nat}

theorem push {stmt : Nat → σ} (hd : ∀ n, defs (stmt n) = [n]) :
    TakesFresh Γ (do let n ← fresh; push (stmt n); return n : Emitter ε σ Nat) := by
  intro stmts _ a stmts' h
  cases h
  exact ⟨stmt stmts.length, by simp, by simp [hd]⟩

theorem bind (ht : TakesFresh Γ m) (hm : Emits Γ m Δ)
    (hf : ∀ a, Emits (Δ a ++ Γ) (f a) (Θ a)) : TakesFresh Γ (m >>= f) := by
  intro stmts hs b stmts' h
  have ⟨a, stmts₁, hma, hfa⟩ := bind_eq_ok.mp h
  have ⟨s, hs₁, hd⟩ := ht stmts hs a stmts₁ hma
  have ⟨hp, _⟩ := hf a stmts₁ (hm stmts hs a stmts₁ hma).right b stmts' hfa
  exact ⟨s, hp.subset hs₁, hd⟩

theorem bind_lift {e : Except ε α} (hf : ∀ a, TakesFresh Γ (f a)) :
    TakesFresh Γ (liftM e >>= f) := by
  intro stmts hs b stmts' h
  have ⟨a, _, hfa⟩ := lift_bind_eq_ok.mp h
  exact hf a stmts hs b stmts' hfa

end TakesFresh

-- Among the statements that the generator leaves there is one with `P`.
def Pushes (Γ : List Nat) (P : σ → Prop) (m : Emitter ε σ α) : Prop :=
  ∀ stmts, Scope stmts Γ → ∀ a stmts', m stmts = .ok (a, stmts') → ∃ s ∈ stmts', P s

-- A closed generator that pushes a statement with `P`, for instance resolution.
class PushesSpec (P : σ → Prop) (m : Emitter ε σ α) : Prop where
  pushes : Pushes [] P m

namespace Pushes

variable {P : σ → Prop} {m : Emitter ε σ α} {f : α → Emitter ε σ β} {Δ : α → List Nat}
  {pre : List Nat → Prop}

theorem push {stmt : σ} (h : P stmt) : Pushes Γ P (push stmt : Emitter ε σ Unit) := by
  intro stmts _ _ stmts' hm
  cases hm
  exact ⟨stmt, by simp, h⟩

theorem fresh_push {stmt : Nat → σ} (h : ∀ n, P (stmt n)) :
    Pushes Γ P (do let n ← fresh; Emission.push (stmt n); return n : Emitter ε σ Nat) := by
  intro stmts _ _ stmts' hm
  cases hm
  exact ⟨stmt stmts.length, by simp, h _⟩

-- The statement is pushed by the first part. The default proof shows that the second one only
-- appends.
theorem here [EmitsSpec m pre Δ] (hm : Pushes Γ P m) (hp : pre Γ := by simp)
    (hf : ∀ a, Emits (Δ a ++ Γ) (f a) fun _ => [] := by
      intro _
      repeat' with_reducible first
        | intro _ | apply Emits.bind | apply Emits.pure | apply Emits.throw | apply Emits.tail
        | split
      all_goals simp_all <;> grind) : Pushes Γ P (m >>= f) := by
  intro stmts hs b stmts' h
  have ⟨a, stmts₁, hma, hfa⟩ := bind_eq_ok.mp h
  have ⟨s, hs₁, hP⟩ := hm stmts hs a stmts₁ hma
  have ⟨hp, _⟩ := hf a stmts₁ ((EmitsSpec.emits hp) stmts hs a stmts₁ hma).right b stmts' hfa
  exact ⟨s, hp.subset hs₁, hP⟩

theorem skip_run [EmitsSpec m pre Δ] (hp : pre Γ)
    (hf : ∀ stmts a stmts', m stmts = .ok (a, stmts') → Pushes (Δ a ++ Γ) P (f a)) :
    Pushes Γ P (m >>= f) := by
  intro stmts hs b stmts' h
  have ⟨a, stmts₁, hma, hfa⟩ := bind_eq_ok.mp h
  exact hf stmts a stmts₁ hma stmts₁ ((EmitsSpec.emits hp) stmts hs a stmts₁ hma).right b stmts' hfa

theorem skip [EmitsSpec m pre Δ] (hf : ∀ a, Pushes (Δ a ++ Γ) P (f a)) (hp : pre Γ := by simp) :
    Pushes Γ P (m >>= f) :=
  .skip_run hp fun _ a _ _ => hf a

theorem bind_lift {e : Except ε α} (hf : ∀ a, e = .ok a → Pushes Γ P (f a)) :
    Pushes Γ P (liftM e >>= f) := by
  intro stmts hs b stmts' h
  have ⟨a, he, hfa⟩ := lift_bind_eq_ok.mp h
  exact hf a he stmts hs b stmts' hfa

theorem throw : Pushes Γ P (throw e : Emitter ε σ α) :=
  fun _ _ _ _ h => by cases h

theorem bind_pure {g : α → β} (h : Pushes Γ P m) :
    Pushes Γ P (do let a ← m; return g a : Emitter ε σ β) := by
  intro stmts hs b stmts' hm
  have ⟨a, stmts₁, hma, hr⟩ := bind_eq_ok.mp hm
  cases hr
  exact h stmts hs a stmts' hma

end Pushes

end Scope

end Emission
