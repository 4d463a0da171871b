import Prisma.Lib.Emission

-- Generators that read an input at numbered positions and return how far they have read: a second
-- input that agrees with the first one up to there gives the same statements and the same result.

namespace Emission

variable {ε σ α β γ : Type}

-- `eqAt i x y` states that the inputs `x` and `y` have the same content at position `i`.
def Agree (eqAt : Nat → γ → γ → Prop) (n : Nat) (x y : γ) : Prop :=
  ∀ i < n, eqAt i x y

variable {eqAt : Nat → γ → γ → Prop}

theorem Agree.mono (h : Agree eqAt n x y) (hm : m ≤ n) : Agree eqAt m x y :=
  fun i hi => h i (Nat.lt_of_lt_of_le hi hm)

-- On every input with `P`, a result `a` of the generator satisfies `Q`, the end `finish a` is not
-- before `need`, and the run depends on the input up to that end only.
def Reads (eqAt : Nat → γ → γ → Prop) (P : γ → Prop) (need : Nat) (m : γ → Emitter ε σ α)
    (finish : α → Nat) (Q : γ → α → Prop) : Prop :=
  ∀ x, P x → ∀ stmts a stmts', m x stmts = .ok (a, stmts') →
    need ≤ finish a ∧ Q x a ∧ ∀ y, Agree eqAt (finish a) x y → m y stmts = .ok (a, stmts')

-- What a generator reads, for instance resolution.
class ReadsSpec (eqAt : Nat → γ → γ → Prop) (m : γ → Emitter ε σ α) (pre : outParam Prop)
    (finish : outParam (α → Nat)) (Q : outParam (γ → α → Prop)) : Prop where
  reads : pre → Reads eqAt (fun _ => True) 0 m finish Q

namespace Reads

variable {P : γ → Prop} {need : Nat} {m : γ → Emitter ε σ α} {f : γ → α → Emitter ε σ β}
  {finish fin : α → Nat} {Q R : γ → α → Prop} {end' : β → Nat} {S : γ → β → Prop} {pre : Prop}

theorem mono (h : Reads eqAt P need m finish R) (hQ : ∀ x a, P x → R x a → Q x a) :
    Reads eqAt P need m finish Q := by
  intro x hx stmts a stmts' hm
  have ⟨hn, hr, hm'⟩ := h x hx stmts a stmts' hm
  exact ⟨hn, hQ x a hx hr, hm'⟩

theorem pure (h : ∀ x, P x → need ≤ finish a ∧ Q x a) :
    Reads eqAt P need (fun _ => (Pure.pure a : Emitter ε σ α)) finish Q := by
  intro x hx stmts a' stmts' hm
  cases hm
  have ⟨hn, hq⟩ := h x hx
  exact ⟨hn, hq, fun _ _ => rfl⟩

theorem throw : Reads eqAt P need (fun _ => (throw e : Emitter ε σ α)) finish Q :=
  fun _ _ _ _ _ h => by cases h

theorem andThen {n : Nat} (hm : Reads eqAt P n m fin R)
    (hf : ∀ a, Reads eqAt (fun x => P x ∧ R x a) (max need (fin a)) (fun x => f x a) end' S) :
    Reads eqAt P need (fun x => m x >>= f x) end' S := by
  intro x hx stmts b stmts' h
  have ⟨a, stmts₁, hma, hfa⟩ := bind_eq_ok.mp h
  have ⟨_, hr, hm'⟩ := hm x hx stmts a stmts₁ hma
  have ⟨hn, hs, hf'⟩ := hf a x ⟨hx, hr⟩ stmts₁ b stmts' hfa
  refine ⟨by omega, hs, fun y hy => bind_eq_ok.mpr ⟨a, stmts₁, hm' y (hy.mono ?_), hf' y hy⟩⟩
  exact Nat.le_trans (Nat.le_max_right ..) hn

theorem bind [spec : ReadsSpec eqAt m pre fin R] (hp : pre)
    (hf : ∀ a, Reads eqAt (fun x => P x ∧ R x a) (max need (fin a)) (fun x => f x a) end' S) :
    Reads eqAt P need (fun x => m x >>= f x) end' S :=
  andThen (fun x _ => spec.reads hp x trivial) hf

theorem bind_const {m : Emitter ε σ α} (hf : ∀ a, Reads eqAt P need (fun x => f x a) end' S) :
    Reads eqAt P need (fun x => m >>= f x) end' S := by
  intro x hx stmts b stmts' h
  have ⟨a, stmts₁, hm, hfa⟩ := bind_eq_ok.mp h
  have ⟨hn, hs, hf'⟩ := hf a x hx stmts₁ b stmts' hfa
  exact ⟨hn, hs, fun y hy => bind_eq_ok.mpr ⟨a, stmts₁, hm, hf' y hy⟩⟩

theorem const {m : Emitter ε σ α} (h : ∀ x a, P x → need ≤ finish a ∧ Q x a) :
    Reads eqAt P need (fun _ => m) finish Q :=
  fun x hx _ a _ hm => ⟨(h x a hx).left, (h x a hx).right, fun _ _ => hm⟩

theorem bind_lift {e : Except ε α}
    (hf : ∀ a, e = .ok a → Reads eqAt P need (fun x => f x a) end' S) :
    Reads eqAt P need (fun x => liftM e >>= f x) end' S := by
  intro x hx stmts b stmts' h
  have ⟨a, he, hfa⟩ := lift_bind_eq_ok.mp h
  have ⟨hn, hs, hf'⟩ := hf a he x hx stmts b stmts' hfa
  exact ⟨hn, hs, fun y hy => lift_bind_eq_ok.mpr ⟨a, he, hf' y hy⟩⟩

theorem tail [spec : ReadsSpec eqAt m pre fin R] (hp : pre)
    (h : ∀ x a, P x → R x a → need ≤ finish a ∧ fin a ≤ finish a ∧ Q x a) :
    Reads eqAt P need m finish Q := by
  intro x hx stmts a stmts' hm
  have ⟨_, hr, hm'⟩ := spec.reads hp x trivial stmts a stmts' hm
  have ⟨hn, hle, hq⟩ := h x a hx hr
  exact ⟨hn, hq, fun y hy => hm' y (hy.mono hle)⟩

theorem ite {c : Prop} [Decidable c] {m' : γ → Emitter ε σ α}
    (h : c → Reads eqAt P need m finish Q) (h' : ¬c → Reads eqAt P need m' finish Q) :
    Reads eqAt P need (fun x => if c then m x else m' x) finish Q := by
  split
  case isTrue hc => exact h hc
  case isFalse hc => exact h' hc

end Reads

-- Derives the specification of a generator from its body, as `EmitsSpec.derive` does.
theorem ReadsSpec.derive {pre : Prop} {Q : γ → α → Prop} (h : ∀ x, m x = m' x := by intro; rfl)
    (d : pre → Reads eqAt (fun _ => True) 0 m' finish Q := by
      intro _
      try first
        | apply Reads.bind_lift | apply Reads.bind_const | apply Reads.bind | apply Reads.ite
      repeat' with_reducible first
        | intro _ | apply Reads.bind_lift | apply Reads.bind_const | apply Reads.bind
        | apply Reads.pure | apply Reads.throw | apply Reads.tail | split
      all_goals first | trivial | omega | simp_all <;> omega) : ReadsSpec eqAt m pre finish Q := by
  have hm : m = m' := funext h
  exact ⟨fun hp => hm ▸ d hp⟩

-- A generator that does not look at the input.
instance (priority := low) (m : Emitter ε σ α) :
    ReadsSpec eqAt (fun _ : γ => m) True (fun _ => 0) fun _ _ => True where
  reads _ _ _ _ _ _ h := ⟨Nat.zero_le _, trivial, fun _ _ => h⟩

theorem ReadsSpec.lift {e : γ → Except ε α} {pre : Prop} {finish : α → Nat} {Q : γ → α → Prop}
    (h : pre → ∀ x a, e x = .ok a → Q x a ∧ ∀ y, Agree eqAt (finish a) x y → e y = .ok a) :
    ReadsSpec eqAt (fun x => (liftM (e x) : Emitter ε σ α)) pre finish Q where
  reads hp x _ stmts a stmts' hm := by
    cases he : e x with
    | error _ => simp only [he] at hm; cases hm
    | ok b =>
      simp only [he] at hm
      cases hm
      have ⟨hq, ha⟩ := h hp x a he
      exact ⟨Nat.zero_le _, hq, fun y hy => by simp only [ha y hy]; rfl⟩

end Emission
