import Prisma.Lib.Emission
import Prisma.Lib.Run

-- Running the statements that a generator emits.

namespace Emission

open Machine

variable {ε σ α β ς ω : Type} (step : σ → ς → Step ς ω)

-- The generator succeeds, and the statements that it appends to `n` others run from `s` to the end.
-- `Q` holds then of the result, the number of statements and the state.
def Runs (m : Emitter ε σ α) (n : Nat) (s : ς) (Q : α → Nat → ς → Prop) : Prop :=
  ∀ stmts, stmts.length = n → ∃ a new s', m stmts = .ok (a, stmts ++ new) ∧
    exec step new s = .next s' ∧ Q a (n + new.length) s'

-- A run that ends before the last statement, with an outcome or a panic.
def ended : Option ω → Step ς ω
  | some o => .halt o
  | none => .panic

-- The generator succeeds, and one of the statements that it appends ends the run from `s`.
def Halts (m : Emitter ε σ α) (n : Nat) (s : ς) (o : Option ω) : Prop :=
  ∀ stmts, stmts.length = n → ∃ a new, m stmts = .ok (a, stmts ++ new) ∧ exec step new s = ended o

-- The generator succeeds and leaves the statements alone that are there already.
def Total (m : Emitter ε σ α) : Prop :=
  ∀ stmts, ∃ a new, m stmts = .ok (a, stmts ++ new)

-- For instance resolution.
class TotalSpec (m : Emitter ε σ α) : Prop where
  total : Total m

namespace Total

variable {m : Emitter ε σ α} {f : α → Emitter ε σ β}

theorem pure : Total (Pure.pure a : Emitter ε σ α) :=
  fun stmts => ⟨a, [], by rw [List.append_nil]; rfl⟩

theorem bind (hm : Total m) (hf : ∀ a, Total (f a)) : Total (m >>= f) := by
  intro stmts
  have ⟨a, new, h⟩ := hm stmts
  have ⟨b, new', h'⟩ := hf a (stmts ++ new)
  exact ⟨b, new ++ new', bind_eq_ok.mpr ⟨a, _, h, by rw [h', List.append_assoc]⟩⟩

theorem push : Total (push stmt : Emitter ε σ Unit) :=
  fun _ => ⟨(), [stmt], rfl⟩

theorem fresh : Total (fresh : Emitter ε σ Nat) :=
  fun stmts => ⟨stmts.length, [], by rw [List.append_nil]; rfl⟩

end Total

instance {a : α} : TotalSpec (pure a : Emitter ε σ α) :=
  ⟨.pure⟩

instance {m : Emitter ε σ α} {f : α → Emitter ε σ β} [TotalSpec m] [hf : ∀ a, TotalSpec (f a)] :
    TotalSpec (m >>= f) :=
  ⟨.bind TotalSpec.total fun a => (hf a).total⟩

instance {c : Prop} [Decidable c] {m m' : Emitter ε σ α} [hm : TotalSpec m] [hm' : TotalSpec m'] :
    TotalSpec (if c then m else m') := by
  split
  case isTrue => exact hm
  case isFalse => exact hm'

-- Derives the specification of a generator from its body.
theorem TotalSpec.derive (h : m = m') [d : TotalSpec m'] : TotalSpec m :=
  h ▸ d

variable {step} {m : Emitter ε σ α} {f : α → Emitter ε σ β} {n : Nat} {s : ς} {o : Option ω}
  {Q Q' : α → Nat → ς → Prop} {P : β → Nat → ς → Prop}

namespace Runs

theorem pure (h : Q a n s) : Runs step (Pure.pure a : Emitter ε σ α) n s Q :=
  fun stmts _ => ⟨a, [], s, by rw [List.append_nil]; rfl, rfl, h⟩

theorem bind (h : Runs step m n s fun a n s => Runs step (f a) n s P) :
    Runs step (m >>= f) n s P := by
  intro stmts hn
  have ⟨a, new, s₁, hm, he, hf⟩ := h stmts hn
  have ⟨b, new', s₂, hm', he', hp⟩ := hf (stmts ++ new) (by rw [List.length_append, hn])
  refine ⟨b, new ++ new', s₂, bind_eq_ok.mpr ⟨a, _, hm, ?_⟩, ?_, ?_⟩
  case refine_1 => rw [hm', List.append_assoc]
  case refine_2 => rw [exec_append, he, Step.bind_next, he']
  case refine_3 => rwa [List.length_append, ← Nat.add_assoc]

theorem bind_lift {e : Except ε α} {a : α} (he : e = .ok a) (h : Runs step (f a) n s P) :
    Runs step (liftM e >>= f) n s P := by
  intro stmts hn
  have ⟨b, new, s', hm, hs⟩ := h stmts hn
  exact ⟨b, new, s', lift_bind_eq_ok.mpr ⟨a, he, hm⟩, hs⟩

theorem mono (h : Runs step m n s Q) (hQ : ∀ a n s, Q a n s → Q' a n s) : Runs step m n s Q' := by
  intro stmts hn
  have ⟨a, new, s', hm, he, hq⟩ := h stmts hn
  exact ⟨a, new, s', hm, he, hQ _ _ _ hq⟩

theorem push {Q : Unit → Nat → ς → Prop} (he : step stmt s = .next s') (h : Q () (n + 1) s') :
    Runs step (push stmt : Emitter ε σ Unit) n s Q :=
  fun _ _ => ⟨(), [stmt], s', rfl, by simp [he], h⟩

theorem fresh_push {stmt : Nat → σ} {s' : ς} {Q : Nat → Nat → ς → Prop}
    (he : step (stmt n) s = .next s') (h : Q n (n + 1) s') :
    Runs step (do let n ← fresh; Emission.push (stmt n); return n : Emitter ε σ Nat) n s Q := by
  intro stmts hn
  subst hn
  exact ⟨stmts.length, [stmt stmts.length], s', rfl, by simp [he], h⟩

end Runs

theorem ended_bind {f : ς → Step ς ω} : (ended o).bind f = ended o := by
  cases o <;> rfl

namespace Halts

theorem bind (h : Halts step m n s o) (hf : ∀ a, Total (f a)) : Halts step (m >>= f) n s o := by
  intro stmts hn
  have ⟨a, new, hm, he⟩ := h stmts hn
  have ⟨b, new', hm'⟩ := hf a (stmts ++ new)
  refine ⟨b, new ++ new', bind_eq_ok.mpr ⟨a, _, hm, ?_⟩, ?_⟩
  case refine_1 => rw [hm', List.append_assoc]
  case refine_2 => rw [exec_append, he, ended_bind]

theorem after (h : Runs step m n s fun a n s => Halts step (f a) n s o) :
    Halts step (m >>= f) n s o := by
  intro stmts hn
  have ⟨a, new, s₁, hm, he, hf⟩ := h stmts hn
  have ⟨b, new', hm', he'⟩ := hf (stmts ++ new) (by rw [List.length_append, hn])
  refine ⟨b, new ++ new', bind_eq_ok.mpr ⟨a, _, hm, ?_⟩, ?_⟩
  case refine_1 => rw [hm', List.append_assoc]
  case refine_2 => rw [exec_append, he, Step.bind_next, he']

theorem push {stmt : σ} (he : step stmt s = ended o) :
    Halts step (push stmt : Emitter ε σ Unit) n s o :=
  fun _ _ => ⟨(), [stmt], rfl, by rw [exec_cons, he, ended_bind]⟩

theorem fresh_push {stmt : Nat → σ} (he : step (stmt n) s = ended o) :
    Halts step (do let n ← fresh; Emission.push (stmt n); return n : Emitter ε σ Nat) n s o := by
  intro stmts hn
  subst hn
  exact ⟨stmts.length, [stmt stmts.length], rfl, by rw [exec_cons, he, ended_bind]⟩

end Halts

end Emission
