import Mathlib.Logic.Basic

-- Machines that execute a list of instructions one after the other. An instruction leads to a next
-- state, halts the run with an outcome, or panics.

namespace Machine

universe u

inductive Step (σ ω : Type u)
  | next (s : σ)
  | halt (o : ω)
  | panic

variable {ι σ τ ω α : Type u}

namespace Step

def bind (r : Step σ ω) (f : σ → Step τ ω) : Step τ ω :=
  match r with
  | next s => f s
  | halt o => halt o
  | panic => panic

-- The outcome of a run whose last state is turned into an outcome by `done`.
def outcome (done : σ → ω) : Step σ ω → Option ω
  | next s => some (done s)
  | halt o => some o
  | panic => none

@[simp]
theorem bind_next (s : σ) (f : σ → Step τ ω) : (next s).bind f = f s :=
  rfl

@[simp]
theorem bind_halt (o : ω) (f : σ → Step τ ω) : (halt o).bind f = halt o :=
  rfl

@[simp]
theorem bind_panic (f : σ → Step τ ω) : (panic : Step σ ω).bind f = panic :=
  rfl

theorem bind_assoc {υ : Type u} (r : Step σ ω) (f : σ → Step τ ω) (g : τ → Step υ ω) :
    (r.bind f).bind g = r.bind fun s => (f s).bind g := by
  cases r <;> rfl

-- A next state has `P` and an outcome has `Q`.
def All (P : σ → Prop) (Q : ω → Prop) : Step σ ω → Prop
  | next s => P s
  | halt o => Q o
  | panic => True

theorem All.bind {P : σ → Prop} {Q : ω → Prop} {P' : τ → Prop} (h : All P Q r)
    (hf : ∀ s, P s → All P' Q (f s)) : All P' Q (r.bind f) := by
  cases r with
  | next s => exact hf s h
  | halt | panic => exact h

end Step

variable (step : ι → σ → Step σ ω)

def exec : List ι → σ → Step σ ω
  | [], s => .next s
  | i :: is, s => (step i s).bind (exec is)

@[simp]
theorem exec_nil (s : σ) : exec step [] s = .next s :=
  rfl

@[simp]
theorem exec_cons (i : ι) (is : List ι) (s : σ) :
    exec step (i :: is) s = (step i s).bind (exec step is) :=
  rfl

theorem exec_append (is js : List ι) (s : σ) :
    exec step (is ++ js) s = (exec step is s).bind (exec step js) := by
  induction is generalizing s
  case nil => rfl
  case cons i is hi =>
    simp only [List.cons_append, exec_cons, Step.bind_assoc]
    congr
    funext s'
    exact hi s'

def run (done : σ → ω) (is : List ι) (s : σ) : Option ω :=
  (exec step is s).outcome done

theorem run_all {step : ι → σ → Step σ ω} {I : σ → Prop} {Q : ω → Prop}
    (hstep : ∀ i s, I s → (step i s).All I Q) (hdone : ∀ s, I s → Q (done s)) (h : I s)
    (ho : run step done is s = some o) : Q o := by
  have hexec : (exec step is s).All I Q := by
    clear ho
    induction is generalizing s with
    | nil => exact h
    | cons i is ih => exact (hstep i s h).bind fun s' h' => ih h'
  unfold run at ho
  generalize exec step is s = r at hexec ho
  cases r with
  | next s => exact Option.some.inj ho ▸ hdone s hexec
  | halt o => exact Option.some.inj ho ▸ hexec
  | panic => cases ho

-- A forward pass: every instruction is replaced or dropped, depending on an accumulator.
def rewrite (f : α → ι → α × Option ι) : α → List ι → List ι
  | _, [] => []
  | a, i :: is => (f a i).2.toList ++ rewrite f (f a i).1 is

@[simp]
theorem rewrite_nil (f : α → ι → α × Option ι) (a : α) : rewrite f a [] = [] :=
  rfl

@[simp]
theorem rewrite_cons (f : α → ι → α × Option ι) (a : α) (i : ι) (is : List ι) :
    rewrite f a (i :: is) = (f a i).2.toList ++ rewrite f (f a i).1 is :=
  rfl

theorem filter_eq_rewrite (p : ι → Bool) (a : α) (is : List ι) :
    is.filter p = rewrite (fun a i => (a, if p i then some i else none)) a is := by
  induction is
  case nil => rfl
  case cons i is hi =>
    rw [rewrite_cons, ← hi, List.filter_cons]
    cases p i <;> rfl

-- A forward pass that replaces every instruction by any number of others.
def expand (f : α → ι → α × List ι) : α → List ι → α × List ι
  | a, [] => (a, [])
  | a, i :: is => ((expand f (f a i).1 is).1, (f a i).2 ++ (expand f (f a i).1 is).2)

@[simp]
theorem expand_nil (f : α → ι → α × List ι) (a : α) : expand f a [] = (a, []) :=
  rfl

@[simp]
theorem expand_cons (f : α → ι → α × List ι) (a : α) (i : ι) (is : List ι) :
    expand f a (i :: is) =
      ((expand f (f a i).1 is).1, (f a i).2 ++ (expand f (f a i).1 is).2) :=
  rfl

theorem rewrite_eq_expand (f : α → ι → α × Option ι) (a : α) (is : List ι) :
    rewrite f a is = (expand (fun a i => (f a i).map id Option.toList) a is).2 := by
  induction is generalizing a
  case nil => rfl
  case cons i is hi => simp only [rewrite_cons, expand_cons, hi, Prod.map_fst, Prod.map_snd, id]

-- `Along step f P a is s` states that `P` holds before each step that the run of `is` from `s`
-- executes, where `f` updates the accumulator `a` that `P` can refer to.
def Along (f : α → ι → σ → α) (P : α → ι → σ → Prop) : α → List ι → σ → Prop
  | _, [], _ => True
  | a, i :: is, s =>
    P a i s ∧
    match step i s with
    | .next s' => Along f P (f a i s) is s'
    | _ => True

instance Along.decidable (f : α → ι → σ → α) (P : α → ι → σ → Prop) [∀ a i s, Decidable (P a i s)] :
    (a : α) → (is : List ι) → (s : σ) → Decidable (Along step f P a is s)
  | _, [], _ => isTrue trivial
  | a, i :: is, s =>
    have : Decidable (match step i s with
        | .next s' => Along step f P (f a i s) is s'
        | _ => True) :=
      match step i s with
      | .next s' => Along.decidable f P (f a i s) is s'
      | .halt _ => isTrue trivial
      | .panic => isTrue trivial
    inferInstanceAs (Decidable (_ ∧ _))

namespace Along

variable {step} {f : α → ι → σ → α} {P : α → ι → σ → Prop} {a : α} {i : ι} {is : List ι} {s s' : σ}

theorem cons (h : P a i s) (hs : step i s = .next s') (ht : Along step f P (f a i s) is s') :
    Along step f P a (i :: is) s :=
  ⟨h, by simp only [hs, ht]⟩

theorem head (h : Along step f P a (i :: is) s) : P a i s :=
  h.left

theorem tail (h : Along step f P a (i :: is) s) (hs : step i s = .next s') :
    Along step f P (f a i s) is s' := by
  have h := h.right
  simp only [hs] at h
  exact h

end Along

section Simulation

variable {step} {step' : ι → τ → Step τ ω} {done : σ → ω} {done' : τ → ω}

-- What a source instruction did is matched by the target, which executes `j` from state `t` (or
-- nothing). Outcomes that are not in `G` need not be matched, and neither do panics.
def Matches (step' : ι → τ → Step τ ω) (G : ω → Prop) (R : σ → τ → Prop) (j : Option ι) (t : τ) :
    Step σ ω → Prop
  | .next s' => ∃ t', exec step' j.toList t = .next t' ∧ R s' t'
  | .halt o => G o → exec step' j.toList t = .halt o
  | .panic => True

-- The same for any number of target instructions.
def MatchesAll (step' : ι → τ → Step τ ω) (G : ω → Prop) (R : σ → τ → Prop) (js : List ι) (t : τ) :
    Step σ ω → Prop
  | .next s' => ∃ t', exec step' js t = .next t' ∧ R s' t'
  | .halt o => G o → exec step' js t = .halt o
  | .panic => True

theorem Matches.all {G : ω → Prop} {R : σ → τ → Prop} (h : Matches step' G R j t r) :
    MatchesAll step' G R j.toList t r := by
  cases r <;> exact h

@[simp]
theorem exec_singleton (i : ι) (s : σ) : exec step [i] s = step i s := by
  simp only [exec_cons]
  cases step i s <;> rfl

theorem Matches.refl {G : ω → Prop} {R : σ → σ → Prop} (h : ∀ s', step i s = .next s' → R s' s') :
    Matches step G R (some i) s (step i s) := by
  cases hs : step i s
  case next s' => exact ⟨s', by simp [hs], h s' hs⟩
  case halt o =>
    intro _
    simp [hs]
  case panic => exact trivial

variable {G : ω → Prop} {a : α} {is : List ι} {s : σ} {o : ω}

-- The rule for passes: `R` relates the accumulator, the instructions that remain, and the states of
-- source and target before them. It is kept by every instruction, so the outcome is kept by the
-- pass.
theorem run_expand {f : α → ι → α × List ι} {R : α → List ι → σ → τ → Prop}
    (nil : ∀ {a s t}, R a [] s t → done s = done' t)
    (cons : ∀ {a i is s t}, R a (i :: is) s t →
      MatchesAll step' G (R (f a i).1 is) (f a i).2 t (step i s))
    {t : τ} (h : R a is s t) (ho : run step done is s = some o) (hg : G o) :
    run step' done' (expand f a is).2 t = some o := by
  induction is generalizing a s t
  case nil =>
    simp only [run, exec_nil, Step.outcome, expand_nil] at ho ⊢
    rw [← nil h, ho]
  case cons i is hi =>
    have hm := cons h
    simp only [run, exec_cons, expand_cons, exec_append] at ho ⊢
    cases hs : step i s
    case next s' =>
      simp only [hs, MatchesAll, Step.bind_next] at hm ho
      have ⟨t', ht, hr⟩ := hm
      simp only [ht, Step.bind_next]
      exact hi hr ho
    case halt o' =>
      simp only [hs, MatchesAll, Step.bind_halt, Step.outcome, Option.some.injEq] at hm ho
      subst ho
      simp only [hm hg, Step.bind_halt, Step.outcome]
    case panic =>
      simp only [hs, Step.bind_panic, Step.outcome, reduceCtorEq] at ho

theorem run_rewrite {f : α → ι → α × Option ι} {R : α → List ι → σ → τ → Prop}
    (nil : ∀ {a s t}, R a [] s t → done s = done' t)
    (cons : ∀ {a i is s t}, R a (i :: is) s t →
      Matches step' G (R (f a i).1 is) (f a i).2 t (step i s))
    {t : τ} (h : R a is s t) (ho : run step done is s = some o) (hg : G o) :
    run step' done' (rewrite f a is) t = some o := by
  rw [rewrite_eq_expand]
  refine run_expand (R := R) nil ?_ h ho hg
  intro a i is s t h
  exact (cons h).all

-- The rule for passes that replace an instruction by one that does the same, unless the outcome need
-- not be matched. `I` is an invariant of the run.
theorem run_rewrite_same {f : α → ι → α × ι} {I : α → List ι → σ → Prop}
    (same : ∀ {a i is s}, I a (i :: is) s →
      step (f a i).2 s = step i s ∨ ∃ o, step i s = .halt o ∧ ¬G o)
    (inv : ∀ {a i is s s'}, I a (i :: is) s → step i s = .next s' → I (f a i).1 is s')
    (h : I a is s) (ho : run step done is s = some o) (hg : G o) :
    run step done (rewrite (fun a i => (f a i).map id some) a is) s = some o := by
  refine run_rewrite (G := G) (R := fun a is s t => s = t ∧ I a is s) ?nil ?cons ⟨rfl, h⟩ ho hg
  case nil =>
    intro a s t ⟨hst, _⟩
    rw [hst]
  case cons =>
    intro a i is s t ⟨hst, hi⟩
    subst hst
    rcases same hi with hsame | ⟨o, hhalt, hnot⟩
    · rw [← hsame]
      refine .refl fun s' hs' => ⟨rfl, inv hi ?_⟩
      rw [← hsame, hs']
    · rw [hhalt]
      exact fun hgo => absurd hgo hnot

theorem run_rewrite_eq {f : α → ι → α × ι} {I : α → List ι → σ → Prop}
    (same : ∀ {a i is s}, I a (i :: is) s → step (f a i).2 s = step i s)
    (inv : ∀ {a i is s s'}, I a (i :: is) s → step i s = .next s' → I (f a i).1 is s')
    (h : I a is s) :
    run step done (rewrite (fun a i => (f a i).map id some) a is) s = run step done is s := by
  induction is generalizing a s
  case nil => rfl
  case cons i is hi =>
    simp only [run, rewrite_cons, Prod.map_fst, Prod.map_snd, Option.toList_some,
      List.singleton_append, exec_cons, same h]
    cases hs : step i s
    case next s' => exact hi (inv h hs)
    case halt | panic => rfl

-- The rule for passes that only replace instructions which end the run: `P` is the exact condition
-- for the outcome to be kept if it is for the instruction at which the run ends. `I` is an invariant
-- of the run.
theorem run_rewrite_iff_along {f : α → ι → α × Option ι} {P : α → ι → σ → Prop}
    {I : α → List ι → σ → Prop}
    (next : ∀ {a i is s s'}, I a (i :: is) s → step i s = .next s' →
      (f a i).2 = some i ∧ P a i s ∧ I (f a i).1 is s')
    (last : ∀ {a i is s}, I a (i :: is) s → (∀ s', step i s ≠ .next s') →
      ∃ j, (f a i).2 = some j ∧ (∀ s', step j s ≠ .next s') ∧ (step j s = step i s ↔ P a i s))
    (h : I a is s) :
    run step done (rewrite f a is) s = run step done is s ↔
      Along step (fun a i _ => (f a i).1) P a is s := by
  induction is generalizing a s
  case nil => simp [Along]
  case cons i is hi =>
    simp only [run, rewrite_cons, exec_append, exec_cons, Along]
    by_cases hs : ∃ s', step i s = .next s'
    case pos =>
      have ⟨s', hs⟩ := hs
      have ⟨hf, hp, h'⟩ := next h hs
      simp only [hf, Option.toList_some, exec_singleton, hs, Step.bind_next, hp, true_and]
      exact hi h'
    case neg =>
      have hs : ∀ s', step i s ≠ .next s' := fun s' he => hs ⟨s', he⟩
      have ⟨j, hf, hj, hp⟩ := last h hs
      simp only [hf, Option.toList_some, exec_singleton, ← hp]
      cases hi : step i s <;> cases hj' : step j s
      case next.next | next.halt | next.panic => exact absurd hi (hs _)
      case halt.next | panic.next => exact absurd hj' (hj _)
      all_goals simp [Step.outcome]

end Simulation

end Machine
