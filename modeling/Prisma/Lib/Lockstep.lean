import Prisma.Lib.Run

-- Two machines that run side by side.

namespace Machine

universe u

variable {ι κ σ τ ω : Type u}

-- Two steps lead to related states or end the runs in the same way.
inductive Step.Rel (R : σ → τ → Prop) : Step σ ω → Step τ ω → Prop
  | next {s : σ} {t : τ} (h : R s t) : Rel R (.next s) (.next t)
  | halt (o : ω) : Rel R (.halt o) (.halt o)
  | panic : Rel R .panic .panic

namespace Step.Rel

variable {σ' τ' : Type u} {R R' : σ → τ → Prop} {S : σ' → τ' → Prop} {r : Step σ ω} {r' : Step τ ω}

theorem bind {f : σ → Step σ' ω} {g : τ → Step τ' ω} (h : Rel R r r')
    (hf : ∀ s t, R s t → Rel S (f s) (g t)) : Rel S (r.bind f) (r'.bind g) := by
  cases h with
  | next h => exact hf _ _ h
  | halt o => exact .halt o
  | panic => exact .panic

theorem mono (h : Rel R r r') (hR : ∀ s t, R s t → R' s t) : Rel R' r r' := by
  cases h with
  | next h => exact .next (hR _ _ h)
  | halt o => exact .halt o
  | panic => exact .panic

theorem outcome (h : Rel R r r') (hd : ∀ s t, R s t → done s = done' t) :
    r.outcome done = r'.outcome done' := by
  cases h with
  | next h => exact congrArg some (hd _ _ h)
  | halt | panic => rfl

theorem of_eq {r r' : Step σ ω} (h : r = r') : Rel (· = ·) r r' := by
  subst h
  cases r with
  | next s => exact .next rfl
  | halt o => exact .halt o
  | panic => exact .panic

end Step.Rel

variable {step : ι → σ → Step σ ω} {R : σ → τ → Prop} {s : σ} {t : τ}

theorem exec_map_rel (hstep : ∀ i ∈ is, ∀ s t, R s t → Step.Rel R (step (f i) s) (step' i t))
    (h : R s t) : Step.Rel R (exec step (is.map f) s) (exec step' is t) := by
  induction is generalizing s t with
  | nil => exact .next h
  | cons i is ih =>
    refine (hstep i List.mem_cons_self s t h).bind fun s' t' h' => ?_
    exact ih (fun i hi => hstep i (List.mem_cons_of_mem _ hi)) h'

-- Where the machine is after an instruction. It stays if the run ends there.
def follow (step : ι → σ → Step σ ω) (s : σ) (i : ι) : σ :=
  match step i s with
  | .next s' => s'
  | _ => s

theorem Step.Rel.follow (h : Step.Rel R r (step' i t)) :
    Step.Rel (fun s t' => follow step' t i = t' ∧ R s t') r (step' i t) := by
  generalize ht : step' i t = r' at h
  cases h with
  | next h =>
    refine .next ⟨?_, h⟩
    rw [Machine.follow, ht]
  | halt o => exact .halt o
  | panic => exact .panic

-- Both machines execute the same instructions. Each instruction keeps `R` if `P` holds before it.
theorem Along.rel {α : Type u} {step' : ι → τ → Step τ ω} {f : α → ι → σ → α} {P : α → ι → σ → Prop}
    {R : α → σ → τ → Prop} {a : α} {is : List ι}
    (hstep : ∀ a i s t, R a s t → P a i s → Step.Rel (R (f a i s)) (step i s) (step' i t))
    (h : R a s t) (hP : Along step f P a is s) :
    Step.Rel (fun s t => ∃ a, R a s t) (exec step is s) (exec step' is t) := by
  induction is generalizing a s t with
  | nil => exact .next ⟨a, h⟩
  | cons i is ih =>
    have hi := hstep a i s t h hP.head
    simp only [exec_cons]
    generalize hs : step i s = r at hi
    generalize step' i t = r' at hi
    cases hi with
    | next h' => exact ih h' (hP.tail hs)
    | halt o => exact .halt o
    | panic => exact .panic

end Machine
