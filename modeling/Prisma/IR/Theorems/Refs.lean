import Prisma.IR.Refs

-- The two traversals of the refs of an operation.

namespace Prisma.Op

variable {op : Op} {f g : Ref → Ref} {r : Ref}

-- `map_refs` visits a ref if what it makes of the operation depends on the new value of the ref.
def Visits (op : Op) (r : Ref) : Prop :=
  ∃ f g : Ref → Ref, (∀ r' ≠ r, f r' = g r') ∧ op.mapRefs f ≠ op.mapRefs g

theorem mapRefs_congr (h : ∀ r ∈ op.operandRefs, f r = g r)
    (h' : ∀ r ∈ op.secondResult, f r = g r) : op.mapRefs f = op.mapRefs g := by
  cases op <;> first
    | rfl
    | simp only [mapRefs]
      congr 1 <;> first
        | exact h' _ rfl
        | exact h _ (by simp [operandRefs])
        | exact Option.map_congr fun r hr => h r (by simp [operandRefs, hr])

theorem operandRefs_mapRefs : (op.mapRefs f).operandRefs = op.operandRefs.map f := by
  cases op <;> first
    | rfl
    | simp [mapRefs, operandRefs, Option.toList_map]

theorem secondResult_mapRefs : (op.mapRefs f).secondResult = op.secondResult.map f := by
  cases op <;> rfl

-- The refs that `collect_operand_refs` gathers are those that `map_refs` visits, apart from the
-- second result.
theorem visits_iff : op.Visits r ↔ r ∈ op.operandRefs ∨ op.secondResult = some r := by
  constructor
  case mp =>
    rintro ⟨f, g, hfg, hne⟩
    by_contra hno
    rw [not_or] at hno
    refine hne (mapRefs_congr (fun r' hr' => hfg r' ?_) fun r' hr' => hfg r' ?_)
    · rintro rfl
      exact hno.left hr'
    · rintro rfl
      exact hno.right hr'
  case mpr =>
    intro h
    -- the successor of a ref is another ref
    refine ⟨id, Function.update id r (r + 1), fun r' hne => by simp [hne], fun he => ?_⟩
    cases h with
    | inl hr =>
      have hm := congrArg operandRefs he
      rw [operandRefs_mapRefs, operandRefs_mapRefs, List.map_inj_left] at hm
      simpa using hm r hr
    | inr hr =>
      have hm := congrArg secondResult he
      rw [secondResult_mapRefs, secondResult_mapRefs, hr] at hm
      simp at hm

end Prisma.Op
