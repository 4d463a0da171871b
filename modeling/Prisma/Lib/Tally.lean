import Mathlib.Algebra.Order.BigOperators.Group.List
import Mathlib.Algebra.Order.Ring.Nat

-- Sums over the members of a list that change one at a time, and the largest of them.

namespace List

variable {α : Type} {l : List α} {i : Nat} {a b : α} {f : α → Nat}

theorem getElem?_set_cases {xs : List α} {i j : Nat} {x y : α} (h : (xs.set i x)[j]? = some y) :
    (j = i ∧ y = x) ∨ (j ≠ i ∧ xs[j]? = some y) := by
  rw [List.getElem?_set] at h
  split at h
  case isTrue hi =>
    split at h
    · exact .inl ⟨hi.symm, (Option.some.inj h).symm⟩
    · cases h
  case isFalse hi => exact .inr ⟨Ne.symm hi, h⟩

theorem set_eq_self (h : l[i]? = some a) : l.set i a = l := by
  have ⟨hlt, ha⟩ := getElem?_eq_some_iff.mp h
  rw [← ha, set_getElem_self]

theorem getElem?_set_of_eq_some (h : l[i]? = some a) : (l.set i b)[i]? = some b :=
  have ⟨hlt, _⟩ := getElem?_eq_some_iff.mp h
  getElem?_set_self hlt

theorem sum_map_set (h : l[i]? = some a) :
    ((l.set i b).map f).sum + f a = (l.map f).sum + f b := by
  induction l generalizing i with
  | nil => nomatch h
  | cons c l hi =>
    cases i with
    | zero =>
      cases h
      simp only [set_cons_zero, map_cons, sum_cons]
      omega
    | succ i =>
      have := hi h
      simp only [set_cons_succ, map_cons, sum_cons]
      omega

theorem sum_map_set_of_eq (h : l[i]? = some a) (hf : f b = f a) :
    ((l.set i b).map f).sum = (l.map f).sum := by
  have := @sum_map_set _ _ _ _ b f h
  omega

theorem sum_map_concat : ((l ++ [a]).map f).sum = (l.map f).sum + f a := by
  simp

theorem le_sum_map (h : a ∈ l) : f a ≤ (l.map f).sum :=
  le_sum_of_mem (mem_map_of_mem h)

theorem sum_map_eq_zero (h : ∀ a ∈ l, f a = 0) : (l.map f).sum = 0 := by
  induction l with
  | nil => rfl
  | cons a l hi =>
    rw [map_cons, sum_cons, h a (.head _), hi fun b hb => h b (.tail _ hb)]

theorem le_foldl_max {m : Nat} : m ≤ l.foldl (fun m a => max m (f a)) m ∧
    ∀ a ∈ l, f a ≤ l.foldl (fun m a => max m (f a)) m := by
  induction l generalizing m with
  | nil => exact ⟨le_refl _, nofun⟩
  | cons b l hi =>
    have ⟨hle, hmem⟩ := @hi (max m (f b))
    refine ⟨(le_max_left ..).trans hle, fun a ha => ?_⟩
    rcases mem_cons.mp ha with rfl | ha
    · exact (le_max_right ..).trans hle
    · exact hmem a ha

end List
