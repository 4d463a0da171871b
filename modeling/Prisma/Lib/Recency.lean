import Mathlib.Data.List.Basic
import Mathlib.Data.List.Nodup

-- Time stamps that order things by their last use. The log of the uses has the latest one first.

namespace Recency

open List

variable {α : Type} [DecidableEq α] {tick tick' : α → Option Nat} {log : List α} {a b : α}
  {m n : Nat}

def MoreRecent (log : List α) (a b : α) : Prop :=
  log.idxOf a < log.idxOf b

theorem not_moreRecent_cons : ¬MoreRecent (a :: log) b a := by
  rw [MoreRecent, idxOf_cons_self]
  exact Nat.not_lt_zero _

-- A more recent use has a higher time stamp.
structure Ordered (tick : α → Option Nat) (log : List α) : Prop where
  mem : ∀ {a m}, tick a = some m → a ∈ log
  lt : ∀ {a b m n}, tick a = some m → tick b = some n → MoreRecent log a b → n < m

omit [DecidableEq α] in
theorem getElem?_reverse_eq_some {l : List α} (h : l[m]? = some a) :
    m < l.length ∧ l.reverse[l.length - 1 - m]? = some a := by
  have hm : m < l.length := (List.getElem?_eq_some_iff.mp h).fst
  refine ⟨hm, ?_⟩
  rw [List.getElem?_reverse (by omega), ← h]
  congr 1
  omega

namespace Ordered

theorem mono (h : Ordered tick log) (hs : ∀ {a m}, tick' a = some m → tick a = some m) :
    Ordered tick' log where
  mem ha := h.mem (hs ha)
  lt ha hb := h.lt (hs ha) (hs hb)

theorem moreRecent (h : Ordered tick log) (ha : tick a = some m) (hb : tick b = some n)
    (hne : a ≠ b) (hle : m ≤ n) : MoreRecent log b a := by
  have hd : log.idxOf a ≠ log.idxOf b := fun he => hne ((idxOf_inj (h.mem ha)).mp he)
  have hn : ¬MoreRecent log a b := fun hr => Nat.not_lt.mpr hle (h.lt ha hb hr)
  exact Nat.lt_of_le_of_ne (Nat.not_lt.mp hn) hd.symm

theorem use (h : Ordered tick log) (now : Nat) (hnow : ∀ {m}, tick' a = some m → m = now)
    (hs : ∀ {b m}, b ≠ a → tick' b = some m → tick b = some m ∧ m < now) :
    Ordered tick' (a :: log) where
  mem {b m} hb := by
    by_cases he : b = a
    case pos => exact he ▸ mem_cons_self
    case neg => exact mem_cons_of_mem a (h.mem (hs he hb).left)
  lt {b c m n} hb hc hr := by
    have hca : c ≠ a := by
      rintro rfl
      exact not_moreRecent_cons hr
    have ⟨hc, hlt⟩ := hs hca hc
    by_cases hba : b = a
    case pos =>
      subst hba
      exact hnow hb ▸ hlt
    case neg =>
      refine h.lt (hs hba hb).left hc ?_
      rw [MoreRecent, idxOf_cons_ne _ (Ne.symm hba), idxOf_cons_ne _ (Ne.symm hca)] at hr
      exact Nat.lt_of_succ_lt_succ hr

theorem number {l : List α} (hn : l.Nodup) (hs : ∀ {a m}, tick a = some m → l[m]? = some a) :
    Ordered tick (l.reverse ++ log) where
  mem ha := mem_append_left log (mem_reverse.mpr (mem_of_getElem? (hs ha)))
  lt {a b m n} ha hb hr := by
    have hi : ∀ {a m}, tick a = some m →
        m < l.length ∧ (l.reverse ++ log).idxOf a = l.length - 1 - m := by
      intro a m ha
      have ⟨hm, ha⟩ := getElem?_reverse_eq_some (hs ha)
      have ⟨hlt, he⟩ := List.getElem?_eq_some_iff.mp ha
      rw [idxOf_append_of_mem (mem_of_getElem? ha), ← he]
      exact ⟨hm, (nodup_reverse.mpr hn).idxOf_getElem _ hlt⟩
    have ⟨hm, ha⟩ := hi ha
    have ⟨hn, hb⟩ := hi hb
    rw [MoreRecent, ha, hb] at hr
    omega

end Ordered

end Recency
