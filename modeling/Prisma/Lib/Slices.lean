import Mathlib.Data.List.Basic

-- Parts of lists by position.

namespace List

variable {α : Type} {l src : List α} {a : α} {off len i : Nat}

def slice (l : List α) (off len : Nat) : List α :=
  (l.drop off).take len

-- The elements from `off` on are replaced by those of `src`.
def overwrite (l : List α) (off : Nat) (src : List α) : List α :=
  l.mapIdx fun i a => if off ≤ i then src.getD (i - off) a else a

-- Cuts or fills up with `a`.
def resize (l : List α) (len : Nat) (a : α) : List α :=
  l.take len ++ replicate (len - l.length) a

theorem exists_last {P : α → Prop} (h : ∃ a ∈ l, P a) :
    ∃ before a after, l = before ++ a :: after ∧ P a ∧ ∀ b ∈ after, ¬P b := by
  induction l with
  | nil => simp at h
  | cons b l hi =>
    by_cases hl : ∃ a ∈ l, P a
    case pos =>
      have ⟨before, a, after, hsplit, ha, hafter⟩ := hi hl
      exact ⟨b :: before, a, after, by rw [hsplit, cons_append], ha, hafter⟩
    case neg =>
      have hb : P b := by simpa [hl] using h
      exact ⟨[], b, l, rfl, hb, by simpa using hl⟩

theorem length_slice (h : off + len ≤ l.length) : (l.slice off len).length = len := by
  rw [slice, length_take, length_drop]
  omega

theorem getElem?_slice : (l.slice off len)[i]? = if i < len then l[off + i]? else none := by
  rw [slice, getElem?_take, getElem?_drop]

theorem slice_slice (h : off' + len' ≤ len) :
    (l.slice off len).slice off' len' = l.slice (off + off') len' := by
  refine ext_getElem? fun i => ?_
  rw [getElem?_slice, getElem?_slice, getElem?_slice, Nat.add_assoc]
  split
  · rw [if_pos (by omega)]
  · rfl

@[simp]
theorem length_overwrite : (l.overwrite off src).length = l.length :=
  length_mapIdx

section Overwrite

variable (h : off + src.length ≤ l.length)

include h

theorem getElem?_overwrite :
    (l.overwrite off src)[i]? = if off ≤ i ∧ i < off + src.length then src[i - off]? else l[i]? := by
  rw [overwrite, getElem?_mapIdx]
  by_cases hi : off ≤ i ∧ i < off + src.length
  case pos =>
    have hl : i < l.length := by omega
    have hs : i - off < src.length := by omega
    rw [if_pos hi, getElem?_eq_getElem hl, Option.map_some, if_pos hi.left,
      getD_eq_getElem?_getD, getElem?_eq_getElem hs, Option.getD_some]
  case neg =>
    rw [if_neg hi]
    cases hl : l[i]? with
    | none => rfl
    | some a =>
      rw [Option.map_some]
      split
      case isTrue hle =>
        rw [getD_eq_getElem?_getD, getElem?_eq_none (by omega), Option.getD_none]
      case isFalse => rfl

theorem slice_overwrite_self :
    (l.overwrite off src).slice off src.length = src := by
  refine ext_getElem? fun i => ?_
  rw [getElem?_slice, getElem?_overwrite h]
  split
  case isTrue hi => rw [if_pos (by omega), Nat.add_sub_cancel_left]
  case isFalse hi => rw [getElem?_eq_none (by omega)]

theorem slice_overwrite_apart (ha : off' + len ≤ off ∨ off + src.length ≤ off') :
    (l.overwrite off src).slice off' len = l.slice off' len := by
  refine ext_getElem? fun i => ?_
  rw [getElem?_slice, getElem?_slice, getElem?_overwrite h]
  split
  · rw [if_neg (by omega)]
  · rfl

theorem overwrite_overwrite_self {src' : List α} (hl : src'.length = src.length) :
    (l.overwrite off src).overwrite off src' = l.overwrite off src' := by
  refine ext_getElem? fun i => ?_
  rw [getElem?_overwrite (by rw [length_overwrite]; omega), getElem?_overwrite h,
    getElem?_overwrite (by omega), hl]
  split <;> rfl

theorem overwrite_comm {src' : List α}
    (h' : off' + src'.length ≤ l.length) (ha : off' + src'.length ≤ off ∨ off + src.length ≤ off') :
    (l.overwrite off src).overwrite off' src' = (l.overwrite off' src').overwrite off src := by
  refine ext_getElem? fun i => ?_
  rw [getElem?_overwrite (by rwa [length_overwrite]), getElem?_overwrite h,
    getElem?_overwrite (by rwa [length_overwrite]), getElem?_overwrite h']
  split
  case isTrue hi => rw [if_neg (by omega)]
  case isFalse => rfl

end Overwrite

theorem overwrite_slice (h : off + len ≤ l.length) : l.overwrite off (l.slice off len) = l := by
  have hl := length_slice h
  refine ext_getElem? fun i => ?_
  rw [getElem?_overwrite (by omega), hl]
  split
  case isTrue hi => rw [getElem?_slice, if_pos (by omega), Nat.add_sub_cancel' hi.left]
  case isFalse => rfl

@[simp]
theorem length_resize : (l.resize len a).length = len := by
  rw [resize, length_append, length_take, length_replicate]
  omega

theorem getElem?_resize :
    (l.resize len a)[i]? = if i < len then some (l.getD i a) else none := by
  rw [resize, getElem?_append, length_take, getD_eq_getElem?_getD]
  by_cases hl : i < len
  case neg =>
    rw [if_neg (by omega), if_neg hl, getElem?_replicate, if_neg (by omega)]
  case pos =>
    rw [if_pos hl]
    split
    case isTrue h =>
      rw [getElem?_take_of_lt hl, getElem?_eq_getElem (by omega), Option.getD_some]
    case isFalse h =>
      rw [getElem?_replicate, if_pos (by omega), getElem?_eq_none (by omega), Option.getD_none]

end List
