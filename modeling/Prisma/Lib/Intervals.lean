import Mathlib.Data.List.Basic
import Mathlib.Data.List.Pairwise
import Mathlib.Data.List.TakeWhile
import Mathlib.Order.Bounds.Basic

-- Half-open intervals of numbers in a list, ordered by their starts.

namespace List

variable {α : Type} {p : α → Bool} {f : α → α} {l before after : List α} {a : α} {n : Nat}

-- The index at which a list that is partitioned by `p` changes over.
def partitionPoint (p : α → Bool) (l : List α) : Nat :=
  (l.takeWhile p).length

theorem insertIdx_partitionPoint :
    l.insertIdx (l.partitionPoint p) a = l.takeWhile p ++ a :: l.dropWhile p := by
  induction l with
  | nil => rfl
  | cons x l hi =>
    cases hx : p x with
    | false => simp [partitionPoint, hx]
    | true => simpa [partitionPoint, hx] using hi

theorem getElem?_of_partitionPoint (h : l.partitionPoint p = n + 1) :
    l[n]? = (l.takeWhile p).getLast? := by
  rw [partitionPoint] at h
  nth_rewrite 1 [← takeWhile_append_dropWhile (p := p) (l := l)]
  rw [getElem?_append_left (by omega), getLast?_eq_getElem?, h, Nat.add_sub_cancel]

theorem find?_split (h : l.find? p = some a) :
    ∃ before after, l = before ++ a :: after ∧ l.findIdx p = before.length ∧ p a := by
  have ⟨ha, before, after, hl, hb⟩ := find?_eq_some_iff_append.mp h
  refine ⟨before, after, hl, ?_, ha⟩
  rw [hl, findIdx_append, findIdx_eq_length_of_false (fun b hm => by simpa using hb b hm),
    if_neg (Nat.lt_irrefl _), findIdx_cons, ha, cond_true, Nat.zero_add]

theorem getElem?_split (h : l[n]? = some a) :
    ∃ before after, l = before ++ a :: after ∧ before.length = n := by
  have ⟨hn, ha⟩ := getElem?_eq_some_iff.mp h
  refine ⟨l.take n, l.drop (n + 1), ?_, length_take_of_le (Nat.le_of_lt hn)⟩
  rw [← ha, ← drop_eq_getElem_cons hn, take_append_drop]

theorem eraseIdx_split : (before ++ a :: after).eraseIdx before.length = before ++ after := by
  rw [eraseIdx_append_of_length_le (Nat.le_refl _), Nat.sub_self, eraseIdx_cons_zero]

theorem modify_split :
    (before ++ a :: after).modify before.length f = before ++ f a :: after := by
  induction before with
  | nil => rfl
  | cons x before hi => rw [cons_append, length_cons, modify_succ_cons, hi, cons_append]

theorem getElem?_split_succ : (before ++ a :: after)[before.length + 1]? = after.head? := by
  rw [getElem?_append_right (Nat.le_add_right ..), Nat.add_sub_cancel_left, getElem?_cons_succ,
    head?_eq_getElem?]

theorem mem_takeWhile_of_partitioned (h : l.Pairwise fun a b => p b → p a) :
    a ∈ l.takeWhile p ↔ a ∈ l ∧ p a := by
  induction l with
  | nil => simp
  | cons x l hi =>
    have ⟨hx, hl⟩ := pairwise_cons.mp h
    by_cases hp : p x
    case pos =>
      rw [takeWhile_cons_of_pos hp, mem_cons, mem_cons, hi hl]
      grind
    case neg =>
      rw [takeWhile_cons_of_neg hp, mem_cons]
      grind

theorem mem_dropWhile_of_partitioned (h : l.Pairwise fun a b => p b → p a) :
    a ∈ l.dropWhile p ↔ a ∈ l ∧ ¬p a := by
  induction l with
  | nil => simp
  | cons x l hi =>
    have ⟨hx, hl⟩ := pairwise_cons.mp h
    by_cases hp : p x
    case pos =>
      rw [dropWhile_cons_of_pos hp, mem_cons, hi hl]
      grind
    case neg =>
      rw [dropWhile_cons_of_neg hp, mem_cons]
      grind

end List

class Extent (α : Type) where
  lo : α → Nat
  hi : α → Nat

namespace Extent

variable {α : Type} [Extent α] {as before after : List α} {a b : α} {x len cursor : Nat}

def Covers (a : α) (x : Nat) : Prop :=
  lo a ≤ x ∧ x < hi a

def Meets (a : α) (x y : Nat) : Prop :=
  lo a < y ∧ x < hi a

def Apart (a b : α) : Prop :=
  ∀ x, Covers a x → ¬Covers b x

instance : Std.Symm (@Apart α _) where
  symm _ _ h x hb ha := h x ha hb

structure Ordered (as : List α) : Prop where
  nonempty : ∀ {a}, a ∈ as → lo a < hi a
  apart : as.Pairwise (hi · ≤ lo ·)

namespace Ordered

theorem nil : Ordered ([] : List α) where
  nonempty h := nomatch h
  apart := .nil

theorem sublist (h : Ordered as) (hs : before.Sublist as) : Ordered before where
  nonempty ha := h.nonempty (hs.subset ha)
  apart := h.apart.sublist hs

theorem tail (h : Ordered (a :: as)) : Ordered as :=
  h.sublist (List.sublist_cons_self ..)

theorem head_le (h : Ordered (a :: as)) (hb : b ∈ as) : hi a ≤ lo b :=
  List.rel_of_pairwise_cons h.apart hb

theorem lo_lt (h : Ordered as) : as.Pairwise (lo · < lo ·) :=
  h.apart.imp_of_mem fun ha _ hab => Nat.lt_of_lt_of_le (h.nonempty ha) hab

theorem eq_of_covers (h : Ordered as) (ha : a ∈ as) (hb : b ∈ as) (hx : Covers a x)
    (hy : Covers b x) : a = b := by
  induction as with
  | nil => nomatch ha
  | cons c as ih =>
    cases ha with
    | head =>
      cases hb with
      | head => rfl
      | tail _ hb => exact absurd (h.head_le hb) (by unfold Covers at hx hy; omega)
    | tail _ ha =>
      cases hb with
      | head => exact absurd (h.head_le ha) (by unfold Covers at hx hy; omega)
      | tail _ hb => exact ih h.tail ha hb

theorem eq_of_lo_eq (h : Ordered as) (ha : a ∈ as) (hb : b ∈ as) (he : lo a = lo b) : a = b :=
  h.eq_of_covers ha hb ⟨Nat.le_refl _, h.nonempty ha⟩ ⟨he.ge, he ▸ h.nonempty hb⟩

theorem insert (h : Ordered as) (ha : lo a < hi a) (hf : ∀ b ∈ as, ¬Meets b (lo a) (hi a)) :
    Ordered (as.takeWhile (lo · < lo a) ++ a :: as.dropWhile (lo · < lo a)) := by
  have hp : as.Pairwise fun b c => decide (lo c < lo a) → decide (lo b < lo a) := by
    refine h.lo_lt.imp fun hbc hc => ?_
    have := of_decide_eq_true hc
    exact decide_eq_true (by omega)
  have hbefore : ∀ {b}, b ∈ as.takeWhile (lo · < lo a) → hi b ≤ lo a := by
    intro b hb
    have ⟨hm, hlt⟩ := (List.mem_takeWhile_of_partitioned hp).mp hb
    have := of_decide_eq_true hlt
    have := hf b hm
    unfold Meets at this
    omega
  have hafter : ∀ {b}, b ∈ as.dropWhile (lo · < lo a) → hi a ≤ lo b := by
    intro b hb
    have ⟨hm, hge⟩ := (List.mem_dropWhile_of_partitioned hp).mp hb
    have := of_decide_eq_false (eq_false_of_ne_true hge)
    have := h.nonempty hm
    have := hf b hm
    unfold Meets at this
    omega
  constructor
  case nonempty =>
    intro b hb
    rw [List.mem_append, List.mem_cons] at hb
    match hb with
    | .inl hb => exact h.nonempty (List.takeWhile_subset _ hb)
    | .inr (.inl hb) => exact hb ▸ ha
    | .inr (.inr hb) => exact h.nonempty (List.dropWhile_subset _ hb)
  case apart =>
    refine List.pairwise_append.mpr ⟨h.apart.sublist (List.takeWhile_sublist _), ?_, ?_⟩
    · exact List.pairwise_cons.mpr
        ⟨fun _ => hafter, h.apart.sublist (List.dropWhile_sublist _)⟩
    · intro b hb c hc
      have := hbefore hb
      cases hc with
      | head => exact this
      | tail _ hc =>
        have := hafter hc
        omega

theorem resize (h : Ordered (before ++ a :: after)) (hl : lo b = lo a) (hb : lo b < hi b)
    (hn : ∀ c ∈ after.head?, hi b ≤ lo c) : Ordered (before ++ b :: after) := by
  have ⟨hbefore, htail, hcross⟩ := List.pairwise_append.mp h.apart
  have hafter : ∀ c ∈ after, hi b ≤ lo c := by
    cases after with
    | nil => exact nofun
    | cons d after =>
      have hd := hn d rfl
      intro c hc
      cases hc with
      | head => exact hd
      | tail _ hc =>
        have := h.nonempty (a := d) (by simp)
        have := List.rel_of_pairwise_cons htail.tail hc
        omega
  constructor
  case nonempty =>
    intro c hc
    rw [List.mem_append, List.mem_cons] at hc
    match hc with
    | .inl hc => exact h.nonempty (List.mem_append_left _ hc)
    | .inr (.inl hc) => exact hc ▸ hb
    | .inr (.inr hc) => exact h.nonempty (List.mem_append_right _ (.tail _ hc))
  case apart =>
    refine List.pairwise_append.mpr ⟨hbefore, List.pairwise_cons.mpr ⟨hafter, htail.tail⟩, ?_⟩
    intro c hc d hd
    cases hd with
    | head => exact hl ▸ hcross c hc a (.head _)
    | tail _ hd => exact hcross c hc d (.tail _ hd)

theorem getLast?_covers (h : Ordered as) (ha : a ∈ as) (hx : Covers a x) :
    (as.takeWhile (lo · ≤ x)).getLast? = some a := by
  induction as with
  | nil => nomatch ha
  | cons b as ih =>
    cases ha with
    | head =>
      have hn : as.takeWhile (lo · ≤ x) = [] := by
        cases as with
        | nil => rfl
        | cons c as =>
          have := h.head_le (b := c) (.head _)
          have hc : ¬lo c ≤ x := by unfold Covers at hx; omega
          simp [hc]
      simp [hx.left, hn]
    | tail _ ha =>
      have hb := h.head_le ha
      have := h.nonempty (.head _)
      have hle : lo b ≤ x := by unfold Covers at hx; omega
      have hi := ih h.tail ha
      rw [List.takeWhile_cons, if_pos (decide_eq_true hle), List.getLast?_cons, hi]
      rfl

end Ordered

-- The start of the first gap that is long enough.
def firstFit (len : Nat) : List α → Nat → Nat
  | [], cursor => cursor
  | a :: as, cursor =>
    if hi a ≤ cursor then firstFit len as cursor
    else if cursor + len ≤ lo a then cursor
    else firstFit len as (max cursor (hi a))

theorem firstFit_isLeast (h : Ordered as) :
    IsLeast {x | cursor ≤ x ∧ ∀ a ∈ as, ¬Meets a x (x + len)} (firstFit len as cursor) := by
  induction as generalizing cursor with
  | nil => exact ⟨⟨Nat.le_refl _, nofun⟩, fun _ hx => hx.left⟩
  | cons a as ih =>
    rw [firstFit]
    split
    case isTrue hbelow =>
      -- The interval lies below the cursor and meets nothing from there on.
      have ⟨⟨hle, hf⟩, hmin⟩ := @ih cursor h.tail
      refine ⟨⟨hle, List.forall_mem_cons.mpr ⟨?_, hf⟩⟩, ?_⟩
      · unfold Meets
        omega
      · exact fun x hx => hmin ⟨hx.left, (List.forall_mem_cons.mp hx.right).right⟩
    case isFalse hbelow =>
      split
      case isTrue hgap =>
        refine ⟨⟨Nat.le_refl _, ?_⟩, fun _ hx => hx.left⟩
        intro b hb
        have : lo a ≤ lo b := by
          cases hb with
          | head => exact Nat.le_refl _
          | tail _ hb => exact Nat.le_of_lt (List.rel_of_pairwise_cons h.lo_lt hb)
        unfold Meets
        omega
      case isFalse hgap =>
        -- Nothing from the cursor up to the interval's end is free.
        have ⟨⟨hle, hf⟩, hmin⟩ := @ih (max cursor (hi a)) h.tail
        refine ⟨⟨by omega, List.forall_mem_cons.mpr ⟨?_, hf⟩⟩, ?_⟩
        · unfold Meets
          omega
        · intro x ⟨hx, hfree⟩
          have ⟨ha, hrest⟩ := List.forall_mem_cons.mp hfree
          refine hmin ⟨?_, hrest⟩
          unfold Meets at ha
          omega

end Extent
