import Mathlib.Data.BitVec

-- Byte-addressed memory with little-endian accesses of several bytes. Addresses wrap around.

namespace ByteMemory

open BitVec

variable {w v : Nat}

abbrev Memory (w : Nat) := BitVec w → BitVec 8

def load (v : Nat) (m : Memory w) : BitVec w → Nat → BitVec v
  | _, 0 => 0
  | addr, n + 1 => (m addr).setWidth v ||| (load v m (addr + 1) n <<< 8)

def store (m : Memory w) : BitVec w → BitVec v → Nat → Memory w
  | _, _, 0 => m
  | addr, value, n + 1 =>
    store (Function.update m addr (value.setWidth 8)) (addr + 1) (value >>> 8) n

-- The address is one of the `n` that start at `addr`.
def Covers (addr : BitVec w) (n : Nat) (a : BitVec w) : Prop :=
  (a - addr).toNat < n

instance (addr : BitVec w) (n : Nat) (a : BitVec w) : Decidable (Covers addr n a) :=
  inferInstanceAs (Decidable (_ < _))

-- Two ranges do not start within each other.
def Apart (x : BitVec w) (m : Nat) (y : BitVec w) (n : Nat) : Prop :=
  m ≤ (y - x).toNat ∧ n ≤ (x - y).toNat

instance (x : BitVec w) (m : Nat) (y : BitVec w) (n : Nat) : Decidable (Apart x m y n) :=
  inferInstanceAs (Decidable (_ ∧ _))

variable {m m' : Memory w} {addr a x y : BitVec w} {value : BitVec v} {n k : Nat}

theorem not_covers_zero : ¬Covers addr 0 a :=
  Nat.not_lt_zero _

theorem toNat_sub_one {u : BitVec w} (h : u ≠ 0) : (u - 1).toNat = u.toNat - 1 := by
  have hu : 1 ≤ u.toNat := by
    have := mt eq_of_toNat_eq h
    simp only [ofNat_eq_ofNat, toNat_ofNat, Nat.zero_mod] at this
    omega
  have h₁ : (1 : BitVec w).toNat = 1 := by
    have := u.isLt
    simp only [ofNat_eq_ofNat, toNat_ofNat]
    exact Nat.mod_eq_of_lt (by omega)
  rw [toNat_sub_of_le (by rw [le_def, h₁]; exact hu), h₁]

theorem covers_succ_iff : Covers addr (n + 1) a ↔ a = addr ∨ Covers (addr + 1) n a := by
  rw [Covers, Covers, sub_add_eq_sub_sub]
  by_cases ha : a = addr
  case pos => simp [ha]
  case neg =>
    have hu : a - addr ≠ 0 := sub_ne_zero.mpr ha
    have := mt eq_of_toNat_eq hu
    simp only [ofNat_eq_ofNat, toNat_ofNat, Nat.zero_mod] at this
    simp only [ha, false_or, toNat_sub_one hu]
    omega

-- Ranges that do not start within each other have no address in common: before the start of the
-- other range, an address of the first one is at least as far from it as its own start.
theorem Apart.not_covers (h : Apart x k y n) (hx : Covers x k a) : ¬Covers y n a := by
  have ⟨h₁, h₂⟩ := h
  have hlt : (a - x).toNat < (y - x).toNat := Nat.lt_of_lt_of_le hx h₁
  have hy : a - y = (a - x) - (y - x) := (sub_sub_sub_cancel_right a y x).symm
  have hxy : x - y = -(y - x) := (neg_sub y x).symm
  have h₃ : (x - y).toNat ≤ (a - y).toNat := by
    rw [hy, hxy, toNat_sub, toNat_neg]
    have := (y - x).isLt
    rw [Nat.mod_eq_of_lt (by omega), Nat.mod_eq_of_lt (by omega)]
    omega
  exact Nat.not_lt.mpr (Nat.le_trans h₂ h₃)

theorem load_congr (h : ∀ a, Covers addr n a → m a = m' a) : load v m addr n = load v m' addr n := by
  induction n generalizing addr
  case zero => rfl
  case succ n hi =>
    have hb := h addr (covers_succ_iff.mpr (.inl rfl))
    have ht := hi fun a ha => h a (covers_succ_iff.mpr (.inr ha))
    simp only [load, hb, ht]

theorem store_of_not_covers (h : ¬Covers addr n a) : store m addr value n a = m a := by
  induction n generalizing m addr value
  case zero => rfl
  case succ n hi =>
    have ⟨ha, hn⟩ := not_or.mp (mt covers_succ_iff.mpr h)
    rw [store, hi hn, Function.update_of_ne ha]

theorem store_congr (h : ¬Covers addr n a → m a = m' a) :
    store m addr value n a = store m' addr value n a := by
  induction n generalizing m m' addr value
  case zero => exact h not_covers_zero
  case succ n hi =>
    apply hi
    intro hn
    by_cases ha : a = addr
    case pos => rw [ha, Function.update_self, Function.update_self]
    case neg =>
      rw [Function.update_of_ne ha, Function.update_of_ne ha]
      exact h fun hc => (covers_succ_iff.mp hc).elim ha hn

theorem load_store_of_apart (h : Apart x k addr n) :
    load u (store m addr value n) x k = load u m x k :=
  load_congr fun _ ha => store_of_not_covers (h.not_covers ha)

theorem getLsbD_load_of_le (h : 8 * n ≤ i) : (load v m addr n).getLsbD i = false := by
  induction n generalizing addr i
  case zero => simp [load]
  case succ n hi =>
    have hb : (m addr).getLsbD i = false := getLsbD_of_ge _ _ (by omega)
    have ht : (load v m (addr + 1) n).getLsbD (i - 8) = false := hi (by omega)
    rw [load, getLsbD_or, getLsbD_setWidth, getLsbD_shiftLeft, hb, ht]
    simp

theorem load_zero : load v (fun _ => 0 : Memory w) addr n = 0 := by
  induction n generalizing addr
  case zero => rfl
  case succ n hi =>
    rw [load, hi]
    simp

theorem exists_covers_of_not_apart (hk : 0 < k) (hn : 0 < n) (h : ¬Apart x k y n) :
    ∃ a, Covers x k a ∧ Covers y n a := by
  by_cases hy : k ≤ (y - x).toNat
  case pos =>
    refine ⟨x, by simpa [Covers] using hk, ?_⟩
    exact Nat.not_le.mp fun hx => h ⟨hy, hx⟩
  case neg => exact ⟨y, Nat.not_le.mp hy, by simpa [Covers] using hn⟩

theorem store_of_covers_of_ones (hv : ∀ i < 8 * n, value.getLsbD i = true) (h : Covers addr n a) :
    store m addr value n a = BitVec.allOnes 8 := by
  induction n generalizing m addr value
  case zero => exact absurd h not_covers_zero
  case succ n hi =>
    rw [store]
    by_cases hn : Covers (addr + 1) n a
    case pos =>
      refine hi (fun i hi => ?_) hn
      rw [getLsbD_ushiftRight]
      exact hv _ (by omega)
    case neg =>
      have ha : a = addr := (covers_succ_iff.mp h).resolve_right hn
      rw [store_of_not_covers hn, ha, Function.update_self]
      apply eq_of_getLsbD_eq
      intro i hi
      rw [getLsbD_setWidth, hv i (by omega), getLsbD_allOnes]
      simp

theorem eq_zero_of_load_eq_zero (hv : 8 * n ≤ v) (h : load v m addr n = 0) (ha : Covers addr n a) :
    m a = 0 := by
  induction n generalizing addr
  case zero => exact absurd ha not_covers_zero
  case succ n hi =>
    have hb : ∀ i, (load v m addr (n + 1)).getLsbD i = false := by simp [h]
    simp only [load, getLsbD_or, Bool.or_eq_false_iff] at hb
    obtain rfl | hn := covers_succ_iff.mp ha
    case inl =>
      apply eq_of_getLsbD_eq
      intro i hi
      have := (hb i).left
      simpa [show i < v by omega] using this
    case inr =>
      refine hi (by omega) ?_ hn
      apply eq_of_getLsbD_eq
      intro i hi
      by_cases hl : i < 8 * n
      case pos =>
        have := (hb (i + 8)).right
        simp only [getLsbD_shiftLeft, show i + 8 < v by omega, show ¬i + 8 < 8 by omega,
          Nat.add_sub_cancel, decide_true, decide_false, Bool.not_false, Bool.true_and] at this
        rw [this, ofNat_eq_ofNat, getLsbD_zero]
      case neg =>
        rw [getLsbD_load_of_le (by omega), ofNat_eq_ofNat, getLsbD_zero]

theorem load_store_ones_ne (hk : 0 < k) (hn : 0 < n) (hu : 8 * k ≤ u)
    (hv : ∀ i < 8 * n, value.getLsbD i = true) (h : ¬Apart x k addr n) :
    load u (store (fun _ => 0) addr value n) x k ≠ load u (fun _ => 0) x k := by
  intro he
  have ⟨a, hx, ha⟩ := exists_covers_of_not_apart hk hn h
  rw [load_zero] at he
  have h₀ := eq_zero_of_load_eq_zero hu he hx
  rw [store_of_covers_of_ones hv ha] at h₀
  contradiction

-- Accesses are reasoned about by the lemmas above, never by running them.
attribute [irreducible] load store

end ByteMemory
