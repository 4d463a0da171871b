import Mathlib.Data.BitVec

-- Numbers as lists of bytes, the lowest byte first.

namespace LittleEndian

open List BitVec

def encode : Nat → Nat → List (BitVec 8)
  | 0, _ => []
  | k + 1, n => BitVec.ofNat 8 n :: encode k (n / 256)

def decode : List (BitVec 8) → Nat
  | [] => 0
  | b :: bytes => b.toNat + 256 * decode bytes

variable {k n : Nat} {bytes : List (BitVec 8)}

@[simp]
theorem length_encode : (encode k n).length = k := by
  induction k generalizing n with
  | zero => rfl
  | succ k hi => rw [encode, length_cons, hi]

theorem getElem?_encode :
    (encode k n)[i]? = if i < k then some (BitVec.ofNat 8 (n / 256 ^ i)) else none := by
  induction k generalizing n i with
  | zero => rfl
  | succ k hi =>
    rw [encode]
    cases i with
    | zero => simp
    | succ i =>
      rw [List.getElem?_cons_succ, hi, Nat.div_div_eq_div_mul, ← Nat.pow_succ']
      simp only [Nat.add_lt_add_iff_right]

theorem decode_lt : decode bytes < 256 ^ bytes.length := by
  induction bytes with
  | nil => decide
  | cons b bytes hi =>
    have := b.isLt
    rw [decode, length_cons, Nat.pow_succ]
    omega

theorem decode_encode (h : n < 256 ^ k) : decode (encode k n) = n := by
  induction k generalizing n with
  | zero => rw [Nat.lt_one_iff.mp h]; rfl
  | succ k hi =>
    rw [Nat.pow_succ] at h
    rw [encode, decode, hi (Nat.div_lt_of_lt_mul (by omega)), toNat_ofNat]
    omega

theorem encode_mod : encode k (n % 256 ^ k) = encode k n := by
  induction k generalizing n with
  | zero => rfl
  | succ k hi =>
    have hb : BitVec.ofNat 8 (n % (256 ^ k * 256)) = BitVec.ofNat 8 n := by
      apply eq_of_toNat_eq
      rw [toNat_ofNat, toNat_ofNat]
      exact Nat.mod_mod_of_dvd _ (Nat.dvd_mul_left ..)
    have hd : n % (256 ^ k * 256) / 256 = n / 256 % 256 ^ k := by
      rw [Nat.mul_comm, Nat.mod_mul_right_div_self]
    rw [encode, encode, Nat.pow_succ, hb, hd, hi]

theorem decode_encode_mod : decode (encode k n) = n % 256 ^ k := by
  rw [← encode_mod, decode_encode (Nat.mod_lt _ (Nat.pow_pos (by decide)))]

theorem encode_decode : encode bytes.length (decode bytes) = bytes := by
  induction bytes with
  | nil => rfl
  | cons b bytes hi =>
    have := b.isLt
    have hd : (b.toNat + 256 * decode bytes) / 256 = decode bytes := by omega
    have hb : BitVec.ofNat 8 (b.toNat + 256 * decode bytes) = b := by
      apply eq_of_toNat_eq
      rw [toNat_ofNat]
      omega
    rw [decode, length_cons, encode, hd, hb, hi]

theorem decode_inj {bytes' : List (BitVec 8)} (hl : bytes.length = bytes'.length) :
    decode bytes = decode bytes' ↔ bytes = bytes' := by
  refine ⟨fun h => ?_, congrArg decode⟩
  rw [← @encode_decode bytes, h, hl, encode_decode]

theorem testBit_decode : (decode bytes).testBit i = (bytes.getD (i / 8) 0).getLsbD (i % 8) := by
  induction bytes generalizing i with
  | nil => simp [decode]
  | cons b bytes hi =>
    rw [decode, Nat.add_comm, show 256 = 2 ^ 8 from rfl, Nat.testBit_two_pow_mul_add _ b.isLt]
    split
    case isTrue h => rw [Nat.div_eq_of_lt h, Nat.mod_eq_of_lt h, getD_cons_zero]; rfl
    case isFalse h =>
      have hdiv : i / 8 = (i - 8) / 8 + 1 := by omega
      have hmod : i % 8 = (i - 8) % 8 := by omega
      rw [hi, hdiv, hmod, getD_cons_succ]

end LittleEndian
