import Prisma.Lib.Bits
import Prisma.Runtime.GuestSignal

-- Which bits of the bytes in guest memory the structures take their fields from.

namespace Prisma

open List LittleEndian

namespace GuestStruct

variable {bytes bytes' : List U8} {w off : Nat}

-- The bits of two byte lists under masks for each byte are the same.
def AgreeOn (counts : Nat → U8) (bytes bytes' : List U8) : Prop :=
  ∀ (k : Nat) (a b : U8), bytes[k]? = some a → bytes'[k]? = some b → a &&& counts k = b &&& counts k

theorem toNat_field (hl : off + w ≤ bytes.length) :
    (field w bytes off).toNat = LittleEndian.decode (bytes.slice off w) := by
  have hlt := @LittleEndian.decode_lt (bytes.slice off w)
  rw [length_slice hl, show 256 = 2 ^ 8 from rfl, ← Nat.pow_mul] at hlt
  rw [field, BitVec.toNat_ofNat, Nat.mod_eq_of_lt hlt]

theorem fieldBytes_inj (h : fieldBytes w a = fieldBytes w b) : a = b := by
  have hlt : ∀ c : BitVec (8 * w), c.toNat < 256 ^ w := by
    intro c
    rw [show 256 = 2 ^ 8 from rfl, ← Nat.pow_mul]
    exact c.isLt
  have hdecoded := congrArg LittleEndian.decode h
  rw [fieldBytes, fieldBytes, decode_encode (hlt a),
    decode_encode (hlt b)] at hdecoded
  exact BitVec.eq_of_toNat_eq hdecoded

theorem fieldBytes_field (hl : off + w ≤ bytes.length) :
    fieldBytes w (field w bytes off) = bytes.slice off w := by
  have hdecoded := @LittleEndian.encode_decode (bytes.slice off w)
  rwa [length_slice hl, ← toNat_field hl] at hdecoded

theorem field_eq_iff (hl : off + w ≤ bytes.length) (hl' : off + w ≤ bytes'.length) :
    field w bytes off = field w bytes' off ↔
      ∀ k, off ≤ k → k < off + w → bytes[k]? = bytes'[k]? := by
  rw [← BitVec.toNat_inj, toNat_field hl, toNat_field hl',
    decode_inj ((length_slice hl).trans (length_slice hl').symm)]
  constructor
  · intro h k hk hk'
    have hget := congrArg (·[k - off]?) h
    simp only [List.getElem?_slice] at hget
    rwa [if_pos (by omega), if_pos (by omega), Nat.add_sub_cancel' hk] at hget
  · intro h
    refine ext_getElem? fun k => ?_
    rw [List.getElem?_slice, List.getElem?_slice]
    split
    case isTrue hk => exact h _ (Nat.le_add_right ..) (by omega)
    case isFalse => rfl

end GuestStruct

open GuestStruct

-- Bytes of the right number are always a structure, and `counts` says which of their bits it keeps.
class LawfulGuestStruct (α : Type) [GuestStruct α] where
  counts : Nat → U8
  size_lt : size α < 2 ^ 64
  length_toGuestBytes (a : α) : (toGuestBytes a).length = size α
  fromGuestBytes_isSome {bytes : List U8} (h : bytes.length = size α) :
    ∃ a : α, fromGuestBytes bytes = some a
  fromGuestBytes_eq_iff {bytes bytes' : List U8} (h : bytes.length = size α)
    (h' : bytes'.length = size α) :
    (fromGuestBytes bytes : Option α) = fromGuestBytes bytes' ↔ AgreeOn counts bytes bytes'

namespace GuestStruct

variable {bytes bytes' : List U8} {n : Nat} {fields : List (Nat × Nat)}

-- All bits of the bytes of these fields, each given by its offset and width.
def fieldBits (fields : List (Nat × Nat)) (k : Nat) : U8 :=
  if ∃ f ∈ fields, f.fst ≤ k ∧ k < f.fst + f.snd then 0xFF else 0

theorem agreeOn_fieldBits (h : bytes.length = n) (h' : bytes'.length = n)
    (hf : ∀ f ∈ fields, f.fst + f.snd ≤ n) :
    AgreeOn (fieldBits fields) bytes bytes' ↔
      ∀ f ∈ fields, field f.snd bytes f.fst = field f.snd bytes' f.fst := by
  have hall : ∀ b : U8, b &&& 0xFF = b := fun b => BitVec.and_allOnes
  have hnone : ∀ b : U8, b &&& 0 = 0 := fun b => BitVec.and_zero
  constructor
  · intro hagree f hm
    have hle := hf f hm
    rw [field_eq_iff (by omega) (by omega)]
    intro k hk hk'
    have ha := List.getElem?_eq_getElem (show k < bytes.length by omega)
    have hb := List.getElem?_eq_getElem (show k < bytes'.length by omega)
    have heq := hagree k _ _ ha hb
    rw [fieldBits, if_pos ⟨f, hm, hk, hk'⟩, hall, hall] at heq
    rw [ha, hb, heq]
  · intro heq k a b ha hb
    unfold fieldBits
    split
    case isTrue hp =>
      have ⟨f, hm, hk, hk'⟩ := hp
      have hle := hf f hm
      have hget := (field_eq_iff (by omega) (by omega)).mp (heq f hm) k hk hk'
      rw [ha, hb, Option.some_inj] at hget
      rw [hget]
    case isFalse => rw [hnone, hnone]

end GuestStruct

instance : LawfulGuestStruct Sigset where
  counts := fieldBits [(0, 8)]
  size_lt := by decide
  length_toGuestBytes _ := length_encode
  fromGuestBytes_isSome h := ⟨_, if_pos h.ge⟩
  fromGuestBytes_eq_iff {bytes bytes'} h h' := by
    rw [agreeOn_fieldBits h h' (by decide)]
    simp [fromGuestBytes, show bytes.length = 8 from h, show bytes'.length = 8 from h']

instance : LawfulGuestStruct SigAction where
  counts := fieldBits [(0, 8), (8, 8), (16, 8), (24, 8)]
  size_lt := by decide
  length_toGuestBytes _ := by simp [toGuestBytes, fieldBytes, size]
  fromGuestBytes_isSome h := ⟨_, if_pos h.ge⟩
  fromGuestBytes_eq_iff {bytes bytes'} h h' := by
    rw [agreeOn_fieldBits h h' (by decide)]
    simp [fromGuestBytes, show bytes.length = 32 from h, show bytes'.length = 32 from h']

instance : LawfulGuestStruct SigAltStack where
  counts := fieldBits [(0, 8), (8, 4), (16, 8)]
  size_lt := by decide
  length_toGuestBytes _ := by simp [toGuestBytes, fieldBytes, size]
  fromGuestBytes_isSome h := ⟨_, if_pos h.ge⟩
  fromGuestBytes_eq_iff {bytes bytes'} h h' := by
    rw [agreeOn_fieldBits h h' (by decide)]
    simp [fromGuestBytes, show bytes.length = 24 from h, show bytes'.length = 24 from h']

theorem ITimerval.fromGuestBytes_eq {bytes : List U8} (h : bytes.length = 32) :
    (fromGuestBytes bytes : Option ITimerval) =
      some ⟨⟨field 8 bytes 0, field 8 bytes 8⟩, ⟨field 8 bytes 16, field 8 bytes 24⟩⟩ := by
  have hlen : ∀ off, off + 16 ≤ 32 → (bytes.slice off 16).length = 16 :=
    fun off ho => length_slice (by omega)
  simp [fromGuestBytes, h, hlen, field, slice_slice]

instance : LawfulGuestStruct ITimerval where
  counts := fieldBits [(0, 8), (8, 8), (16, 8), (24, 8)]
  size_lt := by decide
  length_toGuestBytes _ := by simp [toGuestBytes, fieldBytes, size]
  fromGuestBytes_isSome h := ⟨_, ITimerval.fromGuestBytes_eq h⟩
  fromGuestBytes_eq_iff {bytes bytes'} h h' := by
    rw [agreeOn_fieldBits h h' (by decide), ITimerval.fromGuestBytes_eq h,
      ITimerval.fromGuestBytes_eq h']
    simp [and_assoc]

namespace Sigset

-- Where two masks differ makes no difference for the signals that are never blocked, for those to
-- be blocked that already are, and for those to be unblocked that are not blocked.
def maskBits (blocked : Sigset) (how : SigprocmaskHow) : U64 :=
  ~~~0x40100 &&&
    match how with
    | .block => ~~~blocked.bits
    | .unblock => blocked.bits
    | .setMask => BitVec.allOnes 64

theorem apply_eq (blocked : Sigset) (how : SigprocmaskHow) (arg : Sigset) :
    (blocked.apply how arg).bits = ~~~0x40100 &&&
      match how with
      | .block => blocked.bits ||| arg.bits
      | .unblock => blocked.bits &&& ~~~arg.bits
      | .setMask => arg.bits := by
  rw [BitVec.and_comm]
  rfl

theorem apply_eq_iff {blocked : Sigset} :
    blocked.apply how a = blocked.apply how b ↔
      a.bits &&& blocked.maskBits how = b.bits &&& blocked.maskBits how := by
  have hbits : blocked.apply how a = blocked.apply how b ↔
      (blocked.apply how a).bits = (blocked.apply how b).bits :=
    ⟨congrArg bits, fun h => by
      generalize blocked.apply how a = x at h
      generalize blocked.apply how b = y at h
      cases x
      cases y
      exact congrArg mk h⟩
  rw [hbits, apply_eq, apply_eq, Bits.eq_iff_getLsbD, Bits.eq_iff_getLsbD]
  unfold maskBits
  refine forall₂_congr fun i hi => ?_
  generalize ~~~(0x40100 : U64) = free
  cases how with
  | block =>
    simp only [BitVec.getLsbD_and, BitVec.getLsbD_or, BitVec.getLsbD_not, hi, decide_true]
    generalize free.getLsbD i = f, blocked.bits.getLsbD i = x, a.bits.getLsbD i = y,
      b.bits.getLsbD i = z
    revert f x y z
    decide
  | unblock =>
    simp only [BitVec.getLsbD_and, BitVec.getLsbD_not, hi, decide_true]
    generalize free.getLsbD i = f, blocked.bits.getLsbD i = x, a.bits.getLsbD i = y,
      b.bits.getLsbD i = z
    revert f x y z
    decide
  | setMask =>
    simp only [BitVec.getLsbD_and, BitVec.getLsbD_allOnes, hi, decide_true]
    generalize free.getLsbD i = f, a.bits.getLsbD i = y, b.bits.getLsbD i = z
    revert f y z
    decide

-- The same for each byte of the mask.
def maskBytes (blocked : Sigset) (how : SigprocmaskHow) (k : Nat) : U8 :=
  (blocked.maskBits how).extractLsb' (8 * k) 8

theorem getLsbD_field {bytes : List U8} (h : bytes.length = 8) (hi : i < 64) :
    (field 8 bytes 0).getLsbD i = (bytes.getD (i / 8) 0).getLsbD (i % 8) := by
  have hslice : bytes.slice 0 8 = bytes := by
    rw [List.slice, drop_zero, ← h, take_length]
  rw [field, BitVec.getLsbD_ofNat, hslice, testBit_decode]
  simp [hi]

theorem apply_field_eq_iff {blocked : Sigset} {bytes bytes' : List U8} (h : bytes.length = 8)
    (h' : bytes'.length = 8) :
    blocked.apply how ⟨field 8 bytes 0⟩ = blocked.apply how ⟨field 8 bytes' 0⟩ ↔
      AgreeOn (blocked.maskBytes how) bytes bytes' := by
  rw [apply_eq_iff, Bits.eq_iff_getLsbD]
  constructor
  · intro heq k a b ha hb
    have ⟨hk, _⟩ := List.getElem?_eq_some_iff.mp ha
    refine BitVec.eq_of_getLsbD_eq fun j hj => ?_
    have hbit := heq (8 * k + j) (by omega)
    have hdiv : (8 * k + j) / 8 = k := by omega
    have hmod : (8 * k + j) % 8 = j := by omega
    rw [BitVec.getLsbD_and, BitVec.getLsbD_and, getLsbD_field h (by omega),
      getLsbD_field h' (by omega), hdiv, hmod, getD_eq_getElem?_getD,
      getD_eq_getElem?_getD, ha, hb] at hbit
    simpa [maskBytes, hj] using hbit
  · intro hagree i hi
    have hlt : i / 8 < 8 := by omega
    have ha := List.getElem?_eq_getElem (show i / 8 < bytes.length by omega)
    have hb := List.getElem?_eq_getElem (show i / 8 < bytes'.length by omega)
    have hbit := congrArg (·.getLsbD (i % 8)) (hagree (i / 8) _ _ ha hb)
    have hmod : 8 * (i / 8) + i % 8 = i := by omega
    have hj : i % 8 < 8 := by omega
    simp only [maskBytes, BitVec.getLsbD_and, BitVec.getLsbD_extractLsb', hmod, hj, decide_true,
      Bool.true_and] at hbit
    rw [BitVec.getLsbD_and, BitVec.getLsbD_and, getLsbD_field h hi, getLsbD_field h' hi,
      getD_eq_getElem?_getD, getD_eq_getElem?_getD, ha, hb]
    exact hbit

end Sigset

end Prisma
