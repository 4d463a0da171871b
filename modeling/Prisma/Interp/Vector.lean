import Prisma.IR.Basic

namespace Prisma

-- Byte `i` of `value.to_le_bytes()`.
def leByte (value : U128) (i : Nat) : U8 :=
  value.extractLsb' (8 * i) 8

structure PcmpStrEval where
  intres : U16
  maxLanes : Nat
  laneBytes : Nat
  lhsLen : Nat
  rhsLen : Nat

def laneUnsigned (value : U128) (lane laneBytes : Nat) : U16 :=
  if laneBytes = 1 then (leByte value lane).setWidth 16
  else leByte value (lane * 2 + 1) ++ leByte value (lane * 2)

def laneSigned (value : U128) (lane laneBytes : Nat) : Int :=
  if laneBytes = 1 then (leByte value lane).toInt
  else (leByte value (lane * 2 + 1) ++ leByte value (lane * 2)).toInt

def pcmpEffectiveLen (value : U128) (laneBytes : Nat) (explicit : Option U64) : Nat :=
  let maxLanes := 16 / laneBytes
  match explicit with
  | some raw => min (raw.setWidth 32).toInt.natAbs maxLanes
  | none => ((List.range maxLanes).find? (laneUnsigned value · laneBytes == 0)).getD maxLanes

section PcmpStr

variable (lhs rhs : U128) (laneBytes : Nat) (signed : Bool)

def lanesEqual (i j : Nat) : Bool :=
  if signed then laneSigned lhs i laneBytes == laneSigned rhs j laneBytes
  else laneUnsigned lhs i laneBytes == laneUnsigned rhs j laneBytes

def laneInRange (i j : Nat) : Bool :=
  if signed then
    laneSigned rhs j laneBytes ≤ laneSigned lhs i laneBytes &&
      laneSigned lhs i laneBytes ≤ laneSigned rhs (j + 1) laneBytes
  else
    laneUnsigned rhs j laneBytes ≤ laneUnsigned lhs i laneBytes &&
      laneUnsigned lhs i laneBytes ≤ laneUnsigned rhs (j + 1) laneBytes

-- The match of lane `i` under the aggregation: equal-any, ranges, equal-each, equal-ordered.
def aggregate (aggregation : U8) (lhsLen rhsLen i : Nat) : Bool :=
  if aggregation = 0 then
    (List.range rhsLen).any (lanesEqual lhs rhs laneBytes signed i)
  else if aggregation = 1 then
    (List.range rhsLen).any fun j =>
      j % 2 == 0 && j + 1 < rhsLen && laneInRange lhs rhs laneBytes signed i j
  else if aggregation = 2 then
    i < rhsLen && lanesEqual lhs rhs laneBytes signed i i
  else
    0 < rhsLen && i + rhsLen ≤ lhsLen &&
      (List.range rhsLen).all fun j => lanesEqual lhs rhs laneBytes signed (i + j) j

end PcmpStr

def evalPcmpStr (lhs rhs : U128) (lhsLen rhsLen : Option U64) (imm8 : U8) : PcmpStrEval :=
  let laneBytes := if imm8 &&& 1 = 0 then 1 else 2
  let maxLanes := 16 / laneBytes
  let signed := imm8 &&& 0x02 != 0
  let aggregation := (imm8 >>> 2) &&& 0x03
  let polarity := (imm8 >>> 4) &&& 0x03
  let lhsLen := pcmpEffectiveLen lhs laneBytes lhsLen
  let rhsLen := pcmpEffectiveLen rhs laneBytes rhsLen
  let lane (i : Nat) : Bool :=
    let lhsValid := decide (i < lhsLen)
    let matched := lhsValid && aggregate lhs rhs laneBytes signed aggregation lhsLen rhsLen i
    let validForPolarity := if polarity &&& 0x02 ≠ 0 then lhsValid else true
    let matched := if polarity &&& 0x01 ≠ 0 ∧ validForPolarity then !matched else matched
    if ¬lhsValid ∧ polarity &&& 0x02 ≠ 0 then false else matched
  let bits := (List.range maxLanes).foldl
    (fun (bits : U16) i => if lane i then bits ||| (1 <<< i) else bits) 0
  { intres := bits, maxLanes, laneBytes, lhsLen, rhsLen }

def pcmpStrIndex (eval : PcmpStrEval) (imm8 : U8) : U64 :=
  let lanes := List.range eval.maxLanes
  let order := if imm8 &&& 0x40 = 0 then lanes else lanes.reverse
  BitVec.ofNat 64 ((order.find? fun i => eval.intres &&& (1 <<< i) != 0).getD eval.maxLanes)

def pcmpStrMask (eval : PcmpStrEval) (imm8 : U8) : U128 :=
  if imm8 &&& 0x40 = 0 then eval.intres.setWidth 128 else
    (List.range eval.maxLanes).foldl (fun (out : U128) i =>
      if eval.intres &&& (1 <<< i) = 0 then out else
        let laneMask : U128 := if eval.laneBytes = 1 then 0xff else 0xffff
        out ||| (laneMask <<< (i * eval.laneBytes * 8))) 0

def pcmpStrFlags (eval : PcmpStrEval) : U64 :=
  let bit (b : Bool) : U64 := if b then 1 else 0
  let cf := bit (eval.intres != 0)
  let zf := bit (eval.rhsLen < eval.maxLanes)
  let sf := bit (eval.lhsLen < eval.maxLanes)
  let of := bit (eval.intres &&& 1 != 0)
  cf ||| (zf <<< 1) ||| (sf <<< 2) ||| (of <<< 3)

def vecLaneU64 (value : U128) (high : Bool) : U64 :=
  if high then (value >>> 64).setWidth 64 else value.setWidth 64

def carrylessMulU64 (lhs rhs : U64) : U128 :=
  (List.range 64).foldl (fun (acc : U128) (bit : Nat) =>
    if (rhs >>> bit) &&& 1 ≠ 0 then acc ^^^ (lhs.setWidth 128 <<< bit) else acc) 0

-- The `while` loop that normalizes a subnormal half: at most ten shifts bring the top bit of a
-- non-zero fraction to bit 10.
def f16Normalize : Nat → U32 → Int → U32 × Int
  | 0, mant, e => (mant, e)
  | fuel + 1, mant, e =>
    if mant &&& 0x0400 = 0 then f16Normalize fuel (mant <<< 1) (e - 1) else (mant, e)

def f16ToF32Bits (h : U16) : U32 :=
  let sign := (h &&& 0x8000).setWidth 32 <<< 16
  let exp := (h >>> 10) &&& 0x1f
  let frac := (h &&& 0x03ff).setWidth 32
  if exp = 0 then
    if frac = 0 then sign else
      let (mant, e) := f16Normalize 10 frac (-14)
      sign ||| (BitVec.ofInt 32 (e + 127) <<< 23) ||| ((mant &&& 0x03ff) <<< 13)
  else if exp = 0x1f then sign ||| 0x7f80_0000 ||| (frac <<< 13)
  else sign ||| ((exp + 112).setWidth 32 <<< 23) ||| (frac <<< 13)

def f16Overflow (sign : U16) (mode : U8) : U16 :=
  let inf := sign ||| 0x7c00
  let max := sign ||| 0x7bff
  if mode = 1 then (if sign ≠ 0 then inf else max)
  else if mode = 2 then (if sign = 0 then inf else max)
  else if mode = 3 then max
  else inf

def f16ShouldRound (sign : U16) (mode : U8) (remainder halfway lsb : U64) : Bool :=
  if mode = 1 then sign != 0 && remainder != 0
  else if mode = 2 then sign == 0 && remainder != 0
  else if mode = 3 then false
  else halfway < remainder || (remainder == halfway && lsb != 0)

def f32BitsToF16 (bits : U32) (imm8 : U8) : U16 :=
  let mode := if imm8 &&& 0x04 ≠ 0 then 0 else imm8 &&& 0x03
  let sign : U16 := ((bits >>> 16) &&& 0x8000).setWidth 16
  let exp : Int := ((bits >>> 23) &&& 0xff).toNat
  let frac := bits &&& 0x007f_ffff
  let halfExp := exp - 127 + 15
  if exp = 0xff then
    if frac = 0 then sign ||| 0x7c00
    else sign ||| 0x7e00 ||| ((frac >>> 13) &&& 0x01ff).setWidth 16
  else if 0x1f ≤ halfExp then f16Overflow sign mode
  else if halfExp ≤ 0 then
    if halfExp < -10 then
      let inc := (mode == 1 && sign != 0) || (mode == 2 && sign == 0)
      sign ||| (if inc then 1 else 0)
    else
      let mant : U64 := (frac ||| 0x0080_0000).setWidth 64
      let shift := (14 - halfExp).toNat
      let q := mant >>> shift
      let rem := mant &&& ((1 <<< shift) - 1)
      let halfway := 1 <<< (shift - 1)
      let rounded := q + (if f16ShouldRound sign mode rem halfway (q &&& 1) then 1 else 0)
      sign ||| rounded.setWidth 16
  else
    let halfExp : U16 := BitVec.ofInt 16 halfExp
    let mant : U16 := (frac >>> 13).setWidth 16
    let rem : U64 := (frac &&& 0x1fff).setWidth 64
    if f16ShouldRound sign mode rem 0x1000 ((mant &&& 1).setWidth 64) then
      if mant + 1 = 0x0400 then
        if 0x1f ≤ halfExp + 1 then f16Overflow sign mode else sign ||| ((halfExp + 1) <<< 10)
      else sign ||| (halfExp <<< 10) ||| (mant + 1)
    else sign ||| (halfExp <<< 10) ||| mant

def f16cPhToPs (src : U128) : U128 :=
  (List.range 4).foldl (fun (out : U128) lane =>
    let h : U16 := ((src >>> (lane * 16)) &&& 0xffff).setWidth 16
    out ||| ((f16ToF32Bits h).setWidth 128 <<< (lane * 32))) 0

def f16cPsToPh (src : U128) (imm8 : U8) : U128 :=
  (List.range 4).foldl (fun (out : U128) lane =>
    let bits : U32 := ((src >>> (lane * 32)) &&& 0xffff_ffff).setWidth 32
    out ||| ((f32BitsToF16 bits imm8).setWidth 128 <<< (lane * 16))) 0

end Prisma
