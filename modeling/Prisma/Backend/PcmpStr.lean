import Prisma.IR.Basic

-- The functions that generated code calls for the string comparisons.

namespace Prisma.Backend

section Lanes

variable (bytes : List U8) (lane laneBytes : Nat)

def pcmpLaneUnsigned : U16 :=
  if laneBytes = 1 then (bytes.getD lane 0).setWidth 16
  else bytes.getD (lane * 2 + 1) 0 ++ bytes.getD (lane * 2) 0

def pcmpLaneSigned : Int :=
  if laneBytes = 1 then (bytes.getD lane 0).toInt
  else (bytes.getD (lane * 2 + 1) 0 ++ bytes.getD (lane * 2) 0).toInt

def pcmpEffectiveLen (explicit : Option U64) : Nat :=
  let maxLanes := 16 / laneBytes
  match explicit with
  | some raw => min (raw.setWidth 32).toInt.natAbs maxLanes
  | none => ((List.range maxLanes).find? (pcmpLaneUnsigned bytes · laneBytes == 0)).getD maxLanes

end Lanes

structure BackendPcmpStrEval where
  intres : U16
  maxLanes : Nat
  laneBytes : Nat
  lhsLen : Nat
  rhsLen : Nat

section Aggregation

variable (lhsBytes rhsBytes : List U8) (laneBytes : Nat) (signed : Bool)

def pcmpLanesEqual (i j : Nat) : Bool :=
  if signed then pcmpLaneSigned lhsBytes i laneBytes == pcmpLaneSigned rhsBytes j laneBytes
  else pcmpLaneUnsigned lhsBytes i laneBytes == pcmpLaneUnsigned rhsBytes j laneBytes

def pcmpLaneInRange (i j : Nat) : Bool :=
  if signed then
    let value := pcmpLaneSigned lhsBytes i laneBytes
    pcmpLaneSigned rhsBytes j laneBytes ≤ value &&
      value ≤ pcmpLaneSigned rhsBytes (j + 1) laneBytes
  else
    let value := pcmpLaneUnsigned lhsBytes i laneBytes
    pcmpLaneUnsigned rhsBytes j laneBytes ≤ value &&
      value ≤ pcmpLaneUnsigned rhsBytes (j + 1) laneBytes

def pcmpMatched (aggregation : U8) (lhsLen rhsLen i : Nat) : Bool :=
  if aggregation = 0 then
    (List.range rhsLen).any (pcmpLanesEqual lhsBytes rhsBytes laneBytes signed i)
  else if aggregation = 1 then
    -- `(0..rhs_len).step_by(2)`
    (List.range' 0 ((rhsLen + 1) / 2) 2).any fun j =>
      if rhsLen ≤ j + 1 then false else pcmpLaneInRange lhsBytes rhsBytes laneBytes signed i j
  else if aggregation = 2 then
    i < rhsLen && pcmpLanesEqual lhsBytes rhsBytes laneBytes signed i i
  else
    0 < rhsLen && i + rhsLen ≤ lhsLen &&
      (List.range rhsLen).all fun j => pcmpLanesEqual lhsBytes rhsBytes laneBytes signed (i + j) j

end Aggregation

def toLeBytes (value : U128) : List U8 :=
  (List.range 16).map fun i => (value >>> (8 * i)).setWidth 8

def joinHalves (lo hi : U64) : U128 :=
  (hi.setWidth 128 <<< 64) ||| lo.setWidth 128

def evalBackendPcmpStr (lhsLo lhsHi rhsLo rhsHi lhsLen rhsLen lenMode : U64) (imm8 : U8) :
    BackendPcmpStrEval :=
  let lhsBytes := toLeBytes (joinHalves lhsLo lhsHi)
  let rhsBytes := toLeBytes (joinHalves rhsLo rhsHi)
  let laneBytes := if imm8 &&& 1 = 0 then 1 else 2
  let maxLanes := 16 / laneBytes
  let signed := imm8 &&& 0x02 != 0
  let aggregation := (imm8 >>> 2) &&& 0x03
  let polarity := (imm8 >>> 4) &&& 0x03
  let lhsLen := pcmpEffectiveLen lhsBytes laneBytes
    (if lenMode &&& 1 ≠ 0 then some lhsLen else none)
  let rhsLen := pcmpEffectiveLen rhsBytes laneBytes
    (if lenMode &&& 2 ≠ 0 then some rhsLen else none)
  let bits := (List.range maxLanes).foldl (fun (bits : U16) i =>
    let lhsValid := decide (i < lhsLen)
    let matched := lhsValid &&
      pcmpMatched lhsBytes rhsBytes laneBytes signed aggregation lhsLen rhsLen i
    let validForPolarity := if polarity &&& 0x02 ≠ 0 then lhsValid else true
    let matched := if polarity &&& 0x01 ≠ 0 ∧ validForPolarity then !matched else matched
    let matched := if ¬lhsValid ∧ polarity &&& 0x02 ≠ 0 then false else matched
    if matched then bits ||| (1 <<< i) else bits) 0
  { intres := bits, maxLanes, laneBytes, lhsLen, rhsLen }

def backendPcmpStrIndex (eval : BackendPcmpStrEval) (imm8 : U8) : U64 :=
  let set (i : Nat) := eval.intres &&& (1 <<< i) != 0
  let lanes := List.range eval.maxLanes
  if imm8 &&& 0x40 = 0 then BitVec.ofNat 64 ((lanes.find? set).getD eval.maxLanes)
  else BitVec.ofNat 64 ((lanes.reverse.find? set).getD eval.maxLanes)

def backendPcmpStrMask (eval : BackendPcmpStrEval) (imm8 : U8) : U128 :=
  if imm8 &&& 0x40 = 0 then eval.intres.setWidth 128
  else
    (List.range eval.maxLanes).foldl (fun (out : U128) i =>
      if eval.intres &&& (1 <<< i) = 0 then out
      else
        let laneMask : U128 := if eval.laneBytes = 1 then 0xff else 0xffff
        out ||| (laneMask <<< (i * eval.laneBytes * 8))) 0

def backendPcmpStrFlags (eval : BackendPcmpStrEval) : U64 :=
  let cf := (BitVec.ofBool (eval.intres != 0)).setWidth 64
  let zf := (BitVec.ofBool (eval.rhsLen < eval.maxLanes)).setWidth 64
  let sf := (BitVec.ofBool (eval.lhsLen < eval.maxLanes)).setWidth 64
  let of := (BitVec.ofBool (eval.intres &&& 1 != 0)).setWidth 64
  cf ||| (zf <<< 1) ||| (sf <<< 2) ||| (of <<< 3)

abbrev PcmpStrHelper := U64 → U64 → U64 → U64 → U64 → U64 → U64 → U64 → U64

def pcmpstrHelper (finish : BackendPcmpStrEval → U8 → U64) : PcmpStrHelper :=
  fun lhsLo lhsHi rhsLo rhsHi lhsLen rhsLen lenMode imm8 =>
    finish (evalBackendPcmpStr lhsLo lhsHi rhsLo rhsHi lhsLen rhsLen lenMode (imm8.setWidth 8))
      (imm8.setWidth 8)

def pcmpstrIndexHelper : PcmpStrHelper :=
  pcmpstrHelper backendPcmpStrIndex

def pcmpstrMaskLoHelper : PcmpStrHelper :=
  pcmpstrHelper fun eval imm8 => (backendPcmpStrMask eval imm8).setWidth 64

def pcmpstrMaskHiHelper : PcmpStrHelper :=
  pcmpstrHelper fun eval imm8 => (backendPcmpStrMask eval imm8 >>> 64).setWidth 64

def pcmpstrFlagsHelper : PcmpStrHelper :=
  pcmpstrHelper fun eval _ => backendPcmpStrFlags eval

-- The arguments that `emit_pcmpstr_helper_call` sets up.
def callHelper (helper : PcmpStrHelper) (lhs rhs : U128) (lhsLen rhsLen : Option U64) (imm8 : U8) :
    U64 :=
  let lenMode : U64 := (if lhsLen.isSome then 1 else 0) ||| (if rhsLen.isSome then 2 else 0)
  helper (lhs.setWidth 64) ((lhs >>> 64).setWidth 64) (rhs.setWidth 64) ((rhs >>> 64).setWidth 64)
    (lhsLen.getD 0) (rhsLen.getD 0) lenMode (imm8.setWidth 64)

end Prisma.Backend
