import Prisma.Interp.Flags

namespace Prisma

def evalBinop (op : BinOpKind) (a b : U64) (size : OpSize) : Option U64 :=
  let a := mask a size
  let b := mask b size
  let bits := size.bitWidth
  let minimum : Int := -2 ^ (bits - 1)
  let r := match op with
    | .add => some (a + b)
    | .sub => some (a - b)
    | .and => some (a &&& b)
    | .or => some (a ||| b)
    | .xor => some (a ^^^ b)
    | .mul => some (a * b)
    | .uMulHi => some (((a.setWidth 128 * b.setWidth 128) >>> bits).setWidth 64)
    | .sMulHi =>
      some (BitVec.ofInt 64 ((signExtendToI128 a size * signExtendToI128 b size) >>> bits))
    | .uDiv => if b = 0 then none else some (a / b)
    | .sDiv =>
      if b = 0 then none else
        let lhs := signExtendToI128 a size
        let rhs := signExtendToI128 b size
        if lhs = minimum ∧ rhs = -1 then some (BitVec.ofInt 64 lhs)
        else some (BitVec.ofInt 64 (lhs.tdiv rhs))
    | .uMod => if b = 0 then none else some (a % b)
    | .sMod =>
      if b = 0 then none else
        let lhs := signExtendToI128 a size
        let rhs := signExtendToI128 b size
        if lhs = minimum ∧ rhs = -1 then some 0
        else some (BitVec.ofInt 64 (lhs.tmod rhs))
    | .shl => some (a <<< (b &&& 63).toNat)
    | .shr => some (a >>> (b &&& 63).toNat)
    | .sar => some (BitVec.ofInt 64 (signExtendToI128 a size >>> (b &&& 63).toNat))
    | .rol =>
      let count := b.toNat % bits
      if count = 0 then some a else some (((a <<< count) ||| (a >>> (bits - count))) &&& size.mask)
    | .ror =>
      let count := b.toNat % bits
      if count = 0 then some a else some (((a >>> count) ||| (a <<< (bits - count))) &&& size.mask)
    | _ => none
  r.map (mask · size)

-- The outer `none` is a panic of the source: `i128::MIN / -1` overflows. The inner `none` is a
-- division the guest would fault on.
def evalWideDiv (high low divisor : U64) (signed : Bool) (result : WideDivResult) :
    Option (Option U64) :=
  if divisor = 0 then some none else
    let dividend : U128 := high ++ low
    if signed then
      let dividend := dividend.toInt
      let divisor := divisor.toInt
      if dividend = -2 ^ 127 ∧ divisor = -1 then none else
        let quotient := dividend.tdiv divisor
        if quotient < -2 ^ 63 ∨ 2 ^ 63 - 1 < quotient then some none else
          match result with
          | .quotient => some (some (BitVec.ofInt 64 quotient))
          | .remainder => some (some (BitVec.ofInt 64 (dividend.tmod divisor)))
    else
      let quotient := dividend / divisor.setWidth 128
      if (BitVec.allOnes 64).setWidth 128 < quotient then some none else
        match result with
        | .quotient => some (some (quotient.setWidth 64))
        | .remainder => some (some ((dividend % divisor.setWidth 128).setWidth 64))

end Prisma
