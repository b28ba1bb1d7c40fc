/-! Double-precision numbers as 64-bit words, with exact arithmetic on the value they stand for.
A finite number is `significand * 2 ^ exponent`, negated when the sign bit is set. -/
namespace DiagramText

/-- A binary64 number; equality is equality of the words. -/
structure Binary64 where
  bits : UInt64
deriving DecidableEq, Repr, Inhabited

namespace Binary64

/-- The number of fractions, each of 52 bits. -/
def fractionSize : Nat := 0x10000000000000
def signBit : Nat := 0x8000000000000000
def infiniteField : Nat := 2047

def fraction (x : Binary64) : Nat := x.bits.toNat % fractionSize
def exponentField (x : Binary64) : Nat := x.bits.toNat / fractionSize % 2048
def isNegative (x : Binary64) : Bool := signBit ≤ x.bits.toNat
def isFinite (x : Binary64) : Bool := x.exponentField != infiniteField

def significand (x : Binary64) : Nat :=
  if x.exponentField = 0 then x.fraction else fractionSize + x.fraction

def exponent (x : Binary64) : Int :=
  if x.exponentField = 0 then -1074 else (x.exponentField : Int) - 1075

/-- `base ^ e` as a numerator and a denominator. -/
def power (base : Nat) (e : Int) : Nat × Nat :=
  if 0 ≤ e then (Nat.pow base e.toNat, 1) else (1, Nat.pow base (-e).toNat)

/-- The quotient to the nearest integer, a half to the even one. -/
def roundQuotient (num den : Nat) : Nat :=
  let q := num / den
  let r := num % den
  if 2 * r < den then q
  else if den < 2 * r then q + 1
  else if q % 2 = 0 then q else q + 1

/-- The exponent at which `num / den` has a significand of 53 bits, or the least there is. -/
def exponentOf (num den : Nat) : Int :=
  let guess : Int := (num.log2 : Int) - den.log2 - 53
  let (a, b) := power 2 guess
  let e := if 2 * fractionSize * (den * a) ≤ num * b then guess + 1 else guess
  max e (-1074)

/-- The number nearest to `num / den`, a half to the even significand; `none` when it is too large. -/
def ofRatio? (negative : Bool) (num den : Nat) : Option Binary64 :=
  let sign := if negative then signBit else 0
  if num = 0 then some ⟨UInt64.ofNat sign⟩
  else
    let e := exponentOf num den
    let (a, b) := power 2 e
    let m := roundQuotient (num * b) (den * a)
    let field := if m < fractionSize then 0 else (e + 1075).toNat
    let magnitude := if m < fractionSize then m else field * fractionSize + (m - fractionSize)
    if infiniteField * fractionSize ≤ magnitude then none
    else some ⟨UInt64.ofNat (sign + magnitude)⟩

def digitCount (n : Nat) : Nat := (Nat.toDigits 10 n).length

/-- The number nearest to `digits * 10 ^ e`. Magnitudes that are clearly out of range on either
side are settled without computing the power. -/
def ofDecimal? (negative : Bool) (digits : Nat) (e : Int) : Option Binary64 :=
  let magnitude := (digitCount digits : Int) + e
  if digits = 0 ∨ magnitude < -400 then ofRatio? negative 0 1
  else if 400 < magnitude then none
  else
    let (a, b) := power 10 e
    ofRatio? negative (digits * a) b

def ofNat (n : Nat) : Binary64 := (ofRatio? false n 1).getD ⟨0⟩

end Binary64
end DiagramText
