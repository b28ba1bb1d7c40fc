import DiagramText.Decimal.Binary64

/-! The shortest decimal text that reads back as a given number. The coarsest decimal grid with a
point in the interval of values that round to the number gives the digits; of two points the
nearer is taken. -/
namespace DiagramText.Binary64

/-- A decimal number: `digits * 10 ^ exponent`. -/
structure Decimal where
  digits : Nat
  exponent : Int
deriving DecidableEq, Repr

/-- The interval of values that round to a number, and the number itself, in units of a fraction
`num / den`. Its ends belong to it when the significand is even. -/
structure Interval where
  low : Nat
  value : Nat
  high : Nat
  num : Nat
  den : Nat
  closed : Bool

def interval (x : Binary64) : Interval :=
  let m := x.significand
  let (num, den) := power 2 (x.exponent - 2)
  let down := if m = fractionSize ∧ -1074 < x.exponent then 1 else 2
  { low := 4 * m - down, value := 4 * m, high := 4 * m + 2, num, den, closed := m % 2 = 0 }

/-- Whether `n * 10 ^ e` lies in the interval. -/
def Interval.holds (i : Interval) (n : Nat) (e : Int) : Bool :=
  let (c, d) := power 10 e
  let point := n * c * i.den
  let low := i.low * i.num * d
  let high := i.high * i.num * d
  0 < n && if i.closed then low ≤ point && point ≤ high else low < point && point < high

/-- The point of the grid `10 ^ e` in the interval that is nearest to the value. -/
def Interval.point? (i : Interval) (e : Int) : Option Nat :=
  let (c, d) := power 10 e
  let value := i.value * i.num * d
  let step := c * i.den
  let below := value / step
  let near := roundQuotient value step
  let far := if near = below then below + 1 else below
  if i.holds near e then some near else if i.holds far e then some far else none

/-- Walks to finer grids until one has a point. -/
def Interval.search (i : Interval) : Nat → Int → Decimal
  | 0, e => ⟨roundQuotient (i.value * i.num * (power 10 e).2) ((power 10 e).1 * i.den), e⟩
  | fuel + 1, e =>
    match i.point? e with
    | some n => ⟨n, e⟩
    | none => i.search fuel (e - 1)

/-- The shortest decimal that reads back as the magnitude of `x`; 17 digits always do. -/
def shortest (x : Binary64) : Decimal :=
  if x.significand = 0 then ⟨0, 0⟩
  else
    let top := ((x.significand.log2 : Int) + x.exponent + 1) * 30103 / 100000 + 1
    x.interval.search 24 top

/-- From which to which exponent a number is written without one. -/
structure FloatStyle where
  leastPositional : Int
  firstScientific : Int

/-- Numbers from `1e-5` up to, not including, `1e+16` are written without an exponent. -/
def usual : FloatStyle := ⟨-5, 16⟩

def zeros (n : Nat) : String := String.ofList (List.replicate n '0')

/-- Digits with a point after the first `n`; an integral number keeps one zero behind the point. -/
def positional (digits : String) (n : Int) : String :=
  if n ≤ 0 then "0." ++ zeros (-n).toNat ++ digits
  else
    let k := n.toNat
    if digits.length ≤ k then digits ++ zeros (k - digits.length) ++ ".0"
    else String.ofList (digits.toList.take k) ++ "." ++ String.ofList (digits.toList.drop k)

/-- One digit, a point and the others if there are any, and the exponent with its sign. -/
def scientific (digits : String) (e : Int) : String :=
  let sign := if e < 0 then "-" else "+"
  let others := digits.toList.drop 1
  let tail := if others = [] then "" else "." ++ String.ofList others
  String.ofList (digits.toList.take 1) ++ tail ++ "e" ++ sign ++ toString e.natAbs

def text (x : Binary64) (style : FloatStyle := usual) : String :=
  let d := x.shortest
  let digits := toString d.digits
  let sign := if x.isNegative then "-" else ""
  if d.digits = 0 then sign ++ "0.0"
  else
    let e : Int := d.exponent + digits.length - 1
    if style.leastPositional ≤ e ∧ e < style.firstScientific then
      sign ++ positional digits (e + 1)
    else sign ++ scientific digits e

end DiagramText.Binary64
