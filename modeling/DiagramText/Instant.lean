import DiagramText.Reader
import DiagramText.Text.Digits

/-! Points in time on the UTC calendar, to the nanosecond. They are written in the form of an
Internet timestamp and read from a looser one: blanks may stand between the parts, and an offset
is turned into UTC. -/
namespace DiagramText
open Text (isDigit natOf padded)

def isLeapYear (year : Int) : Bool := year % 4 = 0 && (year % 100 != 0 || year % 400 = 0)

def daysInMonth (year : Int) (month : Nat) : Nat :=
  if month = 2 then (if isLeapYear year then 29 else 28)
  else if month = 4 ∨ month = 6 ∨ month = 9 ∨ month = 11 then 30
  else 31

/-- Years that a calendar date can have. -/
def firstYear : Int := -262143
def lastYear : Int := 262142

/-- A date and a time of day; second 60 is a leap second. -/
structure Instant.Fields where
  year : Int
  month : Nat
  day : Nat
  hour : Nat
  minute : Nat
  second : Nat
  nano : Nat
deriving DecidableEq, Repr

namespace Instant.Fields

def Valid (f : Fields) : Prop :=
  firstYear ≤ f.year ∧ f.year ≤ lastYear ∧ 1 ≤ f.month ∧ f.month ≤ 12 ∧ 1 ≤ f.day ∧
    f.day ≤ daysInMonth f.year f.month ∧ f.hour < 24 ∧ f.minute < 60 ∧ f.second ≤ 60 ∧
    f.nano < 1000000000

instance (f : Fields) : Decidable f.Valid := by unfold Valid; infer_instance

def nextDay (f : Fields) : Fields :=
  if f.day < daysInMonth f.year f.month then { f with day := f.day + 1 }
  else if f.month < 12 then { f with month := f.month + 1, day := 1 }
  else { f with year := f.year + 1, month := 1, day := 1 }

def previousDay (f : Fields) : Fields :=
  if 1 < f.day then { f with day := f.day - 1 }
  else if 1 < f.month then { f with month := f.month - 1, day := daysInMonth f.year (f.month - 1) }
  else { f with year := f.year - 1, month := 12, day := 31 }

/-- The same moment at offset zero; offsets are shorter than a day. -/
def earlier (f : Fields) (minutes : Int) : Fields :=
  let total : Int := f.hour * 60 + f.minute - minutes
  let inDay := total % 1440
  let g := { f with hour := (inDay / 60).toNat, minute := (inDay % 60).toNat }
  if total < 0 then g.previousDay else if total < 1440 then g else g.nextDay

end Instant.Fields

structure Instant where
  fields : Instant.Fields
  valid : fields.Valid
deriving DecidableEq

namespace Instant

instance : Repr Instant := ⟨fun i n => reprPrec i.fields n⟩

def epoch : Instant := ⟨⟨1970, 1, 1, 0, 0, 0, 0⟩, by decide⟩

instance : Inhabited Instant := ⟨epoch⟩

def ofFields? (f : Fields) : Option Instant := if h : f.Valid then some ⟨f, h⟩ else none

/-- Year, month and day of a number of days since 1970, counted in eras of 400 years that start
on the first of March. -/
def dateOfDays (days : Int) : Int × Nat × Nat :=
  let shifted := days + 719468
  let era := shifted / 146097
  let dayOfEra := (shifted % 146097).toNat
  let yearOfEra := (dayOfEra - dayOfEra / 1460 + dayOfEra / 36524 - dayOfEra / 146096) / 365
  let dayOfYear := dayOfEra - (365 * yearOfEra + yearOfEra / 4 - yearOfEra / 100)
  let monthFromMarch := (5 * dayOfYear + 2) / 153
  let day := dayOfYear - (153 * monthFromMarch + 2) / 5 + 1
  let month := if monthFromMarch < 10 then monthFromMarch + 3 else monthFromMarch - 9
  let year := yearOfEra + era * 400 + if month ≤ 2 then 1 else 0
  (year, month, day)

/-- The moment that many nanoseconds after the start of 1970. -/
def ofNanoseconds? (n : Int) : Option Instant :=
  let seconds := n / 1000000000
  let (year, month, day) := dateOfDays (seconds / 86400)
  let inDay := (seconds % 86400).toNat
  ofFields? ⟨year, month, day, inDay / 3600, inDay / 60 % 60, inDay % 60, (n % 1000000000).toNat⟩

/-! ### Writing -/

/-- Four digits; a year that needs more, or lies before year 0, has a sign. -/
def yearText (year : Int) : String :=
  let sign := if year < 0 then "-" else if year ≤ 9999 then "" else "+"
  sign ++ padded 4 year.natAbs

/-- No digits, or the fewest of three, six and nine that lose nothing. -/
def fractionText (nano : Nat) : String :=
  if nano = 0 then ""
  else if nano % 1000000 = 0 then "." ++ padded 3 (nano / 1000000)
  else if nano % 1000 = 0 then "." ++ padded 6 (nano / 1000)
  else "." ++ padded 9 nano

def text (i : Instant) : String :=
  let f := i.fields
  yearText f.year ++ "-" ++ padded 2 f.month ++ "-" ++ padded 2 f.day ++ "T" ++
    padded 2 f.hour ++ ":" ++ padded 2 f.minute ++ ":" ++ padded 2 f.second ++
    fractionText f.nano ++ "Z"

/-! ### Reading -/

def blanks : Reader Unit := do let _ ← Reader.run Text.isBlank

/-- One digit at least and no more than `most`. -/
def digits (most : Nat) : Reader (List Char) := fun cs =>
  let ds := (cs.take most).takeWhile isDigit
  if ds = [] then none else some (ds, cs.drop ds.length)

def numeral (most : Nat) : Reader Nat := natOf <$> (blanks *> digits most)

/-- Up to four digits, or any number of them behind a sign. -/
def year : Reader Int := do
  blanks
  let sign ← optional (Reader.oneOf [("-", true), ("+", false)])
  match sign with
  | none => Int.ofNat <$> numeral 4
  | some negative =>
    let ds ← Reader.run1 isDigit
    pure (if negative then -(natOf ds : Int) else natOf ds)

/-- A mark with blanks before it. -/
def mark (s : String) : Reader Unit := blanks *> Reader.token s

/-- Digits behind a point; those after the ninth are dropped. -/
def fraction : Reader Nat := do
  Reader.token "."
  let ds ← Reader.run1 isDigit
  pure (natOf (ds.take 9) * Nat.pow 10 (9 - ds.length))

def twoDigits : Reader Nat := fun cs =>
  match cs with
  | a :: b :: rest => if isDigit a ∧ isDigit b then some (natOf [a, b], rest) else none
  | _ => none

/-- Minutes to the east of UTC. -/
def offset : Reader Int :=
  Reader.oneOf [("Z", 0), ("z", 0)] <|> do
    let negative ← Reader.oneOf [("+", false), ("-", true), ("\u2212", true)]
    let hours ← twoDigits
    let _ ← Reader.run fun c => c == ':' || Text.isBlank c
    let minutes ← twoDigits
    if 60 ≤ minutes ∨ 24 ≤ hours then failure
    let total : Int := hours * 60 + minutes
    pure (if negative then -total else total)

/-- The letters UTC in either case. -/
def utc : Reader Unit := fun cs =>
  match cs with
  | a :: b :: c :: rest =>
    if [a, b, c].map Char.toLower = ['u', 't', 'c'] then some ((), rest) else none
  | _ => none

def reader : Reader Instant := do
  let year ← year
  mark "-"
  let month ← numeral 2
  mark "-"
  let day ← numeral 2
  Reader.oneOf [("T", ()), ("t", ()), (" ", ())]
  let hour ← numeral 2
  mark ":"
  let minute ← numeral 2
  mark ":"
  let second ← numeral 2
  let nano ← (fun cs => if cs.head? = some '.' then fraction cs else some (0, cs) : Reader Nat)
  blanks
  let minutes ← (utc *> pure 0) <|> offset
  blanks
  let local_ ← (ofFields? ⟨year, month, day, hour, minute, second, nano⟩ : Option Instant)
  match ofFields? (local_.fields.earlier minutes) with
  | some i => pure i
  | none => failure

def ofText? (s : String) : Option Instant := reader.whole? s.toList

end Instant
end DiagramText
