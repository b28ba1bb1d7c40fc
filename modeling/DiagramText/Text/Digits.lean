/-! Decimal digits, and letters without regard to case. -/
namespace DiagramText.Text

def isDigit (c : Char) : Bool := '0' ≤ c && c ≤ '9'

/-- The number that a row of digits spells. -/
def natOf (digits : List Char) : Nat :=
  digits.foldl (fun n c => 10 * n + (c.toNat - '0'.toNat)) 0

/-- A number with zeros in front, up to a least width. -/
def padded (width n : Nat) : String :=
  let digits := toString n
  String.ofList (List.replicate (width - digits.length) '0') ++ digits

/-- ASCII letters in lower case; all other characters are kept. -/
def lower (s : String) : String := String.ofList (s.toList.map Char.toLower)

end DiagramText.Text
