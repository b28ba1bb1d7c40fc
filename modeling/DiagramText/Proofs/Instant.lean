import DiagramText.Instant
import DiagramText.Proofs.Reader
import Mathlib.Algebra.Group.Nat.Defs
import Mathlib.Data.List.TakeWhile

/-! Instants are read back from what is written of them. The text is taken part by part; a part of a
fixed width is the padded numeral of a number that fits it. -/
namespace DiagramText.Text

/-- Digits, one at least. -/
structure IsNumeral (cs : List Char) : Prop where
  some : cs ≠ []
  digits : ∀ c ∈ cs, isDigit c

theorem toList_padded (width n : Nat) : (padded width n).toList =
    List.replicate (width - (Nat.toDigits 10 n).length) '0' ++ Nat.toDigits 10 n := by
  simp only [padded, Nat.toString_eq_repr, String.toList_append, String.toList_ofList,
    ← String.length_toList, Nat.toList_repr]

theorem isNumeral_padded (width n : Nat) : IsNumeral (padded width n).toList := by
  rw [toList_padded]
  refine ⟨List.append_ne_nil_of_right_ne_nil _ Nat.toDigits_ne_nil, fun c h => ?_⟩
  rcases List.mem_append.1 h with zero | digit
  · rw [List.eq_of_mem_replicate zero]
    rfl
  · exact Nat.isDigit_of_mem_toDigits (by decide) (by decide) digit

theorem natOf_padded (width n : Nat) : natOf (padded width n).toList = n := by
  show Nat.ofDigitChars 10 _ 0 = n
  rw [toList_padded, Nat.ofDigitChars_append, Nat.ofDigitChars_replicate_zero, Nat.mul_zero,
    Nat.ofDigitChars_ten_toDigits]

theorem length_padded {width n : Nat} (some : 0 < width) (fits : n < 10 ^ width) :
    (padded width n).toList.length = width := by
  have short := (Nat.length_toDigits_le_iff (by decide) some).2 fits
  rw [toList_padded, List.length_append, List.length_replicate]
  omega

theorem not_isBlank_of_isDigit {c : Char} (digit : isDigit c) : isBlank c = false :=
  not_isBlank_of_isWordChar (isWordChar_of_isDigit digit)

theorem IsNumeral.first {cs : List Char} (numeral : IsNumeral cs) (rest : List Char) :
    ∃ d ds, cs ++ rest = d :: ds ∧ isDigit d := by
  cases cs with
  | nil => exact absurd rfl numeral.some
  | cons d ds => exact ⟨d, ds ++ rest, rfl, numeral.digits d List.mem_cons_self⟩

end DiagramText.Text

namespace DiagramText.Instant

open Text (isDigit isBlank natOf padded IsNumeral isNumeral_padded natOf_padded length_padded)
open Reader (Reads Refuses Stops)

variable {cs rest : List Char}

/-! ### The parts of an instant -/

theorem reads_blanks (stops : Stops isBlank cs) : Reads blanks cs () cs := by
  have none : ∀ c ∈ ([] : List Char), isBlank c := by simp
  exact (Reader.reads_run none stops).bind (Reads.pure () cs)

theorem stops_numeral (numeral : IsNumeral cs) (rest : List Char) : Stops isBlank (cs ++ rest) := by
  obtain ⟨d, ds, split, digit⟩ := numeral.first rest
  rw [split, Reader.stops_cons]
  exact Text.not_isBlank_of_isDigit digit

theorem reads_digits (numeral : IsNumeral cs) (rest : List Char) :
    Reads (digits cs.length) (cs ++ rest) cs rest := by
  have all : cs.takeWhile isDigit = cs := List.takeWhile_eq_self_iff.2 numeral.digits
  simp [Reads, digits, all, numeral.some]

theorem reads_numeral {width n : Nat} (some : 0 < width) (fits : n < 10 ^ width) (rest : List Char) :
    Reads (numeral width) ((padded width n).toList ++ rest) n rest := by
  have taken := reads_digits (isNumeral_padded width n) rest
  rw [length_padded some fits] at taken
  have read := ((reads_blanks (stops_numeral (isNumeral_padded width n) rest)).seqRight taken).map natOf
  rwa [natOf_padded] at read

theorem reads_mark {s : String} (visible : s.toList.head?.any fun c => !isBlank c)
    (rest : List Char) : Reads (mark s) (s.toList ++ rest) () rest :=
  (reads_blanks (Reader.stops_append visible rest)).seqRight (Reader.reads_token s rest)

theorem reads_run1_padded (width n : Nat) (stops : Stops isDigit rest) :
    Reads (Reader.run1 isDigit) ((padded width n).toList ++ rest) (padded width n).toList rest :=
  Reader.reads_run1 (isNumeral_padded width n).some (isNumeral_padded width n).digits stops

/-- The sign in front of a year before 0 or after 9999. -/
def sign : Reader Bool := Reader.oneOf [("-", true), ("+", false)]

/-- The digits of a year behind its sign. -/
theorem reads_signed {s : String} {negative : Bool} {y : Int}
    (taken : ∀ rest, Reads sign (s.toList ++ rest) negative rest)
    (visible : s.toList.head?.any fun c => !isBlank c)
    (value : (if negative then -(y.natAbs : Int) else y.natAbs) = y) (stops : Stops isDigit rest) :
    Reads year ((s ++ padded 4 y.natAbs).toList ++ rest) y rest := by
  have last : Reads (pure (if negative then -(natOf (padded 4 y.natAbs).toList : Int)
      else natOf (padded 4 y.natAbs).toList)) rest y rest := by
    rw [natOf_padded, value]
    exact Reads.pure y rest
  rw [String.toList_append, List.append_assoc]
  exact (reads_blanks (Reader.stops_append visible _)).bind
    ((taken _).optional.bind ((reads_run1_padded 4 y.natAbs stops).bind last))

/-- A year of up to four digits has no sign. -/
theorem reads_unsigned {n : Nat} (fits : n < 10 ^ 4) (rest : List Char) :
    Reads year ((padded 4 n).toList ++ rest) n rest := by
  have numeral := isNumeral_padded 4 n
  have noSign : Refuses sign ((padded 4 n).toList ++ rest) := by
    obtain ⟨d, ds, split, digit⟩ := numeral.first rest
    have other {c : Char} (out : isDigit c = false) : c ≠ d := by
      rintro rfl
      rw [digit] at out
      cases out
    have minus : '-' ≠ d := other rfl
    have plus : '+' ≠ d := other rfl
    rw [split]
    exact Reader.refuses_oneOf (by simpa using ⟨minus, plus⟩)
  exact (reads_blanks (stops_numeral numeral rest)).bind
    (noSign.optional.bind ((reads_numeral (by decide) fits rest).map Int.ofNat))

theorem reads_year (y : Int) (stops : Stops isDigit rest) :
    Reads year ((yearText y).toList ++ rest) y rest := by
  by_cases before : y < 0
  · have shown : yearText y = "-" ++ padded 4 y.natAbs := by simp [yearText, before]
    rw [shown]
    have minus (rest : List Char) : Reads sign ("-".toList ++ rest) true rest := rfl
    exact reads_signed minus rfl (by rw [if_pos rfl]; omega) stops
  · by_cases short : y ≤ 9999
    · have shown : yearText y = padded 4 y.natAbs := by simp [yearText, before, short]
      rw [shown]
      have read := reads_unsigned (n := y.natAbs) (by omega) rest
      rwa [Int.natAbs_of_nonneg (by omega)] at read
    · have shown : yearText y = "+" ++ padded 4 y.natAbs := by simp [yearText, before, short]
      rw [shown]
      have plus (rest : List Char) : Reads sign ("+".toList ++ rest) false rest := rfl
      exact reads_signed plus rfl (by rw [if_neg Bool.false_ne_true]; omega) stops

/-- As many digits behind the point as `width` says. -/
theorem reads_fraction {width n : Nat} (some : 0 < width) (short : width ≤ 9) (fits : n < 10 ^ width)
    (stops : Stops isDigit rest) :
    Reads fraction (".".toList ++ ((padded width n).toList ++ rest)) (n * 10 ^ (9 - width)) rest := by
  have long := length_padded some fits
  have last : Reads (pure (natOf ((padded width n).toList.take 9) *
      Nat.pow 10 (9 - (padded width n).toList.length))) rest (n * 10 ^ (9 - width)) rest := by
    rw [List.take_of_length_le (by omega), natOf_padded, long]
    exact Reads.pure _ rest
  exact (Reader.reads_token "." _).bind ((reads_run1_padded width n stops).bind last)

/-- A fraction that is not zero is written with a width at which nothing is lost. -/
theorem exists_fractionText {n : Nat} (some : n ≠ 0) (small : n < 10 ^ 9) :
    ∃ width m, fractionText n = "." ++ padded width m ∧ 0 < width ∧ width ≤ 9 ∧ m < 10 ^ width ∧
      m * 10 ^ (9 - width) = n := by
  unfold fractionText
  rw [if_neg some]
  by_cases millis : n % 1000000 = 0
  · exact ⟨3, n / 1000000, if_pos millis, by omega⟩
  · rw [if_neg millis]
    by_cases micros : n % 1000 = 0
    · exact ⟨6, n / 1000, if_pos micros, by omega⟩
    · exact ⟨9, n, if_neg micros, by omega⟩

/-- The fraction of a second, where it has one. -/
theorem reads_nano {n : Nat} (small : n < 10 ^ 9) :
    Reads (fun cs => if cs.head? = some '.' then fraction cs else some (0, cs))
      ((fractionText n).toList ++ ['Z']) n ['Z'] := by
  by_cases zero : n = 0
  · subst zero
    rfl
  · obtain ⟨width, m, shown, some, short, fits, whole⟩ := exists_fractionText zero small
    have read := reads_fraction some short fits (show Stops isDigit ['Z'] by simp [isDigit])
    rw [whole] at read
    rw [shown, String.toList_append, List.append_assoc]
    have point (rest : List Char) : (".".toList ++ rest).head? = Option.some '.' := rfl
    exact (if_pos (point _)).trans read

/-! ### The whole text -/

theorem daysInMonth_le (year : Int) (month : Nat) : daysInMonth year month ≤ 31 := by
  unfold daysInMonth
  grind

/-- What is at offset zero stays as it is. -/
theorem Fields.earlier_zero {f : Fields} (valid : f.Valid) : f.earlier 0 = f := by
  obtain ⟨-, -, -, -, -, -, hour, minute, -⟩ := valid
  have total : (f.hour * 60 + f.minute - 0 : Int) % 1440 = f.hour * 60 + f.minute := by omega
  have sameHour : ((f.hour * 60 + f.minute : Int) / 60).toNat = f.hour := by omega
  have sameMinute : ((f.hour * 60 + f.minute : Int) % 60).toNat = f.minute := by omega
  simp only [Fields.earlier, total, sameHour, sameMinute]
  rw [if_neg (by omega), if_pos (by omega)]

theorem ofFields?_eq_some {f : Fields} (valid : f.Valid) : ofFields? f = some ⟨f, valid⟩ :=
  dif_pos valid

theorem reads_reader {f : Fields} (valid : f.Valid) :
    Reads reader (text ⟨f, valid⟩).toList ⟨f, valid⟩ [] := by
  have ⟨_, _, _, month, _, day, hour, minute, second, nano⟩ := valid
  have twoDigits {n : Nat} (fits : n < 100) (rest : List Char) :
      Reads (numeral 2) ((padded 2 n).toList ++ rest) n rest := reads_numeral (by decide) fits rest
  have hyphen := @reads_mark "-" rfl
  have colon := @reads_mark ":" rfl
  have time (rest : List Char) : Reads (Reader.oneOf [("T", ()), ("t", ()), (" ", ())])
      ("T".toList ++ rest) () rest := rfl
  have zone : Reads ((utc *> pure 0) <|> offset) ['Z'] 0 [] := rfl
  have shortDay := daysInMonth_le f.year f.month
  simp only [text, String.toList_append, List.append_assoc]
  refine (reads_year f.year ?_).bind ?_
  · simp [isDigit]
  refine (hyphen _).bind ((twoDigits (by omega) _).bind ?_)
  refine (hyphen _).bind ((twoDigits (by omega) _).bind ?_)
  refine (time _).bind ((twoDigits (by omega) _).bind ?_)
  refine (colon _).bind ((twoDigits (by omega) _).bind ?_)
  refine (colon _).bind ((twoDigits (by omega) _).bind ?_)
  refine (reads_nano nano).bind ((reads_blanks (by simp [isBlank])).bind ?_)
  refine zone.bind ((reads_blanks (Reader.stops_nil _)).bind ?_)
  have there : Reads (ofFields? f : Reader Instant) [] ⟨f, valid⟩ [] := by
    rw [ofFields?_eq_some valid]
    rfl
  refine there.bind ?_
  rw [Fields.earlier_zero valid, ofFields?_eq_some valid]
  exact Reads.pure _ []

/-- An instant is read back from its text. -/
theorem ofText?_text (i : Instant) : ofText? i.text = some i :=
  Reader.whole?_of_reads (reads_reader i.valid)

end DiagramText.Instant
