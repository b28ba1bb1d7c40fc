import DiagramText.Text.Alphanumeric
import DiagramText.Text.Blank
import DiagramText.Text.Quoted

/-! Readers: functions that take something off the front of a text and give back the rest. Choice
is ordered, and a reader that fails has taken nothing. -/
namespace DiagramText

/-- Reads an `α` off the front of a text. -/
abbrev Reader (α : Type) := StateT (List Char) Option α

namespace Reader

variable {α β : Type}

/-- The result of a reader that takes the whole text. -/
def whole? (r : Reader α) (cs : List Char) : Option α :=
  match r.run cs with
  | some (a, []) => some a
  | _ => none

/-- Takes exactly the given characters. -/
def chars (ts : List Char) : Reader Unit := fun cs => (ts.isPrefixOf? cs).map ((), ·)

def token (s : String) : Reader Unit := chars s.toList

/-- The value of the first token in the table that the text starts with. -/
def oneOf (table : List (String × α)) : Reader α :=
  match table with
  | [] => failure
  | (s, a) :: rest => (token s *> pure a) <|> oneOf rest

/-- The first of the readers that succeeds. -/
def firstOf : List (Reader α) → Reader α
  | [] => failure
  | r :: rs => r <|> firstOf rs

/-- The longest run of characters in a class, possibly empty. -/
def run (p : Char → Bool) : Reader (List Char) := fun cs => some (cs.takeWhile p, cs.dropWhile p)

/-- The longest run of characters in a class, of one at least. -/
def run1 (p : Char → Bool) : Reader (List Char) := fun cs =>
  if cs.takeWhile p = [] then none else some (cs.takeWhile p, cs.dropWhile p)

def rest : Reader (List Char) := fun cs => some (cs, [])

/-- Succeeds at the end of the text only. -/
def atEnd : Reader Unit := fun cs => if cs = [] then some ((), []) else none

def upTo (r : Reader α) : Nat → Reader (List α)
  | 0 => pure []
  | n + 1 => (do let a ← r; let as ← upTo r n; pure (a :: as)) <|> pure []

/-- As many items as can be read; each is taken to be one character long at least. -/
def many (r : Reader α) : Reader (List α) := fun cs => upTo r cs.length cs

def many1 (r : Reader α) : Reader (List α) := do
  let a ← r
  let as ← many r
  pure (a :: as)

/-- One item or more with a separator between; a separator that no item follows is left alone. -/
def sepBy1 (r : Reader α) (sep : Reader β) : Reader (List α) := do
  let a ← r
  let as ← many (sep *> r)
  pure (a :: as)

def sepBy (r : Reader α) (sep : Reader β) : Reader (List α) := sepBy1 r sep <|> pure []

/-! ### The pieces that statements are made of -/

def inlineBlanks : Reader Unit := do let _ ← run Text.isInlineBlank
def inlineBlanks1 : Reader Unit := do let _ ← run1 Text.isInlineBlank

/-- Letters, digits and underscores. -/
def identifier : Reader String := String.ofList <$> run1 Text.isWordChar

/-- A text between double quotes, its entities decoded. -/
def quoted : Reader String := do
  token "\""
  let cs ← run (· != '"')
  token "\""
  pure (String.ofList (Text.decodeEntities cs))

def restTrimmed : Reader String := (fun cs => String.ofList (Text.trim cs)) <$> rest

def nonEmpty (s : String) : Option String := if s = "" then none else some s

/-- What follows a colon, trimmed; nothing or blanks are no label. -/
def colonLabel : Reader (Option String) := do
  let label ← optional (inlineBlanks *> token ":" *> restTrimmed)
  pure (label.bind nonEmpty)

end Reader
end DiagramText
