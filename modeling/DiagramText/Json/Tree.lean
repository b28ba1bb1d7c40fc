import DiagramText.Json.Document
import DiagramText.Reader
import DiagramText.Text.Digits

/-! JSON text. Reading gives a tree that keeps repeated keys and marks what stands for no value;
both only matter where something is decoded from it. -/
namespace DiagramText.Json
open Text (isDigit natOf)

inductive Tree where
  | null
  | bool (b : Bool)
  | num (n : Number)
  | str (s : String)
  | arr (items : List Tree)
  | obj (fields : List (String × Tree))
  | unreadable
deriving Inhabited

namespace Tree

def layer : Tree → Layer Tree
  | .null => .null
  | .bool b => .bool b
  | .num n => .num n
  | .str s => .str s
  | .arr items => .arr items
  | .obj fields => .obj fields
  | .unreadable => .unreadable

mutual
/-- The value that a tree stands for. -/
def value? : Tree → Option Json
  | .null => some .null
  | .bool b => some (.bool b)
  | .num n => some (.num n)
  | .str s => some (.str s)
  | .arr items => (items? items).map .arr
  | .obj fields => (fields? fields).map fun es => .obj (Table.ofList es).entries
  | .unreadable => none

def items? : List Tree → Option (List Json)
  | [] => some []
  | t :: ts => do
    let x ← value? t
    let xs ← items? ts
    pure (x :: xs)

def fields? : List (String × Tree) → Option (List (String × Json))
  | [] => some []
  | (k, t) :: ts => do
    let x ← value? t
    let xs ← fields? ts
    pure ((k, x) :: xs)
end

instance : Document Tree := ⟨layer, value?⟩

/-! ### Numbers -/

/-- Integers that fit a signed or an unsigned 64-bit word are kept; a negative zero is no integer. -/
def integer (negative : Bool) (n : Nat) : Option Number :=
  if negative then
    if 0 < n ∧ n ≤ 0x8000000000000000 then some (.int (-n)) else .float <$> Binary64.ofDecimal? true n 0
  else if n ≤ maxWord then some (.int n)
  else .float <$> Binary64.ofDecimal? false n 0

def ofNumber : Option Number → Tree
  | some n => .num n
  | none => .unreadable

/-- The digits before the point: a zero alone, or digits that start with another. -/
def wholeDigits : Reader (List Char) := fun cs =>
  match cs with
  | '0' :: rest => if (rest.head?.map isDigit).getD false then none else some (['0'], rest)
  | _ => Reader.run1 isDigit cs

def fractionDigits : Reader (List Char) := Reader.token "." *> Reader.run1 isDigit

def exponentPart : Reader Int := do
  Reader.oneOf [("e", ()), ("E", ())]
  let sign ← optional (Reader.oneOf [("+", false), ("-", true)])
  let digits ← Reader.run1 isDigit
  pure (if sign = some true then -(natOf digits : Int) else natOf digits)

/-- A part that must be there once its first character is. -/
def ifStarts (starts : List Char) (r : Reader α) : Reader (Option α) := fun cs =>
  match cs with
  | c :: _ => if starts.contains c then (some <$> r) cs else some (none, cs)
  | [] => some (none, cs)

def number : Reader Tree := do
  let sign ← optional (Reader.token "-")
  let whole ← wholeDigits
  let fraction ← ifStarts ['.'] fractionDigits
  let exponent ← ifStarts ['e', 'E'] exponentPart
  match fraction, exponent with
  | none, none => pure (ofNumber (integer sign.isSome (natOf whole)))
  | _, _ =>
    let behind := fraction.getD []
    let x := Binary64.ofDecimal? sign.isSome (natOf (whole ++ behind))
      (exponent.getD 0 - behind.length)
    pure (ofNumber (.float <$> x))

/-! ### Strings -/

def hexValue? (c : Char) : Option Nat :=
  if isDigit c then some (c.toNat - '0'.toNat)
  else if 'a' ≤ c ∧ c ≤ 'f' then some (c.toNat - 'a'.toNat + 10)
  else if 'A' ≤ c ∧ c ≤ 'F' then some (c.toNat - 'A'.toNat + 10)
  else none

def hexUnit? (a b c d : Char) : Option Nat := do
  let a ← hexValue? a
  let b ← hexValue? b
  let c ← hexValue? c
  let d ← hexValue? d
  pure (((a * 16 + b) * 16 + c) * 16 + d)

def isHighSurrogate (n : Nat) : Bool := 0xD800 ≤ n && n < 0xDC00
def isLowSurrogate (n : Nat) : Bool := 0xDC00 ≤ n && n < 0xE000

def pairChar (high low : Nat) : Char :=
  Char.ofNat (0x10000 + (high - 0xD800) * 0x400 + (low - 0xDC00))

def plainEscape? : Char → Option Char
  | '"' => some '"'
  | '\\' => some '\\'
  | '/' => some '/'
  | 'b' => some '\x08'
  | 'f' => some '\x0c'
  | 'n' => some '\n'
  | 'r' => some '\r'
  | 't' => some '\t'
  | _ => none

/-- What a string is spelled with: characters, and escapes that give a UTF-16 code unit. -/
inductive Piece where
  | char (c : Char)
  | unit (n : Nat)

/-- The pieces up to the closing quote, the last one first. -/
def stringPieces (seen : List Piece) : List Char → Option (List Piece × List Char)
  | [] => none
  | '"' :: rest => some (seen, rest)
  | '\\' :: 'u' :: a :: b :: c :: d :: rest =>
    match hexUnit? a b c d with
    | some n => stringPieces (.unit n :: seen) rest
    | none => none
  | '\\' :: c :: rest =>
    match plainEscape? c with
    | some e => stringPieces (.char e :: seen) rest
    | none => none
  | c :: rest => if c.toNat < 0x20 then none else stringPieces (.char c :: seen) rest

/-- Puts surrogate pairs together; half a pair stands for no text. -/
def joinPieces : List Piece → Option (List Char)
  | [] => some []
  | .char c :: ps => (joinPieces ps).map (c :: ·)
  | .unit n :: .unit m :: ps =>
    if isHighSurrogate n then
      if isLowSurrogate m then (joinPieces ps).map (pairChar n m :: ·) else none
    else if isLowSurrogate n then none
    else (joinPieces (.unit m :: ps)).map (Char.ofNat n :: ·)
  | .unit n :: ps =>
    if isHighSurrogate n || isLowSurrogate n then none
    else (joinPieces ps).map (Char.ofNat n :: ·)

/-- A string with its quotes; `none` inside when it stands for no text. -/
def string : Reader (Option String) := do
  Reader.token "\""
  let ps ← (stringPieces [] : Reader (List Piece))
  pure ((joinPieces ps.reverse).map String.ofList)

/-! ### Values -/

def isSpace (c : Char) : Bool := c == ' ' || c == '\t' || c == '\n' || c == '\r'

def spaces : Reader Unit := do let _ ← Reader.run isSpace

def symbol (s : String) : Reader Unit := Reader.token s <* spaces

/-- An object one of whose keys stands for no text stands for no value. -/
def ofFields (fields : List (Option String × Tree)) : Tree :=
  match fields.mapM fun (k, t) => k.map (·, t) with
  | some fs => .obj fs
  | none => .unreadable

/-- How many arrays and objects may stand inside one another. -/
def maxDepth : Nat := 127

mutual
/-- A value and the blanks behind it. `depth` is the number of levels that may still be opened. -/
def valueWithin : Nat → Nat → Reader Tree
  | 0, _ => failure
  | fuel + 1, depth => fun cs =>
    match cs with
    | '"' :: _ => (do let s ← string; spaces; pure (s.elim Tree.unreadable Tree.str)) cs
    | '[' :: _ => (do
        symbol "["
        let items ← itemsWithin fuel (depth - 1)
        pure (if depth = 0 then Tree.unreadable else Tree.arr items)) cs
    | '{' :: _ => (do
        symbol "\x7b"
        let fields ← fieldsWithin fuel (depth - 1)
        pure (if depth = 0 then Tree.unreadable else ofFields fields)) cs
    | _ => ((Reader.oneOf [("null", Tree.null), ("true", .bool true), ("false", .bool false)]
        <|> number) <* spaces) cs

/-- The items of an array and its closing bracket. -/
def itemsWithin : Nat → Nat → Reader (List Tree)
  | 0, _ => failure
  | fuel + 1, depth =>
    (symbol "]" *> pure []) <|> do
      let item ← valueWithin fuel depth
      let items ← (symbol "]" *> pure []) <|> (symbol "," *> moreItemsWithin fuel depth)
      pure (item :: items)

def moreItemsWithin : Nat → Nat → Reader (List Tree)
  | 0, _ => failure
  | fuel + 1, depth => do
    let item ← valueWithin fuel depth
    let items ← (symbol "]" *> pure []) <|> (symbol "," *> moreItemsWithin fuel depth)
    pure (item :: items)

/-- The fields of an object and its closing brace. -/
def fieldsWithin : Nat → Nat → Reader (List (Option String × Tree))
  | 0, _ => failure
  | fuel + 1, depth => (symbol "\x7d" *> pure []) <|> moreFieldsWithin fuel depth

def moreFieldsWithin : Nat → Nat → Reader (List (Option String × Tree))
  | 0, _ => failure
  | fuel + 1, depth => do
    let key ← string <* spaces
    symbol ":"
    let field ← valueWithin fuel depth
    let fields ← (symbol "\x7d" *> pure []) <|> (symbol "," *> moreFieldsWithin fuel depth)
    pure ((key, field) :: fields)
end

/-- Reads a whole text as one JSON value. -/
def ofText? (text : String) : Option Tree :=
  let cs := text.toList
  (spaces *> valueWithin (2 * cs.length + 2) maxDepth : Reader Tree).whole? cs

end Tree

/-- The value that a text stands for. -/
def ofText? (text : String) : Option Json := (Tree.ofText? text).bind Tree.value?

end DiagramText.Json
