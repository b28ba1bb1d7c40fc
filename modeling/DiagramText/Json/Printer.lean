import DiagramText.Decimal.Shortest
import DiagramText.Json.Basic

/-! JSON text: compact, without any space, and pretty, with one item on a line and an indentation
of two spaces. -/
namespace DiagramText

def Number.text : Number → String
  | .int n => toString n
  | .float x => x.text

namespace Json

def hexDigit (n : Nat) : Char := Nat.digitChar n

/-- Quotes, backslashes and control characters are escaped; all else stands for itself. -/
def escape (c : Char) : List Char :=
  match c with
  | '"' => ['\\', '"']
  | '\\' => ['\\', '\\']
  | '\x08' => ['\\', 'b']
  | '\t' => ['\\', 't']
  | '\n' => ['\\', 'n']
  | '\x0c' => ['\\', 'f']
  | '\r' => ['\\', 'r']
  | c =>
    if c.toNat < 0x20 then ['\\', 'u', '0', '0', hexDigit (c.toNat / 16), hexDigit (c.toNat % 16)]
    else [c]

def quote (s : String) : String := "\"" ++ String.ofList (s.toList.flatMap escape) ++ "\""

mutual
def compact : Json → String
  | .null => "null"
  | .bool b => if b then "true" else "false"
  | .num n => n.text
  | .str s => quote s
  | .arr items => "[" ++ compactItems items ++ "]"
  | .obj fields => "\x7b" ++ compactFields fields ++ "\x7d"

def compactItems : List Json → String
  | [] => ""
  | [x] => compact x
  | x :: y :: ys => compact x ++ "," ++ compactItems (y :: ys)

def compactFields : List (String × Json) → String
  | [] => ""
  | [(k, x)] => quote k ++ ":" ++ compact x
  | (k, x) :: y :: ys => quote k ++ ":" ++ compact x ++ "," ++ compactFields (y :: ys)
end

def newLine (depth : Nat) : String := "\n" ++ String.ofList (List.replicate (2 * depth) ' ')

mutual
def prettyAt (depth : Nat) : Json → String
  | .arr [] => "[]"
  | .obj [] => "\x7b\x7d"
  | .arr items => "[" ++ prettyItems (depth + 1) items ++ newLine depth ++ "]"
  | .obj fields => "\x7b" ++ prettyFields (depth + 1) fields ++ newLine depth ++ "\x7d"
  | .null => "null"
  | .bool b => if b then "true" else "false"
  | .num n => n.text
  | .str s => quote s

def prettyItems (depth : Nat) : List Json → String
  | [] => ""
  | [x] => newLine depth ++ prettyAt depth x
  | x :: y :: ys => newLine depth ++ prettyAt depth x ++ "," ++ prettyItems depth (y :: ys)

def prettyFields (depth : Nat) : List (String × Json) → String
  | [] => ""
  | [(k, x)] => newLine depth ++ quote k ++ ": " ++ prettyAt depth x
  | (k, x) :: y :: ys =>
    newLine depth ++ quote k ++ ": " ++ prettyAt depth x ++ "," ++ prettyFields depth (y :: ys)
end

def pretty (j : Json) : String := prettyAt 0 j

end Json
end DiagramText
