import DiagramText.Diagram.Kinds
import DiagramText.Text.Blank
import DiagramText.Text.Split

/-! Source text taken apart: the header that declares the dialect, the lines of the body, and the
title. Blank lines and comments are passed over. -/
namespace DiagramText

structure Source where
  header : String
  body : List String
  title : Option String
deriving DecidableEq, Repr

namespace Source

/-- What starts a comment. -/
def commentMark : List Char := ['%', '%']

def titleMark : List Char := "title:".toList

/-- The title that a comment gives. -/
def titleOf? (comment : List Char) : Option String :=
  match titleMark.isPrefixOf? (Text.trim comment) with
  | some rest => if Text.trim rest = [] then none else some (String.ofList (Text.trim rest))
  | none => none

/-- A source while its lines are taken: there may be no header yet. -/
structure Parts where
  header : Option String
  body : List String
  title : Option String
deriving DecidableEq, Repr

namespace Parts

def empty : Parts := ⟨none, [], none⟩

def pushBody (p : Parts) (line : List Char) : Parts :=
  { p with body := p.body ++ [String.ofList line] }

/-- The first line is the header up to its first semicolon; what follows belongs to the body. -/
def takeHeader (p : Parts) (line : List Char) : Parts :=
  match Text.cut? ';' line with
  | some (declaration, rest) =>
    let p := { p with header := some (String.ofList (Text.trim declaration)) }
    if Text.trim rest = [] then p else p.pushBody (Text.trim rest)
  | none => { p with header := some (String.ofList line) }

/-- Takes one trimmed line. The first comment that gives a title is the one that counts. -/
def take (p : Parts) (line : List Char) : Parts :=
  if line = [] then p
  else match commentMark.isPrefixOf? line with
    | some comment => { p with title := p.title <|> titleOf? comment }
    | none => if p.header.isSome then p.pushBody line else p.takeHeader line

end Parts

def lines (text : String) : List (List Char) := (Text.lines text.toList).map Text.trim

def parts (text : String) : Parts := (lines text).foldl Parts.take .empty

/-- A text without any line but blanks and comments is no source. -/
def ofText? (text : String) : Option Source :=
  let p := parts text
  p.header.map fun header => ⟨header, p.body, p.title⟩

/-- The first word of a header; a semicolon ends it like a blank. -/
def keyword? (header : String) : Option String :=
  ((Text.wordsBy (fun c => Text.isBlank c || c == ';') header.toList).head?).map String.ofList

/-- The direction that follows the keyword. -/
def direction? (s : Source) : Option Direction :=
  ((Text.words s.header.toList)[1]?).bind fun word =>
    (Direction.ofText (String.ofList word)).toOption

end Source

namespace Dialect

/-- Whether a header declares the dialect. -/
def declaredBy (d : Dialect) (header : String) : Bool :=
  match Source.keyword? header with
  | some word => d.keywords.any fun k => Text.lower k = Text.lower word
  | none => false

end Dialect
end DiagramText
